import LeafLedger.Proofs.Transaction.Sites
import Mathlib.Data.List.Perm.Subperm

namespace LeafLedger

/-- The order of sites under one position. -/
def Site.Before : Site → Site → Prop
  | .top _, .inner .. => True
  | .inner group index, .inner other place => group < other ∨ group = other ∧ index < place
  | _, .top _ => False

namespace Turn

/-- The order in which instructions run. -/
def Before (a b : Turn) : Prop :=
  a.position < b.position ∨ a.position = b.position ∧ a.site.Before b.site

theorem pairwise_callTree (inner : List InnerGroup) (position : Nat) (top : RawInstruction) :
    (callTree inner position top).Pairwise Before := by
  rw [callTree, List.pairwise_cons, List.pairwise_flatMap]
  refine ⟨?_, ?_, ?_⟩
  · intro turn ht
    obtain ⟨entry, _, ht⟩ := List.mem_flatMap.mp ht
    obtain ⟨raw, _, rfl⟩ := List.mem_map.mp ht
    exact Or.inr ⟨rfl, trivial⟩
  · intro entry _
    refine List.pairwise_map.mpr ((pairwise_zipIdx _ 0).imp ?_)
    intro a b less
    exact Or.inr ⟨rfl, Or.inr ⟨rfl, less⟩⟩
  · refine ((pairwise_zipIdx inner 0).sublist List.filter_sublist).imp ?_
    intro a b less x hx y hy
    obtain ⟨_, _, rfl⟩ := List.mem_map.mp hx
    obtain ⟨_, _, rfl⟩ := List.mem_map.mp hy
    exact Or.inr ⟨rfl, Or.inl less⟩

end Turn

namespace Transaction

/-- The number of instructions, those included that never run. -/
def size (tx : Transaction) : Nat :=
  tx.instructions.length + (tx.inner.flatMap (·.instructions)).length

/-- The sites of all instructions, those included that never run. -/
def sites (tx : Transaction) : List Site :=
  (List.range tx.instructions.length).map .top ++
    tx.inner.zipIdx.flatMap fun (group, g) =>
      (List.range group.instructions.length).map (.inner g)

theorem length_sites (tx : Transaction) : tx.sites.length = tx.size := by
  have groups : tx.inner.zipIdx.map (fun entry => entry.1.instructions.length) =
      tx.inner.map (·.instructions.length) := by
    conv_rhs => rw [← List.zipIdx_map_fst 0 tx.inner, List.map_map]
    rfl
  simp only [sites, size, List.length_append, List.length_map, List.length_range,
    List.length_flatMap, groups]

theorem mem_sites {tx : Transaction} {site : Site} {raw : RawInstruction}
    (found : tx.at? site = some raw) : site ∈ tx.sites := by
  cases site with
  | top position =>
    obtain ⟨bound, _⟩ := List.getElem?_eq_some_iff.mp found
    exact List.mem_append_left _ (List.mem_map_of_mem (List.mem_range.mpr bound))
  | inner g index =>
    obtain ⟨group, hg, hr⟩ := Option.bind_eq_some_iff.mp found
    obtain ⟨bound, _⟩ := List.getElem?_eq_some_iff.mp hr
    refine List.mem_append_right _ (List.mem_flatMap.mpr ⟨(group, g), ?_, ?_⟩)
    · exact List.mem_zipIdx_iff_getElem?.mpr hg
    · exact List.mem_map_of_mem (List.mem_range.mpr bound)

/-- An instruction has its turn at the position under which it stands, if there is one. -/
theorem mem_turns {tx : Transaction} {turn : Turn} :
    turn ∈ tx.turns ↔ tx.at? turn.site = some turn.raw ∧
      turn.site.position? tx.inner = some turn.position ∧
      turn.position < tx.instructions.length := by
  constructor
  · intro h
    refine ⟨at?_of_mem_turns h, ?_⟩
    obtain ⟨⟨top, position⟩, ht, h⟩ := List.mem_flatMap.mp h
    obtain ⟨bound, _⟩ := List.getElem?_eq_some_iff.mp (List.mem_zipIdx_iff_getElem?.mp ht)
    rw [Turn.position_of_mem_callTree h]
    exact ⟨Turn.position?_of_mem_callTree h, bound⟩
  · obtain ⟨site, position, raw⟩ := turn
    rintro ⟨found, stands, bound⟩
    obtain ⟨top, ht⟩ : ∃ top, tx.instructions[position]? = some top :=
      ⟨_, List.getElem?_eq_getElem bound⟩
    refine List.mem_flatMap.mpr ⟨(top, position), List.mem_zipIdx_iff_getElem?.mpr ht, ?_⟩
    refine Turn.mem_callTree.mpr ?_
    cases site with
    | top own =>
      obtain rfl : own = position := Option.some.inj stands
      obtain rfl : raw = top := Option.some.inj (found.symm.trans ht)
      exact Or.inl rfl
    | inner g index =>
      obtain ⟨group, hg, hr⟩ := Option.bind_eq_some_iff.mp found
      refine Or.inr ⟨group, g, raw, index, hg, ?_, hr, rfl⟩
      simpa [Site.position?, hg] using stands

theorem pairwise_turns (tx : Transaction) : tx.turns.Pairwise Turn.Before := by
  refine List.pairwise_flatMap.mpr ⟨fun _ _ => Turn.pairwise_callTree _ _ _, ?_⟩
  refine (pairwise_zipIdx tx.instructions 0).imp fun less x hx y hy => Or.inl ?_
  rwa [Turn.position_of_mem_callTree hx, Turn.position_of_mem_callTree hy]

theorem length_turns_le (tx : Transaction) : tx.turns.length ≤ tx.size := by
  have known : tx.turns.map (·.site) ⊆ tx.sites := by
    intro site hs
    obtain ⟨turn, ht, rfl⟩ := List.mem_map.mp hs
    exact mem_sites (at?_of_mem_turns ht)
  have bound := (List.subperm_of_subset tx.nodup_sites known).length_le
  rwa [List.length_map, length_sites] at bound

/-- The turns of a transaction are its instructions under top-level positions, each once and in the
order of their sites. The execution order holds the turns of known programs: each with its accounts
and data, its origin and position, and as its ordinal the number of all turns before it, whichever
programs are known. So ordinals go up, and stay below the number of instructions. -/
theorem execution_in_turn (tx : Transaction) :
    tx.turns.Pairwise Turn.Before ∧
    (∀ site position raw, ⟨site, position, raw⟩ ∈ tx.turns ↔
      tx.at? site = some raw ∧ site.position? tx.inner = some position ∧
        position < tx.instructions.length) ∧
    (tx.turns.map (·.site)).Nodup ∧
    ∀ table : KeyTable,
      (tx.execution table).instructions = tx.turns.zipIdx.filterMap (fun (turn, ordinal) =>
        (table.get? turn.raw.programIndex.toNat).map fun program =>
          { program
            accounts := turn.raw.accounts
            data := turn.raw.data
            origin :=
              match turn.site with
              | .top _ => .top
              | .inner .. => .nested turn.position
            position := turn.position
            ordinal }) ∧
      (tx.execution table).instructions.Pairwise (·.ordinal < ·.ordinal) ∧
      ∀ i ∈ (tx.execution table).instructions, i.ordinal < tx.size := by
  refine ⟨tx.pairwise_turns, fun site position raw => mem_turns, tx.nodup_sites, ?_⟩
  intro table
  have sorted := (Execution.pairwise_instructions tx table).imp And.left
  refine ⟨tx.instructions_eq_turns table, sorted, ?_⟩
  intro i hi
  rw [instructions_eq_turns] at hi
  obtain ⟨entry, he, hp⟩ := List.mem_filterMap.mp hi
  obtain ⟨program, _, rfl⟩ := Option.map_eq_some_iff.mp hp
  have bound : entry.2 < tx.turns.length := by
    simpa using List.snd_lt_add_of_mem_zipIdx he
  exact Nat.lt_of_lt_of_le bound tx.length_turns_le

end Transaction

end LeafLedger
