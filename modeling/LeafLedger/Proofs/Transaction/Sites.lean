import LeafLedger.Proofs.Transaction.Layout
import Mathlib.Data.List.Nodup

namespace LeafLedger

/-- The instruction of the same program with other accounts and data. -/
def RawInstruction.recast (accounts : List UInt8) (data : Bytes) (raw : RawInstruction) :
    RawInstruction :=
  { raw with accounts, data }

def Instruction.recast (accounts : List UInt8) (data : Bytes) (i : Instruction) : Instruction :=
  { i with accounts, data }

def InnerGroup.recast (index : Nat) (accounts : List UInt8) (data : Bytes) (group : InnerGroup) :
    InnerGroup :=
  { group with instructions := group.instructions.modify index (.recast accounts data) }

/-- The place of an instruction in a transaction: at the top, or in one of the inner groups. -/
inductive Site
  | top (position : Nat)
  | inner (group index : Nat)
  deriving DecidableEq

/-- The top-level position under which the instruction at a site runs. -/
def Site.position? (inner : List InnerGroup) : Site → Option Nat
  | .top position => some position
  | .inner group _ => inner[group]?.map (·.index.toNat)

/-- An instruction when its turn comes, with its site and the top-level position it runs under. -/
structure Turn where
  site : Site
  position : Nat
  raw : RawInstruction

namespace Turn

def origin (turn : Turn) : Origin :=
  match turn.site with
  | .top _ => .top
  | .inner .. => .nested turn.position

/-- The instruction in the execution order at an ordinal, if its program is known. -/
def instruction? (table : KeyTable) (entry : Turn × Nat) : Option Instruction :=
  Execution.place? table entry.1.position ((entry.1.origin, entry.1.raw), entry.2)

/-- A top-level instruction and all that was invoked under it. -/
def callTree (inner : List InnerGroup) (position : Nat) (top : RawInstruction) : List Turn :=
  ⟨.top position, position, top⟩ ::
    (inner.zipIdx.filter (·.1.index.toNat == position)).flatMap fun (group, g) =>
      group.instructions.zipIdx.map fun (raw, index) => ⟨.inner g index, position, raw⟩

def recast (site : Site) (accounts : List UInt8) (data : Bytes) (turn : Turn) : Turn :=
  if turn.site = site then { turn with raw := turn.raw.recast accounts data } else turn

theorem mem_callTree {inner : List InnerGroup} {position : Nat} {top : RawInstruction}
    {turn : Turn} :
    turn ∈ callTree inner position top ↔ turn = ⟨.top position, position, top⟩ ∨
      ∃ group g raw index, inner[g]? = some group ∧ group.index.toNat = position ∧
        group.instructions[index]? = some raw ∧ turn = ⟨.inner g index, position, raw⟩ := by
  simp only [callTree, List.mem_cons, List.mem_flatMap, List.mem_filter, List.mem_map, Prod.exists,
    List.mem_zipIdx_iff_getElem?, beq_iff_eq]
  refine or_congr_right ⟨?_, ?_⟩
  · rintro ⟨group, g, ⟨hg, hp⟩, raw, index, hr, rfl⟩
    exact ⟨group, g, raw, index, hg, hp, hr, rfl⟩
  · rintro ⟨group, g, raw, index, hg, hp, hr, rfl⟩
    exact ⟨group, g, ⟨hg, hp⟩, raw, index, hr, rfl⟩

theorem position_of_mem_callTree {inner : List InnerGroup} {position : Nat} {top : RawInstruction}
    {turn : Turn} (h : turn ∈ callTree inner position top) : turn.position = position := by
  rcases mem_callTree.mp h with rfl | ⟨_, _, _, _, _, _, _, rfl⟩ <;> rfl

theorem map_callTree (inner : List InnerGroup) (position : Nat) (top : RawInstruction) :
    (callTree inner position top).map (fun turn => (turn.origin, turn.raw)) =
      Execution.callTree inner position top := by
  -- The filter by position does not see the numbers of the groups.
  have groups : inner.filter (·.index.toNat == position) =
      (inner.zipIdx.filter (·.1.index.toNat == position)).map Prod.fst := by
    conv_lhs => rw [← List.zipIdx_map_fst 0 inner, List.filter_map]
    rfl
  simp only [callTree, Execution.callTree, List.map_cons, List.map_flatMap, List.map_map, groups,
    List.flatMap_map]
  refine congrArg (_ :: ·) (List.flatMap_congr fun entry _ => ?_)
  conv_rhs => rw [← List.zipIdx_map_fst 0 entry.1.instructions, List.map_map]
  rfl

theorem filterMap_callTree (table : KeyTable) (inner : List InnerGroup) (position ordinal : Nat)
    (top : RawInstruction) :
    ((Execution.callTree inner position top).zipIdx ordinal).filterMap
        (Execution.place? table position) =
      ((callTree inner position top).zipIdx ordinal).filterMap (instruction? table) := by
  rw [← map_callTree, List.zipIdx_map, List.filterMap_map]
  refine List.filterMap_congr fun entry he => ?_
  have here := position_of_mem_callTree (List.fst_mem_of_mem_zipIdx he)
  rw [instruction?, here]
  rfl

theorem instructions_ofInstructions (table : KeyTable) (signature : String)
    (inner : List InnerGroup) (position ordinal : Nat) (tops : List RawInstruction) :
    (Execution.ofInstructions table signature inner position ordinal tops).instructions =
      (((tops.zipIdx position).flatMap fun (top, position) =>
        callTree inner position top).zipIdx ordinal).filterMap (instruction? table) := by
  induction tops generalizing position ordinal with
  | nil => rfl
  | cons top tops ih =>
    have length : (callTree inner position top).length =
        (Execution.callTree inner position top).length := by
      rw [← map_callTree, List.length_map]
    rw [Execution.ofInstructions, Execution.instructions_prepend, ih, filterMap_callTree,
      List.zipIdx_cons, List.flatMap_cons, List.zipIdx_append, List.filterMap_append, length]

theorem nodup_sites_callTree (inner : List InnerGroup) (position : Nat) (top : RawInstruction) :
    ((callTree inner position top).map (·.site)).Nodup := by
  simp only [callTree, List.map_cons, List.map_flatMap, List.map_map, List.nodup_cons]
  constructor
  · simp [List.mem_flatMap]
  · rw [List.nodup_flatMap]
    constructor
    · intro entry _
      rw [List.nodup_iff_pairwise_ne, List.pairwise_map]
      refine (pairwise_zipIdx _ 0).imp fun less same => ?_
      simp only [Function.comp_apply, Site.inner.injEq] at same
      omega
    · refine ((pairwise_zipIdx inner 0).sublist List.filter_sublist).imp fun less site ha hb => ?_
      obtain ⟨a, _, rfl⟩ := List.mem_map.mp ha
      obtain ⟨b, _, same⟩ := List.mem_map.mp hb
      simp only [Function.comp_apply, Site.inner.injEq] at same
      omega

theorem position?_of_mem_callTree {inner : List InnerGroup} {position : Nat} {top : RawInstruction}
    {turn : Turn} (h : turn ∈ callTree inner position top) :
    turn.site.position? inner = some position := by
  rcases mem_callTree.mp h with rfl | ⟨group, g, raw, index, hg, hp, _, rfl⟩
  · rfl
  · simp [Site.position?, hg, hp]

theorem zipIdx_modify {α : Type} (l : List α) (n : Nat) (f : α → α) :
    (l.modify n f).zipIdx = l.zipIdx.map fun a => (if a.2 = n then f a.1 else a.1, a.2) := by
  refine List.ext_getElem? fun i => ?_
  simp only [List.getElem?_zipIdx, List.getElem?_modify, List.getElem?_map]
  cases l[i]? with
  | none => rfl
  | some a => by_cases h : i = n <;> simp [h, eq_comm]

variable (position n g index : Nat) (inner : List InnerGroup) (top : RawInstruction)
  (accounts : List UInt8) (data : Bytes)

theorem callTree_recast_top :
    callTree inner position (if position = n then top.recast accounts data else top) =
      (callTree inner position top).map (recast (.top n) accounts data) := by
  by_cases h : position = n <;> simp [callTree, recast, h, List.map_flatMap, Function.comp_def]

theorem callTree_recast_inner :
    callTree (inner.modify g (.recast index accounts data)) position top =
      (callTree inner position top).map (recast (.inner g index) accounts data) := by
  have ahead : recast (.inner g index) accounts data ⟨.top position, position, top⟩ =
      ⟨.top position, position, top⟩ := by simp [recast]
  have kept : ∀ entry : InnerGroup × Nat,
      (if entry.2 = g then entry.1.recast index accounts data else entry.1).index =
        entry.1.index := by
    intro entry
    split <;> rfl
  simp only [callTree, zipIdx_modify, List.filter_map, List.flatMap_map, List.map_cons,
    List.map_flatMap, List.map_map, ahead, Function.comp_def, kept]
  refine congrArg (_ :: ·) (List.flatMap_congr fun entry _ => ?_)
  by_cases here : entry.2 = g
  · simp only [here, if_true, InnerGroup.recast, zipIdx_modify, List.map_map, Function.comp_def]
    refine List.map_congr_left fun member _ => ?_
    by_cases same : member.2 = index <;> simp [recast, same]
  · simp [here, recast]

end Turn

namespace Transaction

def at? (tx : Transaction) : Site → Option RawInstruction
  | .top position => tx.instructions[position]?
  | .inner group index => tx.inner[group]?.bind (·.instructions[index]?)

/-- The transaction with other accounts and data for the instruction at a site. -/
def recast (tx : Transaction) (accounts : List UInt8) (data : Bytes) : Site → Transaction
  | .top position =>
    { tx with instructions := tx.instructions.modify position (.recast accounts data) }
  | .inner group index => { tx with inner := tx.inner.modify group (.recast index accounts data) }

/-- The instructions in the order in which they run, whether or not their programs are known. -/
def turns (tx : Transaction) : List Turn :=
  tx.instructions.zipIdx.flatMap fun (top, position) => Turn.callTree tx.inner position top

/-- The ordinal of the instruction at a site. What never runs counts behind all others. -/
def ordinal (tx : Transaction) (site : Site) : Nat :=
  (tx.turns.map (·.site)).idxOf site

variable {tx : Transaction} {site : Site} {raw : RawInstruction}

theorem at?_of_mem_turns {turn : Turn} (h : turn ∈ tx.turns) :
    tx.at? turn.site = some turn.raw := by
  obtain ⟨⟨top, position⟩, ht, h⟩ := List.mem_flatMap.mp h
  have known : tx.instructions[position]? = some top := List.mem_zipIdx_iff_getElem?.mp ht
  rcases Turn.mem_callTree.mp h with rfl | ⟨group, g, raw, index, hg, _, hr, rfl⟩
  · exact known
  · simp [at?, hg, hr]

/-- No instruction runs twice. -/
theorem nodup_sites (tx : Transaction) : (tx.turns.map (·.site)).Nodup := by
  rw [turns, List.map_flatMap, List.nodup_flatMap]
  refine ⟨fun _ _ => Turn.nodup_sites_callTree _ _ _, ?_⟩
  refine (pairwise_zipIdx tx.instructions 0).imp fun less site ha hb => ?_
  obtain ⟨a, early, rfl⟩ := List.mem_map.mp ha
  obtain ⟨b, late, same⟩ := List.mem_map.mp hb
  have here := Turn.position?_of_mem_callTree early
  rw [← same, Turn.position?_of_mem_callTree late, Option.some.injEq] at here
  omega

theorem turns_recast (tx : Transaction) (accounts : List UInt8) (data : Bytes) (site : Site) :
    (tx.recast accounts data site).turns = tx.turns.map (.recast site accounts data) := by
  cases site with
  | top position =>
    simp only [turns, recast, Turn.zipIdx_modify, List.flatMap_map, List.map_flatMap,
      Turn.callTree_recast_top]
  | inner group index =>
    simp only [turns, recast, Turn.callTree_recast_inner, List.map_flatMap]

/-- The execution order holds the turns of known programs, numbered along all turns. -/
theorem instructions_eq_turns (tx : Transaction) (table : KeyTable) :
    (tx.execution table).instructions = tx.turns.zipIdx.filterMap (Turn.instruction? table) :=
  Turn.instructions_ofInstructions table tx.signature tx.inner 0 0 tx.instructions

theorem site_eq_iff {entry : Turn × Nat} (h : entry ∈ tx.turns.zipIdx) :
    entry.1.site = site ↔ entry.2 = tx.ordinal site := by
  obtain ⟨turn, n⟩ := entry
  obtain ⟨hn, ht⟩ := List.getElem?_eq_some_iff.mp (List.mem_zipIdx_iff_getElem?.mp h)
  have bound : n < (tx.turns.map (·.site)).length := by rwa [List.length_map]
  have here : (tx.turns.map (·.site))[n] = turn.site := by rw [List.getElem_map, ht]
  constructor
  · rintro rfl
    rw [ordinal, ← here, tx.nodup_sites.idxOf_getElem n bound]
  · rintro rfl
    rw [← here]
    exact List.getElem_idxOf bound

/-- To replace the accounts and the data at a site is to replace them in the instruction with the
ordinal of the site. -/
theorem instructions_recast (tx : Transaction) (table : KeyTable) (accounts : List UInt8)
    (data : Bytes) (site : Site) :
    ((tx.recast accounts data site).execution table).instructions =
      (tx.execution table).instructions.map fun i =>
        if i.ordinal = tx.ordinal site then i.recast accounts data else i := by
  rw [instructions_eq_turns, instructions_eq_turns, turns_recast, List.zipIdx_map,
    List.filterMap_map, List.map_filterMap]
  -- Both sides go through the same turns, and one site has one ordinal among them.
  refine List.filterMap_congr fun entry he => ?_
  have place : entry.1.site = site ↔ entry.2 = tx.ordinal site := site_eq_iff he
  simp only [Function.comp_apply, Turn.instruction?, Execution.place?,
    Option.map_map, Function.comp_def, ← place]
  by_cases here : entry.1.site = site
  · simp [Turn.recast, here, RawInstruction.recast, Instruction.recast, Turn.origin]
  · simp [Turn.recast, here]

/-- The instruction with the ordinal of a site is the one at the site. -/
theorem of_ordinal_eq (found : tx.at? site = some raw) {table : KeyTable} {i : Instruction}
    (hi : i ∈ (tx.execution table).instructions) (same : i.ordinal = tx.ordinal site) :
    table.get? raw.programIndex.toNat = some i.program ∧ i.accounts = raw.accounts ∧
      i.data = raw.data := by
  rw [instructions_eq_turns] at hi
  obtain ⟨entry, he, hp⟩ := List.mem_filterMap.mp hi
  obtain ⟨program, known, rfl⟩ := Option.map_eq_some_iff.mp hp
  have own := at?_of_mem_turns (List.fst_mem_of_mem_zipIdx he)
  rw [(site_eq_iff he).mpr same, found, Option.some.injEq] at own
  subst own
  exact ⟨known, rfl, rfl⟩

end Transaction

end LeafLedger
