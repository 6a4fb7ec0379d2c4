import LeafLedger.Proofs.Scan.EventOrder

namespace LeafLedger

namespace Instruction

/-- Whether an instruction of the target program hands on or burns a leaf that exists. -/
def changesLeaf (context : ScanContext) (i : Instruction) : Bool :=
  decide (context.role? i.program = some .target) &&
    ((Kind.ofPayload i.data).event? == some .transfer ||
      (Kind.ofPayload i.data).event? == some .burn)

/-- Transfers and burns settle nothing for the mints before them. -/
theorem isLandmark_of_changesLeaf {context : ScanContext} {i : Instruction}
    (changes : i.changesLeaf context) : i.isLandmark context = false := by
  simp only [changesLeaf, Bool.and_eq_true, decide_eq_true_eq, Bool.or_eq_true, beq_iff_eq]
    at changes
  obtain ⟨target, kind⟩ := changes
  have mute : i.announced? context = none := announced?_eq_none fun wrapper => by
    rw [target] at wrapper
    cases wrapper
  have other : (Kind.ofPayload i.data).isMint = false := by
    rcases kind with hk | hk
    · exact (Kind.needsLeafSchema_event? hk).symm
    · exact (Kind.needsLeafSchema_event? hk).symm
  simp [isLandmark, isMint, mute, other]

end Instruction

namespace Scan

/-- The emission settles the leaf of the mint: it announces that leaf, and no landmark stands
between the two. -/
structure LeafSource (context : ScanContext) (instructions : List Instruction)
    (mint emission : Instruction) (schema : LeafSchema) : Prop where
  split : ∃ before between after,
    instructions = (before ++ mint :: between) ++ emission :: after ∧
      ∀ other ∈ between, other.isLandmark context = false
  announced : emission.announced? context = some schema

theorem exists_source_of_leafAhead {context : ScanContext} {instructions : List Instruction}
    {mint : Instruction} {n : Nat} {schema : LeafSchema} (hm : instructions[n]? = some mint)
    (leaf : leafAhead context mint.position (instructions.drop (n + 1)) = some schema) :
    ∃ emission, LeafSource context instructions mint emission schema ∧
      (emission.origin = .top ∨ emission.position = mint.position) := by
  unfold leafAhead at leaf
  cases hf : (instructions.drop (n + 1)).find? (·.isLandmark context) with
  | none => simp [hf] at leaf
  | some emission =>
    simp only [hf] at leaf
    split at leaf
    next reach =>
      obtain ⟨_, between, after, hd, quiet⟩ := List.find?_eq_some_iff_append.mp hf
      obtain ⟨hn, hv⟩ := List.getElem?_eq_some_iff.mp hm
      have split : instructions =
          (instructions.take n ++ mint :: between) ++ emission :: after := by
        rw [List.append_assoc, List.cons_append, ← hd, ← hv, ← List.drop_eq_getElem_cons hn,
          List.take_append_drop]
      have none : ∀ other ∈ between, other.isLandmark context = false := by
        intro other ho
        simpa using quiet other ho
      exact ⟨emission, ⟨⟨_, _, _, split, none⟩, leaf⟩, reach⟩
    next => cases leaf

variable {instructions before between after : List Instruction} {mint emission other : Instruction}

/-- A mint finds the leaf of an emission within reach, whatever stands between the two that is no
landmark. -/
theorem leafAhead_of_split {context : ScanContext} {schema : LeafSchema}
    (split : instructions = (before ++ mint :: between) ++ emission :: after)
    (quiet : ∀ other ∈ between, other.isLandmark context = false)
    (announced : emission.announced? context = some schema)
    (reach : emission.origin = .top ∨ emission.position = mint.position) :
    leafAhead context mint.position (instructions.drop (before.length + 1)) = some schema := by
  have later : instructions.drop (before.length + 1) = between ++ emission :: after := by
    rw [split, List.append_assoc, List.cons_append]
    simp
  have none : between.find? (·.isLandmark context) = none := by
    rw [List.find?_eq_none]
    intro other ho
    simp [quiet other ho]
  have landmark : emission.isLandmark context = true := by
    simp [Instruction.isLandmark, announced]
  rw [leafAhead, later, List.find?_append, none, Option.none_or,
    List.find?_cons_of_pos landmark]
  simp only [if_pos reach]
  exact announced

theorem index_eq_of_ordinal_eq (sorted : instructions.Pairwise fun a b =>
      a.ordinal < b.ordinal ∧ a.position ≤ b.position) {n m : Nat} {i j : Instruction}
    (hi : instructions[n]? = some i) (hj : instructions[m]? = some j)
    (same : i.ordinal = j.ordinal) : n = m := by
  obtain ⟨hn, rfl⟩ := List.getElem?_eq_some_iff.mp hi
  obtain ⟨hm, rfl⟩ := List.getElem?_eq_some_iff.mp hj
  have above := List.pairwise_iff_getElem.mp sorted
  rcases Nat.lt_trichotomy n m with less | equal | less
  · have hlt := (above n m hn hm less).1
    omega
  · exact equal
  · have hlt := (above m n hm hn less).1
    omega

/-- What stands between two instructions by its ordinal stands between them in the list. -/
theorem mem_between (sorted : instructions.Pairwise fun a b =>
      a.ordinal < b.ordinal ∧ a.position ≤ b.position)
    (split : instructions = (before ++ mint :: between) ++ emission :: after)
    (ho : other ∈ instructions) (behind : mint.ordinal < other.ordinal)
    (ahead : other.ordinal < emission.ordinal) : other ∈ between := by
  rw [split] at sorted ho
  obtain ⟨front, back, _⟩ := List.pairwise_append.mp sorted
  obtain ⟨_, _, early⟩ := List.pairwise_append.mp front
  rcases List.mem_append.mp ho with ho | ho
  · rcases List.mem_append.mp ho with ho | ho
    · have hlt := early other ho mint (by simp)
      omega
    · rcases List.mem_cons.mp ho with rfl | ho
      · omega
      · exact ho
  · rcases List.mem_cons.mp ho with rfl | ho
    · omega
    · have hlt := (List.pairwise_cons.mp back).1 other ho
      omega

theorem position_between (sorted : instructions.Pairwise fun a b =>
      a.ordinal < b.ordinal ∧ a.position ≤ b.position)
    (split : instructions = (before ++ mint :: between) ++ emission :: after)
    (ho : other ∈ between) :
    mint.position ≤ other.position ∧ other.position ≤ emission.position := by
  rw [split] at sorted
  obtain ⟨front, _, cross⟩ := List.pairwise_append.mp sorted
  have hle := (List.pairwise_cons.mp (List.pairwise_append.mp front).2.1).1 other ho
  have hge := cross other (by simp [ho]) emission (by simp)
  omega

/-- An event with a leaf is a mint, and the leaf has its source in an emission behind it. -/
theorem exists_source_of_leaf {context : ScanContext} {tx : Transaction} {event : Event}
    {schema : LeafSchema} (found : event ∈ (tx.scan context).events)
    (leaf : event.leafSchema = some schema) :
    event.kind = .mint ∧ ∃ mint emission, mint.ordinal = event.ordinal ∧
      LeafSource context (tx.execution (.ofTransaction tx)).instructions mint emission schema ∧
      mint.ordinal < emission.ordinal ∧
      (emission.origin = .top ∨ emission.position = mint.position) ∧
      ∀ other ∈ (tx.execution (.ofTransaction tx)).instructions,
        mint.ordinal < other.ordinal → other.ordinal < emission.ordinal →
        other.isLandmark context = false ∧
          (emission.origin = .top ∨ other.position = mint.position) := by
  obtain ⟨mint, n, hm, records⟩ := exists_records_of_mem_events found
  have carried := records.leafSchema.symm.trans leaf
  cases hk : event.kind with
  | transfer | burn => simp [hk, EventKind.carried] at carried
  | mint =>
    rw [hk] at carried
    obtain ⟨emission, source, reach⟩ := exists_source_of_leafAhead hm carried
    have sorted := Execution.pairwise_instructions tx (.ofTransaction tx)
    obtain ⟨before, between, after, split, quiet⟩ := source.split
    have hlt : mint.ordinal < emission.ordinal := by
      rw [split] at sorted
      exact ((List.pairwise_append.mp sorted).2.2 mint (by simp) emission (by simp)).1
    refine ⟨rfl, mint, emission, records.ordinal.symm, source, hlt, reach, ?_⟩
    intro other ho behind ahead
    have hb := mem_between sorted split ho behind ahead
    refine ⟨quiet other hb, reach.imp_right ?_⟩
    intro same
    have hp := position_between sorted split hb
    omega

/-- The event of a mint has the leaf of an emission that settles it within reach. -/
theorem leaf_of_source {context : ScanContext} {tx : Transaction} {event : Event}
    {schema : LeafSchema} (found : event ∈ (tx.scan context).events) (kind : event.kind = .mint)
    (own : mint.ordinal = event.ordinal)
    (source : LeafSource context (tx.execution (.ofTransaction tx)).instructions mint emission
      schema) (reach : emission.origin = .top ∨ emission.position = mint.position) :
    event.leafSchema = some schema := by
  obtain ⟨i, n, hi, records⟩ := exists_records_of_mem_events found
  obtain ⟨before, between, after, split, quiet⟩ := source.split
  have hm : (tx.execution (.ofTransaction tx)).instructions[before.length]? = some mint := by
    rw [split, List.append_assoc, List.cons_append]
    simp
  have index : n = before.length := index_eq_of_ordinal_eq
    (Execution.pairwise_instructions tx (.ofTransaction tx)) hi hm
    (records.ordinal.symm.trans own.symm)
  subst index
  obtain rfl : i = mint := Option.some.inj (hi.symm.trans hm)
  rw [records.leafSchema, kind]
  exact leafAhead_of_split split quiet source.announced reach

/-- An event with a leaf is a mint, and it has the leaf of the next emission. Whatever runs between
the two neither mints nor announces a leaf, and it is in the call tree of both, unless the emission
is a top-level instruction. Conversely, each mint that is followed by such an emission has its leaf:
transfers and burns in between do not keep it from the mint. -/
theorem leaf_of_call_tree {context : ScanContext} {tx : Transaction} {event : Event}
    (found : event ∈ (tx.scan context).events) :
    let instructions := (tx.execution (.ofTransaction tx)).instructions
    (∀ schema, event.leafSchema = some schema →
      event.kind = .mint ∧ ∃ mint emission, mint.ordinal = event.ordinal ∧
        LeafSource context instructions mint emission schema ∧ mint.ordinal < emission.ordinal ∧
        (emission.origin = .top ∨ emission.position = mint.position) ∧
        ∀ other ∈ instructions, mint.ordinal < other.ordinal → other.ordinal < emission.ordinal →
          other.isLandmark context = false ∧
            (emission.origin = .top ∨ other.position = mint.position)) ∧
    (event.kind = .mint → ∀ mint emission schema, mint.ordinal = event.ordinal →
      LeafSource context instructions mint emission schema →
      (emission.origin = .top ∨ emission.position = mint.position) →
      event.leafSchema = some schema) ∧
    ∀ other : Instruction, other.changesLeaf context → other.isLandmark context = false := by
  intro instructions
  refine ⟨fun schema leaf => exists_source_of_leaf found leaf, ?_, fun other changes =>
    Instruction.isLandmark_of_changesLeaf changes⟩
  intro kind mint emission schema own source reach
  exact leaf_of_source found kind own source reach

/-- A mint has its leaf from an emission that runs after a transfer or a burn. -/
def TakesAcross (context : ScanContext) (tx : Transaction) : Prop :=
  ∃ event ∈ (tx.scan context).events, ∃ mint emission schema,
    event.leafSchema = some schema ∧ mint.ordinal = event.ordinal ∧
    LeafSource context (tx.execution (.ofTransaction tx)).instructions mint emission schema ∧
    ∃ other ∈ (tx.execution (.ofTransaction tx)).instructions, other.changesLeaf context ∧
      mint.ordinal < other.ordinal ∧ other.ordinal < emission.ordinal

theorem takesAcross_of_split {context : ScanContext} {tx : Transaction} {schema : LeafSchema}
    (split : (tx.execution (.ofTransaction tx)).instructions =
      (before ++ mint :: [other]) ++ emission :: after)
    (announced : emission.announced? context = some schema) (changes : other.changesLeaf context)
    (found : (mint.ordinal, some schema) ∈
      (tx.scan context).events.map fun event => (event.ordinal, event.leafSchema)) :
    TakesAcross context tx := by
  obtain ⟨event, he, same⟩ := List.mem_map.mp found
  obtain ⟨ordinal, leaf⟩ := Prod.mk.inj same
  have sorted := Execution.pairwise_instructions tx (.ofTransaction tx)
  rw [split] at sorted
  obtain ⟨front, _, cross⟩ := List.pairwise_append.mp sorted
  have quiet := Instruction.isLandmark_of_changesLeaf changes
  have source : LeafSource context (tx.execution (.ofTransaction tx)).instructions mint emission
      schema := ⟨⟨before, [other], after, split, by simpa using quiet⟩, announced⟩
  refine ⟨event, he, mint, emission, schema, leaf, ordinal.symm, source, other, by simp [split],
    changes, ?_, ?_⟩
  · exact ((List.pairwise_cons.mp (List.pairwise_append.mp front).2.1).1 other (by simp)).1
  · exact (cross other (by simp) emission (by simp)).1

/-- The leaf that the samples announce. -/
def sampleLeaf : LeafSchema where
  leafId := .replicate 0
  owner := .replicate 4
  delegate := .replicate 4
  nonce := 9
  dataHash := .replicate 0
  creatorHash := .replicate 0
  leafHash := .replicate 0

/-- A call of the compressed-asset program in the samples. -/
def sampleCall (kind : Kind) (args : Bytes) : RawInstruction :=
  ⟨0, List.replicate 6 2, kind.discriminator?.getD [] ++ args⟩

def sampleMint : RawInstruction :=
  sampleCall .mintV1 <| Borsh.encode
    (⟨"", "", "", 0, false, true, none, none, none, none, .legacy, []⟩ : Metadata)

def sampleTransfer : RawInstruction :=
  sampleCall .transfer <| Borsh.encode
    (⟨.replicate 0, .replicate 0, .replicate 0, 9, 9⟩ : LeafArgs)

/-- A mint that announces no leaf, then a transfer that does: all in the call tree of another
program, or all at the top. -/
def sampleTransaction (nested : Bool) : Transaction where
  signature := "s"
  slot := 1
  accountKeys := [Program.compressedAsset, Program.noop, .replicate 2]
  loaded := ⟨[], []⟩
  instructions :=
    if nested then [⟨2, [], []⟩] else [sampleMint, sampleTransfer, ⟨1, [], sampleLeaf.emission⟩]
  inner := if nested then [⟨0, [sampleMint, sampleTransfer, ⟨1, [], sampleLeaf.emission⟩]⟩] else []

/-- The instruction of a sample that runs with an ordinal. -/
def sampleInstruction (nested : Bool) (program : Address) (raw : RawInstruction) (ordinal : Nat) :
    Instruction where
  program
  accounts := raw.accounts
  data := raw.data
  origin := if nested then .nested 0 else .top
  position := if nested then 0 else ordinal
  ordinal

theorem split_sampleTransaction :
    ((sampleTransaction true).execution (.ofTransaction (sampleTransaction true))).instructions =
      ([⟨.replicate 2, [], [], .top, 0, 0⟩] ++
        sampleInstruction true Program.compressedAsset sampleMint 1 ::
          [sampleInstruction true Program.compressedAsset sampleTransfer 2]) ++
      sampleInstruction true Program.noop ⟨1, [], sampleLeaf.emission⟩ 3 :: [] := by
  decide +kernel

theorem announced_sampleTransaction :
    (sampleInstruction true Program.noop ⟨1, [], sampleLeaf.emission⟩ 3).announced? .standard =
      some sampleLeaf := by
  decide +kernel

theorem changesLeaf_sampleTransaction :
    (sampleInstruction true Program.compressedAsset sampleTransfer 2).changesLeaf .standard := by
  decide +kernel

theorem leaf_of_call_tree_sample :
    ∃ event ∈ ((sampleTransaction true).scan .standard).events,
      event.leafSchema = some sampleLeaf ∧ event.kind = .mint ∧ event.ordinal = 1 ∧
      ∃ mint emission, mint.ordinal = 1 ∧ mint.ordinal < emission.ordinal ∧ LeafSource .standard
        ((sampleTransaction true).execution (.ofTransaction (sampleTransaction true))).instructions
        mint emission sampleLeaf := by
  have found : (1, EventKind.mint) ∈ ((sampleTransaction true).scan .standard).events.map
      fun event => (event.ordinal, event.kind) := by decide +kernel
  obtain ⟨event, he, same⟩ := List.mem_map.mp found
  obtain ⟨ordinal, kind⟩ := Prod.mk.inj same
  -- The third part of the theorem is what makes the transfer in between no obstacle.
  obtain ⟨behind, ahead, still⟩ := leaf_of_call_tree he
  have quiet := still _ changesLeaf_sampleTransaction
  have leaf : event.leafSchema = some sampleLeaf :=
    ahead kind _ _ sampleLeaf ordinal.symm
      ⟨⟨_, _, _, split_sampleTransaction, by simpa using quiet⟩, announced_sampleTransaction⟩
      (Or.inr rfl)
  obtain ⟨_, mint, emission, own, source, later, _⟩ := behind sampleLeaf leaf
  exact ⟨event, he, leaf, kind, ordinal, mint, emission, own.trans ordinal, later, source⟩

/-- Neither in one call tree nor at the top does a transfer keep its emission from a mint before
it. -/
theorem takesAcross_sampleTransaction :
    TakesAcross .standard (sampleTransaction true) ∧
      TakesAcross .standard (sampleTransaction false) := by
  constructor
  · refine takesAcross_of_split split_sampleTransaction announced_sampleTransaction
      changesLeaf_sampleTransaction ?_
    decide +kernel
  · refine @takesAcross_of_split [] []
      (sampleInstruction false Program.compressedAsset sampleMint 0)
      (sampleInstruction false Program.noop ⟨1, [], sampleLeaf.emission⟩ 2)
      (sampleInstruction false Program.compressedAsset sampleTransfer 1) _ _ sampleLeaf
      ?_ ?_ ?_ ?_ <;> decide +kernel

end Scan

end LeafLedger
