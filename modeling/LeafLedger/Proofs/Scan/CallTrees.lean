import LeafLedger.Proofs.Scan.LeafSource
import LeafLedger.Proofs.Scan.SingleCall
import LeafLedger.Proofs.Scan.Stretch

namespace LeafLedger

/-- The origin of an instruction when its call tree stands at a position. -/
def Origin.under (position : Nat) : Origin → Origin
  | top => top
  | nested _ => nested position

/-- The instruction when its call tree stands at a position and begins with an ordinal. -/
def Instruction.moved (position first : Nat) (i : Instruction) : Instruction :=
  { i with origin := i.origin.under position, position, ordinal := i.ordinal + first }

namespace Instruction

variable (position first : Nat) (i : Instruction)

@[simp] theorem position_moved : (i.moved position first).position = position :=
  rfl

@[simp] theorem announced?_moved (context : ScanContext) :
    (i.moved position first).announced? context = i.announced? context :=
  rfl

@[simp] theorem isLandmark_moved (context : ScanContext) :
    (i.moved position first).isLandmark context = i.isLandmark context :=
  rfl

end Instruction

/-- The event when its transaction has more instructions ahead. -/
def Event.later (ahead : Nat) (event : Event) : Event :=
  { event with ordinal := event.ordinal + ahead }

namespace Transaction

/-- The transaction reduced to one of its top-level instructions and what was invoked under it. -/
def only (tx : Transaction) (position : Nat) (top : RawInstruction) : Transaction :=
  { tx with
    instructions := [top]
    inner := (tx.inner.filter (·.index.toNat == position)).map fun group =>
      { group with index := 0 } }

/-- The number of instructions in the call trees ahead of a top-level position. -/
def ahead (tx : Transaction) (position : Nat) : Nat :=
  ((tx.instructions.take position).zipIdx.flatMap fun (top, p) =>
    Execution.callTree tx.inner p top).length

theorem ahead_succ {tx : Transaction} {before tops : List RawInstruction} {top : RawInstruction}
    (split : tx.instructions = before ++ top :: tops) :
    tx.ahead (before.length + 1) =
      tx.ahead before.length + (Execution.callTree tx.inner before.length top).length := by
  have front : tx.instructions.take before.length = before := by simp [split]
  have one : tx.instructions.take (before.length + 1) = before ++ [top] := by
    rw [split, List.take_append, List.take_of_length_le (by omega)]
    simp
  simp [ahead, front, one, List.zipIdx_append]

end Transaction

namespace Execution

theorem callTree_only (tx : Transaction) (position : Nat) (top : RawInstruction) :
    callTree tx.inner position top =
      (callTree (tx.only position top).inner 0 top).map (Prod.map (Origin.under position) id) := by
  have first : ((tx.only position top).inner.filter (·.index.toNat == 0)) =
      (tx.only position top).inner := by
    rw [List.filter_eq_self]
    intro group hg
    obtain ⟨_, _, rfl⟩ := List.mem_map.mp hg
    rfl
  simp only [callTree, first]
  simp [Transaction.only, List.map_flatMap, List.flatMap_map, Origin.under, Function.comp_def]

/-- A call tree in its place is the execution of the reduced transaction, moved there. -/
theorem instructions_callTree (tx : Transaction) (table : KeyTable) (position first : Nat)
    (top : RawInstruction) :
    ((callTree tx.inner position top).zipIdx first).filterMap (place? table position) =
      ((tx.only position top).execution table).instructions.map (.moved position first) := by
  have placed : ∀ entry : (Origin × RawInstruction) × Nat,
      place? table position (Prod.map (Origin.under position) id entry.1, first + entry.2) =
        (place? table 0 entry).map (.moved position first) := by
    intro entry
    simp [place?, Instruction.moved, Function.comp_def, Nat.add_comm]
  rw [instructions_execution_singleton table rfl, callTree_only, List.zipIdx_map,
    List.zipIdx_eq_map_add, List.map_filterMap, List.filterMap_map, List.filterMap_map]
  exact congrArg (List.filterMap · _) (funext placed)

/-- A top-level instruction of the execution is one of the transaction. -/
theorem exists_top_of_mem_ofInstructions {table : KeyTable} {signature : String}
    {inner : List InnerGroup} {position ordinal : Nat} {tops : List RawInstruction}
    {i : Instruction}
    (h : i ∈ (ofInstructions table signature inner position ordinal tops).instructions)
    (atTop : i.origin = .top) :
    ∃ top ∈ tops, table.get? top.programIndex.toNat = some i.program ∧ i.data = top.data := by
  induction tops generalizing position ordinal with
  | nil => simp [ofInstructions, empty] at h
  | cons top tops ih =>
    rw [ofInstructions, instructions_prepend] at h
    rcases List.mem_append.mp h with h | h
    · obtain ⟨entry, he, hp⟩ := List.mem_filterMap.mp h
      obtain ⟨program, hk, rfl⟩ := Option.map_eq_some_iff.mp hp
      rcases List.mem_cons.mp (List.fst_mem_of_mem_zipIdx he) with first | nested
      · exact ⟨top, by simp, by simpa [first] using hk, by simp [first]⟩
      · obtain ⟨group, _, hg⟩ := List.mem_flatMap.mp nested
        obtain ⟨raw, _, eq⟩ := List.mem_map.mp hg
        simp [← eq] at atTop
    · obtain ⟨other, ho, found⟩ := ih h
      exact ⟨other, List.mem_cons_of_mem top ho, found⟩

end Execution

namespace Scan

variable {context : ScanContext} {tx : Transaction}

/-- No leaf is in reach of a position if all that runs stands elsewhere and none is announced at the
top. -/
theorem leafAhead_of_foreign {position : Nat} {later : List Instruction}
    (elsewhere : ∀ i ∈ later, i.position ≠ position)
    (silent : ∀ i ∈ later, i.origin = .top → i.announced? context = none) :
    leafAhead context position later = none := by
  unfold leafAhead
  cases hf : later.find? (·.isLandmark context) with
  | none => rfl
  | some i =>
    have hi := List.mem_of_find?_eq_some hf
    by_cases top : i.origin = .top
    · simp [top, silent i hi top]
    · simp [top, elsewhere i hi]

theorem leafAhead_moved {instructions : List Instruction}
    (single : ∀ i ∈ instructions, i.position = 0) (position first : Nat) :
    leafAhead context position (instructions.map (.moved position first)) =
      leafAhead context 0 instructions := by
  unfold leafAhead
  simp only [List.find?_map, Function.comp_def, Instruction.isLandmark_moved]
  cases hf : instructions.find? (·.isLandmark context) with
  | none => rfl
  | some i => simp [single i (List.mem_of_find?_eq_some hf)]

theorem event?_moved (position first : Nat) (leaf : Option LeafSchema) (i : Instruction) :
    (i.moved position first).event? context tx leaf =
      (i.event? context tx leaf).map (.later first) := by
  simp only [Instruction.event?, Instruction.moved]
  split
  next => split <;> simp [Event.later, Function.comp_def]
  next => rfl

/-- Taken to another place, a call tree has the same events with other ordinals. -/
theorem eventsBefore_moved {instructions : List Instruction}
    (single : ∀ i ∈ instructions, i.position = 0) (position first : Nat) :
    eventsBefore context tx [] (instructions.map (.moved position first)) =
      (eventsBefore context tx [] instructions).map (.later first) := by
  induction instructions with
  | nil => rfl
  | cons i rest ih =>
    have others : ∀ j ∈ rest, j.position = 0 := fun j hj => single j (by simp [hj])
    simp only [List.map_cons, eventsBefore, List.append_nil, List.map_append, ih others,
      event?_moved, Instruction.position_moved, leafAhead_moved others, single i (by simp),
      Option.toList_map]

theorem events_of_callTree (context : ScanContext) (tx : Transaction) (position first : Nat)
    (top : RawInstruction) :
    eventsBefore context tx []
        (((Execution.callTree tx.inner position top).zipIdx first).filterMap
          (Execution.place? (.ofTransaction tx) position)) =
      ((tx.only position top).scan context).events.map (.later first) := by
  have frame : tx.SameFrame (tx.only position top) := ⟨rfl, rfl, rfl⟩
  have single : ∀ i ∈ ((tx.only position top).execution (.ofTransaction tx)).instructions,
      i.position = 0 := by
    intro i hi
    rw [Execution.instructions_execution_singleton _ rfl] at hi
    exact (Execution.mem_filterMap_place? hi).1
  rw [Execution.instructions_callTree, eventsBefore_moved single, events_eq_eventsBefore,
    eventsBefore_of_sameFrame frame, frame.table]

theorem eventsBefore_ofInstructions (before : List RawInstruction) {tops : List RawInstruction}
    (split : tx.instructions = before ++ tops)
    (silent : ∀ top ∈ tops, ∀ program, tx.programOf? top = some program →
      context.role? program = some .logWrapper →
      ∀ schema, LeafSchema.ofEmission top.data ≠ .ok (some schema)) :
    eventsBefore context tx []
        (Execution.ofInstructions (.ofTransaction tx) tx.signature tx.inner before.length
          (tx.ahead before.length) tops).instructions =
      (tops.zipIdx before.length).flatMap fun (top, position) =>
        ((tx.only position top).scan context).events.map (.later (tx.ahead position)) := by
  -- What was scanned already grows, so the induction is over any split of the instructions.
  induction tops generalizing before with
  | nil => rfl
  | cons top tops ih =>
    have split' : tx.instructions = (before ++ [top]) ++ tops := by simp [split]
    have quiet := fun other ho => silent other (List.mem_cons_of_mem top ho)
    have rest := ih (before ++ [top]) split' quiet
    rw [List.length_append, List.length_singleton, Transaction.ahead_succ split] at rest
    have unreached : ∀ i ∈ ((Execution.callTree tx.inner before.length top).zipIdx
          (tx.ahead before.length)).filterMap
          (Execution.place? (.ofTransaction tx) before.length),
        leafAhead context i.position (Execution.ofInstructions (.ofTransaction tx) tx.signature
          tx.inner (before.length + 1) (tx.ahead before.length +
            (Execution.callTree tx.inner before.length top).length) tops).instructions =
        leafAhead context i.position [] := by
      intro i hi
      rw [(Execution.mem_filterMap_place? hi).1]
      refine leafAhead_of_foreign ?_ ?_
      · intro j hj
        have := (Execution.le_of_mem_ofInstructions hj).1
        omega
      · intro j hj atTop
        obtain ⟨other, ho, hk, data⟩ := Execution.exists_top_of_mem_ofInstructions hj atTop
        refine Instruction.announced?_eq_none fun wrapper => ?_
        rw [data]
        exact quiet other ho j.program hk wrapper
    rw [Execution.ofInstructions, Execution.instructions_prepend, eventsBefore_append, rest,
      List.append_nil, eventsBefore_congr unreached, events_of_callTree, List.zipIdx_cons,
      List.flatMap_cons]

/-- Unless a leaf is announced at the top, the events of a transaction are those of its call trees,
each scanned alone, with the ordinals that they have behind the call trees ahead. -/
theorem events_of_call_trees (context : ScanContext) (tx : Transaction)
    (silent : ∀ top ∈ tx.instructions, ∀ program, tx.programOf? top = some program →
      context.role? program = some .logWrapper →
      ∀ schema, LeafSchema.ofEmission top.data ≠ .ok (some schema)) :
    (tx.scan context).events = tx.instructions.zipIdx.flatMap fun (top, position) =>
      ((tx.only position top).scan context).events.map (.later (tx.ahead position)) := by
  rw [events_eq_eventsBefore]
  exact eventsBefore_ofInstructions [] rfl silent

/-- Two calls of another program: under the first runs a mint alone, and under the second a mint
between two emissions. -/
def sampleCallTrees : Transaction :=
  { sampleTransaction true with
    instructions := [⟨2, [], []⟩, ⟨2, [], []⟩]
    inner := [⟨0, [sampleMint]⟩,
      ⟨1, [⟨1, [], sampleLeaf.emission⟩, sampleMint, ⟨1, [], sampleLeaf.emission⟩]⟩] }

/-- The emission that runs first under the second call is not taken for the mint under the first. -/
theorem events_of_call_trees_sample :
    (sampleCallTrees.scan .standard).events =
      ((sampleCallTrees.only 0 ⟨2, [], []⟩).scan .standard).events.map (.later 0) ++
        ((sampleCallTrees.only 1 ⟨2, [], []⟩).scan .standard).events.map (.later 2) ∧
    ((sampleCallTrees.scan .standard).events.map fun event => (event.ordinal, event.leafSchema)) =
      [(1, none), (4, some sampleLeaf)] := by
  have silent : ∀ top ∈ sampleCallTrees.instructions, ∀ schema,
      LeafSchema.ofEmission top.data ≠ .ok (some schema) := by
    intro top ht schema emission
    have same : top = ⟨2, [], []⟩ := by simpa [sampleCallTrees] using ht
    rw [same] at emission
    cases emission
  have first : sampleCallTrees.ahead 0 = 0 := by decide +kernel
  have second : sampleCallTrees.ahead 1 = 2 := by decide +kernel
  refine ⟨?_, by decide +kernel⟩
  rw [events_of_call_trees .standard sampleCallTrees fun top ht _ _ _ => silent top ht]
  change [(_, 0), (_, 1)].flatMap _ = _
  simp only [List.flatMap_cons, List.flatMap_nil, List.append_nil, first, second]

end Scan

end LeafLedger
