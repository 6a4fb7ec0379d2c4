import LeafLedger.Transaction.Execution

namespace LeafLedger

namespace KeyTable

theorem resolve_of_get? {table : KeyTable} {index : Nat} {key : Address}
    (h : table.get? index = some key) : table.resolve index = .ok key := by
  simp [resolve, h]

theorem resolve_of_get?_none {table : KeyTable} {index : Nat} (h : table.get? index = none) :
    table.resolve index = .error (.indexOutOfRange index table.size) := by
  simp [resolve, h]

end KeyTable

theorem pairwise_zipIdx {α : Type} (l : List α) (n : Nat) :
    (l.zipIdx n).Pairwise fun a b => a.2 < b.2 := by
  rw [← List.pairwise_map, List.zipIdx_map_snd]
  exact List.pairwise_lt_range'

namespace Execution

/-- An instruction of a call tree with its ordinal, in its place under a top-level position, if its
program is known. -/
def place? (table : KeyTable) (position : Nat) (entry : (Origin × RawInstruction) × Nat) :
    Option Instruction :=
  (table.get? entry.1.2.programIndex.toNat).map fun program =>
    { program
      accounts := entry.1.2.accounts
      data := entry.1.2.data
      origin := entry.1.1
      position
      ordinal := entry.2 }

theorem instructions_prepend (table : KeyTable) (signature : String) (position : Nat)
    (later : Execution) (ordinal : Nat) (tree : List (Origin × RawInstruction)) :
    (prepend table signature position later ordinal tree).instructions =
      (tree.zipIdx ordinal).filterMap (place? table position) ++ later.instructions := by
  induction tree generalizing ordinal with
  | nil => rfl
  | cons entry tree ih =>
    obtain ⟨origin, raw⟩ := entry
    cases hk : table.get? raw.programIndex.toNat with
    | none =>
      simp only [prepend, KeyTable.resolve_of_get?_none hk, ih, List.zipIdx_cons]
      rw [List.filterMap_cons_none (by simp [place?, hk])]
    | some program =>
      simp only [prepend, KeyTable.resolve_of_get? hk, ih, List.zipIdx_cons]
      rw [List.filterMap_cons_some (by simp only [place?, hk, Option.map_some]; rfl)]
      rfl

/-- The execution order of a transaction with one top-level instruction is its call tree. -/
theorem instructions_execution_singleton {tx : Transaction} {top : RawInstruction}
    (table : KeyTable) (single : tx.instructions = [top]) :
    (tx.execution table).instructions =
      (callTree tx.inner 0 top).zipIdx.filterMap (place? table 0) := by
  simp [Transaction.execution, single, ofInstructions, instructions_prepend, empty]

theorem origin_of_mem_callTree {inner : List InnerGroup} {position : Nat} {top : RawInstruction}
    {entry : Origin × RawInstruction} (h : entry ∈ callTree inner position top) :
    entry.1 = .top ∨ entry.1 = .nested position := by
  rcases List.mem_cons.mp h with rfl | h
  · exact Or.inl rfl
  · obtain ⟨group, _, h⟩ := List.mem_flatMap.mp h
    obtain ⟨raw, _, rfl⟩ := List.mem_map.mp h
    exact Or.inr rfl

theorem parent_eq_position_of_mem_ofInstructions {table : KeyTable} {signature : String}
    {inner : List InnerGroup} {position ordinal : Nat} {tops : List RawInstruction}
    {i : Instruction}
    (h : i ∈ (ofInstructions table signature inner position ordinal tops).instructions) :
    i.origin = .top ∨ i.origin = .nested i.position := by
  induction tops generalizing position ordinal with
  | nil => simp [ofInstructions, empty] at h
  | cons top tops ih =>
    rw [ofInstructions, instructions_prepend] at h
    rcases List.mem_append.mp h with h | h
    · obtain ⟨entry, he, hp⟩ := List.mem_filterMap.mp h
      obtain ⟨program, _, rfl⟩ := Option.map_eq_some_iff.mp hp
      exact origin_of_mem_callTree (List.fst_mem_of_mem_zipIdx he)
    · exact ih h

/-- A nested instruction was invoked under its own position. -/
theorem parent_eq_position {tx : Transaction} {table : KeyTable} {i : Instruction}
    (h : i ∈ (tx.execution table).instructions) :
    i.origin = .top ∨ i.origin = .nested i.position :=
  parent_eq_position_of_mem_ofInstructions h

theorem mem_filterMap_place? {table : KeyTable} {position ordinal : Nat}
    {tree : List (Origin × RawInstruction)} {i : Instruction}
    (h : i ∈ (tree.zipIdx ordinal).filterMap (place? table position)) :
    i.position = position ∧ ordinal ≤ i.ordinal ∧ i.ordinal < ordinal + tree.length := by
  obtain ⟨entry, he, hp⟩ := List.mem_filterMap.mp h
  obtain ⟨program, _, rfl⟩ := Option.map_eq_some_iff.mp hp
  exact ⟨rfl, List.le_snd_of_mem_zipIdx he, List.snd_lt_add_of_mem_zipIdx he⟩

theorem le_of_mem_ofInstructions {table : KeyTable} {signature : String}
    {inner : List InnerGroup} {position ordinal : Nat} {tops : List RawInstruction}
    {i : Instruction}
    (h : i ∈ (ofInstructions table signature inner position ordinal tops).instructions) :
    position ≤ i.position ∧ ordinal ≤ i.ordinal := by
  induction tops generalizing position ordinal with
  | nil => simp [ofInstructions, empty] at h
  | cons top tops ih =>
    rw [ofInstructions, instructions_prepend] at h
    rcases List.mem_append.mp h with h | h
    · have hp := mem_filterMap_place? h
      omega
    · have hp := ih h
      omega

theorem pairwise_ofInstructions (table : KeyTable) (signature : String) (inner : List InnerGroup)
    (position ordinal : Nat) (tops : List RawInstruction) :
    (ofInstructions table signature inner position ordinal tops).instructions.Pairwise fun a b =>
      a.ordinal < b.ordinal ∧ a.position ≤ b.position := by
  induction tops generalizing position ordinal with
  | nil => exact List.Pairwise.nil
  | cons top tops ih =>
    rw [ofInstructions, instructions_prepend]
    refine List.pairwise_append.mpr ⟨?_, ih _ _, ?_⟩
    · refine List.pairwise_filterMap.mpr ((pairwise_zipIdx _ ordinal).imp ?_)
      intro a b less i hi j hj
      obtain ⟨_, _, rfl⟩ := Option.map_eq_some_iff.mp hi
      obtain ⟨_, _, rfl⟩ := Option.map_eq_some_iff.mp hj
      exact ⟨less, Nat.le_refl _⟩
    · intro i hi j hj
      have hp := mem_filterMap_place? hi
      have hq := le_of_mem_ofInstructions hj
      omega

/-- Ordinals go up along the execution order, and top-level positions never go down. -/
theorem pairwise_instructions (tx : Transaction) (table : KeyTable) :
    (tx.execution table).instructions.Pairwise fun a b =>
      a.ordinal < b.ordinal ∧ a.position ≤ b.position :=
  pairwise_ofInstructions table tx.signature tx.inner 0 0 tx.instructions

end Execution

end LeafLedger
