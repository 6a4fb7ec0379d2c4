import LeafLedger.Proofs.Transaction.Roles
import Mathlib.Data.List.Forall2

namespace LeafLedger

/-- Corresponding indexes name the same address, each in its own table, or name none. -/
def KeyTable.SameKeys (table other : KeyTable) : List UInt8 → List UInt8 → Prop :=
  List.Forall₂ fun index twin => table.get? index.toNat = other.get? twin.toNat

/-- Two instructions with the same data for the same program and accounts, each by its own table. -/
structure RawInstruction.SameCall (table other : KeyTable) (raw twin : RawInstruction) : Prop where
  program : table.get? raw.programIndex.toNat = other.get? twin.programIndex.toNat
  accounts : table.SameKeys other raw.accounts twin.accounts
  data : raw.data = twin.data

/-- Two groups of the same calls under the same position. -/
structure InnerGroup.SameCalls (table other : KeyTable) (group twin : InnerGroup) : Prop where
  index : group.index = twin.index
  instructions :
    List.Forall₂ (RawInstruction.SameCall table other) group.instructions twin.instructions

/-- Two transactions of the same place that make the same calls, each by its own key table. -/
structure Transaction.SameCalls (tx other : Transaction) : Prop where
  signature : tx.signature = other.signature
  slot : tx.slot = other.slot
  instructions :
    List.Forall₂ (RawInstruction.SameCall (.ofTransaction tx) (.ofTransaction other))
      tx.instructions other.instructions
  inner :
    List.Forall₂ (InnerGroup.SameCalls (.ofTransaction tx) (.ofTransaction other))
      tx.inner other.inner

/-- Two instructions of an execution order that make the same call in the same place. -/
structure Instruction.SameCall (table other : KeyTable) (i j : Instruction) : Prop where
  program : i.program = j.program
  accounts : table.SameKeys other i.accounts j.accounts
  data : i.data = j.data
  origin : i.origin = j.origin
  position : i.position = j.position
  ordinal : i.ordinal = j.ordinal

variable {table other : KeyTable}

namespace Execution

/-- Two members of call trees that make the same call in the same way. -/
structure SameEntry (table other : KeyTable) (a b : Origin × RawInstruction) : Prop where
  origin : a.1 = b.1
  call : a.2.SameCall table other b.2

theorem sameEntry_callTree {inner twins : List InnerGroup} {top twin : RawInstruction}
    (groups : List.Forall₂ (InnerGroup.SameCalls table other) inner twins)
    (call : top.SameCall table other twin) (position : Nat) :
    List.Forall₂ (SameEntry table other) (callTree inner position top)
      (callTree twins position twin) := by
  refine .cons ⟨rfl, call⟩ ?_
  induction groups with
  | nil => exact .nil
  | @cons group twin rest twins same _ ih =>
    rw [List.filter_cons, List.filter_cons, ← same.index]
    split
    · rw [List.flatMap_cons, List.flatMap_cons]
      refine List.rel_append ?_ ih
      refine List.forall₂_map_left_iff.mpr (List.forall₂_map_right_iff.mpr ?_)
      exact same.instructions.imp fun _ _ here => ⟨rfl, here⟩
    · exact ih

theorem sameCall_prepend {later latter : Execution} {tree twin : List (Origin × RawInstruction)}
    (rest : List.Forall₂ (Instruction.SameCall table other) later.instructions
      latter.instructions)
    (entries : List.Forall₂ (SameEntry table other) tree twin) (signature : String)
    (position ordinal : Nat) :
    List.Forall₂ (Instruction.SameCall table other)
      (prepend table signature position later ordinal tree).instructions
      (prepend other signature position latter ordinal twin).instructions := by
  induction entries generalizing ordinal with
  | nil => exact rest
  | @cons a b tree twin same _ ih =>
    obtain ⟨origin, raw⟩ := a
    obtain ⟨origin', raw'⟩ := b
    obtain ⟨rfl, call⟩ := same
    have known := call.program
    cases hk : table.get? raw.programIndex.toNat with
    | none =>
      rw [hk] at known
      simp only [prepend, KeyTable.resolve_of_get?_none hk,
        KeyTable.resolve_of_get?_none known.symm]
      exact ih (ordinal + 1)
    | some program =>
      rw [hk] at known
      simp only [prepend, KeyTable.resolve_of_get? hk, KeyTable.resolve_of_get? known.symm]
      exact .cons ⟨rfl, call.accounts, call.data, rfl, rfl, rfl⟩ (ih (ordinal + 1))

theorem sameCall_ofInstructions {inner twins : List InnerGroup} {tops others : List RawInstruction}
    (groups : List.Forall₂ (InnerGroup.SameCalls table other) inner twins)
    (calls : List.Forall₂ (RawInstruction.SameCall table other) tops others)
    (signature : String) (position ordinal : Nat) :
    List.Forall₂ (Instruction.SameCall table other)
      (ofInstructions table signature inner position ordinal tops).instructions
      (ofInstructions other signature twins position ordinal others).instructions := by
  induction calls generalizing position ordinal with
  | nil => exact .nil
  | @cons top twin tops others call _ ih =>
    have tree := sameEntry_callTree groups call position
    simp only [ofInstructions, tree.length_eq]
    exact sameCall_prepend (ih _ _) tree signature position ordinal

end Execution

theorem Transaction.SameCalls.execution {tx other : Transaction} (same : tx.SameCalls other) :
    List.Forall₂ (Instruction.SameCall (.ofTransaction tx) (.ofTransaction other))
      (tx.execution (.ofTransaction tx)).instructions
      (other.execution (.ofTransaction other)).instructions := by
  unfold Transaction.execution
  rw [same.signature]
  exact Execution.sameCall_ofInstructions same.inner same.instructions _ 0 0

namespace KeyTable.SameKeys

variable {indexes twins : List UInt8}

theorem map_get? (same : table.SameKeys other indexes twins) :
    indexes.map (fun index => table.get? index.toNat) =
      twins.map (fun index => other.get? index.toNat) := by
  induction same with
  | nil => rfl
  | cons here _ ih => rw [List.map_cons, List.map_cons, here, ih]

/-- The same accounts play the same roles, whatever indexes name them. -/
theorem resolve_eq_ok_iff (same : table.SameKeys other indexes twins) {kind : Kind}
    {program : Address} {roles : RoleMap} :
    RoleMap.resolve kind indexes table program = .ok roles ↔
      RoleMap.resolve kind twins other program = .ok roles := by
  simp only [RoleMap.resolve, RoleMap.assign_eq_ok_iff, same.map_get?]

end KeyTable.SameKeys

end LeafLedger
