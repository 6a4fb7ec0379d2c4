import LeafLedger.Proofs.Scan.Isolation
import LeafLedger.Proofs.Transaction.Numbering
import Mathlib.Data.FinEnum

namespace LeafLedger

namespace Instruction

variable {context : ScanContext} {table other : KeyTable} {i j : Instruction}

theorem SameCall.sameReach (same : i.SameCall table other j) : SameReach context i j where
  position := same.position
  origin := same.origin
  announced := by simp only [announced?, same.program, same.data]
  mint := by simp only [isMint, same.program, same.data]

theorem event?_of_sameCall {tx twin : Transaction} (frame : tx.SameCalls twin)
    (same : i.SameCall (.ofTransaction tx) (.ofTransaction twin) j) (leaf : Option LeafSchema) :
    i.event? context tx leaf = j.event? context twin leaf := by
  simp only [event?, ← same.program, ← same.data, ← same.ordinal, ← frame.slot, ← frame.signature]
  -- What is wrong with accounts beyond a table depends on the table, but no event comes of them.
  cases mine : RoleMap.resolve (Kind.ofPayload i.data) i.accounts (.ofTransaction tx)
      context.target with
  | ok roles => rw [same.accounts.resolve_eq_ok_iff.mp mine]
  | error error =>
    cases twins : RoleMap.resolve (Kind.ofPayload i.data) j.accounts (.ofTransaction twin)
        context.target with
    | ok roles => cases mine.symm.trans (same.accounts.resolve_eq_ok_iff.mpr twins)
    | error fault => rfl

end Instruction

/-- The instruction with other indexes for its program and its accounts. -/
def RawInstruction.renumber (number : UInt8 → UInt8) (raw : RawInstruction) : RawInstruction :=
  { raw with
    programIndex := number raw.programIndex
    accounts := raw.accounts.map number }

def InnerGroup.renumber (number : UInt8 → UInt8) (group : InnerGroup) : InnerGroup :=
  { group with instructions := group.instructions.map (.renumber number) }

/-- The transaction with other keys, and with other indexes to name them by. -/
def Transaction.rekey (tx : Transaction) (accountKeys : List Address) (loaded : LoadedAddresses)
    (number : UInt8 → UInt8) : Transaction :=
  { tx with
    accountKeys
    loaded
    instructions := tx.instructions.map (.renumber number)
    inner := tx.inner.map (.renumber number) }

section Renumber

variable {table other : KeyTable} {number : UInt8 → UInt8}

theorem RawInstruction.sameCall_renumber
    (kept : ∀ index, table.get? index.toNat = other.get? (number index).toNat)
    (raw : RawInstruction) : raw.SameCall table other (raw.renumber number) where
  program := kept raw.programIndex
  accounts := List.forall₂_map_right_iff.mpr (List.forall₂_same.mpr fun index _ => kept index)
  data := rfl

theorem InnerGroup.sameCalls_renumber
    (kept : ∀ index, table.get? index.toNat = other.get? (number index).toNat)
    (group : InnerGroup) : group.SameCalls table other (group.renumber number) where
  index := rfl
  instructions := List.forall₂_map_right_iff.mpr <|
    List.forall₂_same.mpr fun raw _ => raw.sameCall_renumber kept

theorem Transaction.sameCalls_rekey {tx : Transaction} {accountKeys : List Address}
    {loaded : LoadedAddresses}
    (kept : ∀ index : UInt8, (KeyTable.ofTransaction tx).get? index.toNat =
      (KeyTable.ofTransaction (tx.rekey accountKeys loaded number)).get? (number index).toNat) :
    tx.SameCalls (tx.rekey accountKeys loaded number) where
  signature := rfl
  slot := rfl
  instructions := List.forall₂_map_right_iff.mpr <|
    List.forall₂_same.mpr fun raw _ => raw.sameCall_renumber kept
  inner := List.forall₂_map_right_iff.mpr <|
    List.forall₂_same.mpr fun group _ => group.sameCalls_renumber kept

end Renumber

namespace Scan

theorem events_of_sameCalls {tx other : Transaction} (context : ScanContext)
    (same : tx.SameCalls other) : (tx.scan context).events = (other.scan context).events := by
  have all : (tx.scan context).events.filter (fun _ => true) =
      (other.scan context).events.filter (fun _ => true) := by
    rw [events_eq_eventsBefore, events_eq_eventsBefore]
    refine filter_eventsBefore_congr (same.execution.imp fun i j call => ⟨call.sameReach, ?_⟩)
    intro leaf
    rw [Instruction.event?_of_sameCall same call leaf]
  simpa using all

/-- Transactions that make the same calls of one slot and signature have the same events, whatever
indexes the calls name their programs and accounts by: any two indexes that correspond name one
address or none. So the events stay if the keys are replaced and each index is replaced by one that
names what it named before. -/
theorem events_by_address (context : ScanContext) (tx : Transaction) :
    (∀ other, tx.SameCalls other → (tx.scan context).events = (other.scan context).events) ∧
    ∀ accountKeys loaded number,
      (∀ index : UInt8, (KeyTable.ofTransaction tx).get? index.toNat =
        (KeyTable.ofTransaction (tx.rekey accountKeys loaded number)).get?
          (number index).toNat) →
      (tx.scan context).events = ((tx.rekey accountKeys loaded number).scan context).events :=
  ⟨fun _ same => events_of_sameCalls context same,
    fun _ _ _ kept => events_of_sameCalls context (Transaction.sameCalls_rekey kept)⟩

/-- The calls of `sampleTransaction true` by another table: the keys of the programs come from
lookup tables, and another key, which two indexes name, is in front of them. -/
def sampleLookup : Transaction :=
  { sampleTransaction true with
    accountKeys := [.replicate 2, .replicate 3]
    loaded := ⟨[Program.noop, .replicate 2], [Program.compressedAsset]⟩
    instructions := [⟨3, [], []⟩]
    inner := [⟨0, [
      { sampleMint with programIndex := 4, accounts := [0, 3, 0, 3, 0, 3] },
      { sampleTransfer with programIndex := 4, accounts := [3, 3, 3, 0, 0, 0] },
      ⟨2, [], sampleLeaf.emission⟩]⟩] }

theorem sameCalls_sampleLookup : (sampleTransaction true).SameCalls sampleLookup where
  signature := rfl
  slot := rfl
  instructions := .cons ⟨rfl, .nil, rfl⟩ .nil
  inner := by
    refine .cons ⟨rfl, .cons ⟨rfl, ?mint, rfl⟩ (.cons ⟨rfl, ?transfer, rfl⟩ ?emission)⟩ .nil
    case emission => exact .cons ⟨rfl, .nil, rfl⟩ .nil
    all_goals
      change List.Forall₂ _ _ _
      decide +kernel

/-- Neither lookup tables nor the reversed order of the keys change an event. -/
theorem events_by_address_sample :
    (sampleLookup.scan .standard).events = ((sampleTransaction true).scan .standard).events ∧
    (((sampleTransaction true).rekey [.replicate 2] ⟨[Program.noop], [Program.compressedAsset]⟩
      fun index => if index < 3 then 2 - index else index).scan .standard).events =
      ((sampleTransaction true).scan .standard).events ∧
    ((sampleTransaction true).scan .standard).events.map
      (fun event => (event.ordinal, event.leafSchema)) = [(1, some sampleLeaf), (2, none)] := by
  have ⟨calls, keys⟩ := events_by_address .standard (sampleTransaction true)
  exact ⟨(calls sampleLookup sameCalls_sampleLookup).symm,
    (keys _ _ _ (by decide +kernel)).symm, by decide +kernel⟩

end Scan

end LeafLedger
