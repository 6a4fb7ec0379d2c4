import LeafLedger.Proofs.Scan.EventOrder
import LeafLedger.Proofs.Transaction.Roles
import LeafLedger.Store.Record

namespace LeafLedger

namespace RoleMap

variable {table : KeyTable} {program : Address}

theorem roles_fill {slots : List RoleSlot} (required : ∀ slot ∈ slots, slot.optional = false)
    (keys : List Address) :
    (fill program slots keys).map (·.1) = (slots.map (·.role)).take keys.length := by
  induction slots generalizing keys with
  | nil => exact List.take_nil.symm
  | cons slot slots ih =>
    cases keys with
    | nil => rfl
    | cons key keys =>
      have kept : ¬(slot.optional ∧ key = program) := by simp [required slot]
      rw [fill_cons_of_taken kept]
      exact congrArg (slot.role :: ·) (ih (fun other ho => required other (by simp [ho])) keys)

/-- If no slot may be left out, then the accounts fill the slots from the first one on. -/
theorem roles_of_assign {slots : List RoleSlot} {indexes : List UInt8} {roles : RoleMap}
    (required : ∀ slot ∈ slots, slot.optional = false)
    (h : assign table program slots indexes = .ok roles) :
    roles.named.map (·.1) = (slots.map (·.role)).take indexes.length := by
  obtain ⟨keys, hk, rfl⟩ := assign_eq_ok_iff.mp h
  have size : indexes.length = keys.length := by simpa using congrArg List.length hk
  rw [size]
  exact roles_fill required keys

/-- The accounts of a transfer that reach the tree pass the new owner. -/
theorem newLeafOwner_of_merkleTree {indexes : List UInt8} {roles : RoleMap}
    (h : resolve .transfer indexes table program = .ok roles)
    (tree : (roles.get? .merkleTree).isSome) : (roles.get? .newLeafOwner).isSome := by
  have filled := roles_of_assign (by decide) h
  rw [isSome_get?_iff, filled] at tree ⊢
  -- The new owner is the fourth account and the tree the fifth.
  rcases Nat.lt_or_ge indexes.length 5 with few | many
  · have among := List.take_subset_take_left _ (Nat.le_of_lt_succ few) tree
    exact absurd among (by decide)
  · exact List.take_subset_take_left _ many (by decide)

end RoleMap

namespace Payload

/-- The change that a payload belongs to. One that was not read belongs to none. -/
def change? : Payload → Option EventKind
  | mint _ => some .mint
  | transfer _ => some .transfer
  | burn _ => some .burn
  | unsupported _ => none

theorem exists_args_of_map {α : Type} {read : Except Error α} {make : α → Payload}
    {payload : Payload} (h : read.map make = .ok payload) : ∃ args, payload = make args := by
  cases read with
  | error error => cases h
  | ok args => exact ⟨args, (Except.ok.inj h).symm⟩

theorem change?_of_ofData {kind : Kind} {data : Bytes} {payload : Payload}
    (h : ofData kind data = .ok payload) : payload.change? = kind.event? := by
  cases kind with
  | mintV1 | mintToCollectionV1 | transfer | burn =>
    obtain ⟨args, rfl⟩ := exists_args_of_map h
    rfl
  | _ =>
    cases h
    rfl

theorem mint_of_ofData {kind : Kind} {data : Bytes} {payload : Payload}
    (mints : kind.event? = some .mint) (h : ofData kind data = .ok payload) :
    ∃ metadata, payload = .mint metadata := by
  have change := (change?_of_ofData h).trans mints
  cases payload with
  | mint metadata => exact ⟨metadata, rfl⟩
  | _ => cases change

end Payload

theorem Kind.eq_transfer_of_event? {kind : Kind} (h : kind.event? = some .transfer) :
    kind = .transfer := by
  cases kind <;> cases h
  rfl

namespace Scan

variable {context : ScanContext} {tx : Transaction} {event : Event}

theorem slot_of_mem_events (found : event ∈ (tx.scan context).events) : event.slot = tx.slot := by
  obtain ⟨_, _, _, records⟩ := exists_records_of_mem_events found
  exact records.slot

theorem isSome_leafIndex_of_assetId (found : event ∈ (tx.scan context).events)
    (named : event.assetId.isSome) : event.leafIndex.isSome := by
  obtain ⟨_, _, _, records⟩ := exists_records_of_mem_events found
  rw [records.assetId, Option.isSome_map] at named
  exact named

/-- An event of a scan that names its asset can be projected. -/
theorem projects_of_mem_events (found : event ∈ (tx.scan context).events)
    (named : event.assetId.isSome) : ∃ projection, Projection.ofEvent event = .ok projection := by
  have indexed := isSome_leafIndex_of_assetId found named
  obtain ⟨i, n, _, records⟩ := exists_records_of_mem_events found
  cases hk : event.kind with
  | burn => exact ⟨.burn, by simp only [Projection.ofEvent, hk]⟩
  | transfer =>
    have transfer := Kind.eq_transfer_of_event? (hk ▸ records.kind)
    have roles := records.roles
    rw [transfer] at roles
    obtain ⟨newOwner, owner⟩ := Option.isSome_iff_exists.mp
      (RoleMap.newLeafOwner_of_merkleTree roles (by simp [records.merkleTree]))
    exact ⟨.transfer newOwner, by simp [Projection.ofEvent, hk, RoleMap.require, owner, Except.map]⟩
  | mint =>
    obtain ⟨metadata, payload⟩ := Payload.mint_of_ofData (hk ▸ records.kind) records.payload
    cases hs : event.leafSchema with
    | none => simp [records.leafIndex, payload, hs, leafIndex?] at indexed
    | some schema =>
      refine ⟨.mint schema.owner schema.delegate schema.nonce metadata
        (event.roles.get? .treeConfig), ?_⟩
      simp only [Projection.ofEvent, hk, payload, hs]

end Scan

end LeafLedger
