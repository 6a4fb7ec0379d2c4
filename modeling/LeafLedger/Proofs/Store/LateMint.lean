import LeafLedger.Proofs.Sequence.Interleaving
import LeafLedger.Proofs.Sequence.Passed
import LeafLedger.Proofs.Store.Applied
import LeafLedger.Proofs.Store.ArrivalOrder

namespace LeafLedger

/-- A mint that no event of its asset precedes on the chain: their slots are no lower, and within
its own transaction its ordinal is the lowest. -/
structure MintFirst (assetId : Address) (mint : Event) (events : List Event) : Prop where
  kind : mint.kind = .mint
  mintId : mint.assetId = some assetId
  assetId : ∀ e ∈ events, e.assetId = some assetId
  only : ∀ e ∈ events, e.kind = .mint → e = mint
  slot : ∀ e ∈ events, mint.slot ≤ e.slot
  ordinal : ∀ e ∈ events, e.signature = mint.signature → mint.ordinal ≤ e.ordinal

namespace Ledger

/-- The owner and the delegate of an asset, if it has a record. -/
def holders (ledger : Ledger) (assetId : Address) : Option (Option Address × Option Address) :=
  (ledger.get? assetId).map fun r => (r.owner, r.delegate)

/-- An event that is not applied changes neither the owner nor the delegate. -/
theorem holders_after_of_not_apply {ledger : Ledger} {assetId : Address} {event : Event}
    {r : AssetRecord} (hr : ledger.get? assetId = some r) (own : event.assetId = some assetId)
    (decided : ledger.decision? event ≠ some .apply) :
    (ledger.after event).holders assetId = ledger.holders assetId := by
  cases hp : Projection.ofEvent event with
  | error error => rw [after_of_error hp]
  | ok projection =>
    rw [decision?_of_assetId own hp, hr] at decided
    rw [holders, holders, get?_after_of_assetId own hp, hr]
    rcases Watermark.decide_cases r.watermark event.sequence with apply | stale | duplicate
    · exact absurd (congrArg some apply) decided
    · obtain ⟨owner, delegate, _⟩ :=
        AssetRecord.backfill_keeps (r.fillLeafIndex event.leafIndex) projection
      simp only [Option.getD_some, AssetRecord.offer_of_stale stale, Option.map_some, owner,
        delegate]
      rfl
    · simp only [Option.getD_some, AssetRecord.offer_of_duplicate duplicate, Option.map_some]
      rfl

theorem exists_record_of_applied {events : List Event} {assetId : Address} {e : Event}
    (own : ∀ e ∈ events, e.assetId = some assetId) (he : e ∈ empty.appliedIn events) :
    ∃ r, (empty.deliver events).get? assetId = some r := by
  have faithful := faithful_deliver own
  cases hr : (empty.deliver events).get? assetId with
  | some r => exact ⟨r, rfl⟩
  | none =>
    have last := faithful.last
    obtain ⟨place, hl⟩ := @Journal.exists_last_of_mem
      ((empty.deliver events).journal assetId (empty.appliedIn events)) e.sequence
      (List.mem_map.mpr ⟨e, he, rfl⟩)
    rw [hl] at last
    simp [journal, hr, markOf, Watermark.empty] at last

/-- A mint that is first on the chain is not applied any more once an event of a higher slot was
applied, once it was applied itself, and as long as the last applied event is of its
transaction. -/
theorem decision?_of_late_mint {assetId : Address} {mint : Event} {events : List Event}
    (first : MintFirst assetId mint events)
    (late : (∃ e ∈ empty.appliedIn events, mint.slot < e.slot) ∨ mint ∈ empty.appliedIn events ∨
      ∃ last ∈ (empty.appliedIn events).getLast?, last.signature = mint.signature) :
    (empty.deliver events).decision? mint ≠ some .apply := by
  intro decided
  cases hp : Projection.ofEvent mint with
  | error error => simp [decision?_of_error first.mintId hp] at decided
  | ok projection =>
    have faithful := faithful_deliver first.assetId
    rw [decision?_of_assetId first.mintId hp] at decided
    have apply := Option.some.inj decided
    rcases late with ⟨e, he, higher⟩ | known | ⟨last, hl, same⟩
    · have stale := (faithful.decide_of_slots mint.sequence).1
        ⟨e.sequence, List.mem_map.mpr ⟨e, he, rfl⟩, higher⟩
      exact absurd (stale.symm.trans apply) (by simp)
    · exact faithful.not_mem_of_decide_apply apply (List.mem_map.mpr ⟨mint, known, rfl⟩)
    · have hm := mem_of_mem_appliedIn (List.mem_of_getLast? hl)
      have mark := last_markOf first.assetId
      rw [hl, Option.map_some] at mark
      have lower := Watermark.slot_le_of_decide_apply mark apply
      have slot : last.slot = mint.slot := UInt64.le_antisymm lower (first.slot last hm)
      have hlast := faithful.last.symm.trans mark
      have place := (faithful.positions last.signature last.ordinal).mpr
        ⟨last.sequence, hlast, List.mem_of_getLast? hlast⟩
      have less := Watermark.ordinal_lt_of_decide_apply mark place apply slot same
      exact absurd less (Nat.not_lt.mpr (first.ordinal last hm same))

/-- Within a slot a mint is taken as it arrives, if nothing of its own transaction was applied. -/
theorem decision?_of_mint_in_slot {assetId : Address} {mint : Event} {events : List Event}
    {projection : Projection} (first : MintFirst assetId mint events)
    (hp : Projection.ofEvent mint = .ok projection)
    (others : ∀ e ∈ empty.appliedIn events,
      e.slot = mint.slot ∧ e.signature ≠ mint.signature) :
    (empty.deliver events).decision? mint = some .apply := by
  have faithful := faithful_deliver first.assetId
  have mark := last_markOf first.assetId
  have behind : (markOf ((empty.deliver events).get? assetId)).Behind mint.sequence := by
    refine ⟨?_, ?_, ?_⟩
    · intro place hl
      rw [mark] at hl
      obtain ⟨last, hlast, rfl⟩ := Option.map_eq_some_iff.mp hl
      exact UInt64.le_of_eq (others last (List.mem_of_getLast? hlast)).1
    · intro place hl
      rw [mark] at hl
      obtain ⟨last, hlast, rfl⟩ := Option.map_eq_some_iff.mp hl
      exact (others last (List.mem_of_getLast? hlast)).2
    · rintro ⟨signature, ordinal⟩ known
      obtain ⟨_, _, hm⟩ := (faithful.positions signature ordinal).mp known
      obtain ⟨e, he, same⟩ := List.mem_map.mp hm
      have hs : e.signature = signature := congrArg Sequence.signature same
      exact hs ▸ (others e he).2
  rw [decision?_of_assetId first.mintId hp, Watermark.decide_of_behind behind]

theorem holders_after_of_apply {ledger : Ledger} {assetId : Address} {event : Event}
    {projection : Projection} {owner delegate : Address} (own : event.assetId = some assetId)
    (hp : Projection.ofEvent event = .ok projection)
    (hh : projection.holders? = some (owner, delegate))
    (decided : ledger.decision? event = some .apply) :
    (ledger.after event).holders assetId = some (some owner, some delegate) := by
  rw [decision?_of_assetId own hp,
    ← watermark_getD (ledger.get? assetId) assetId event.merkleTree] at decided
  have apply := Option.some.inj decided
  rw [holders, get?_after_of_assetId own hp, AssetRecord.offer_of_apply apply]
  obtain ⟨ho, hd⟩ := AssetRecord.holders_project hh
    (((ledger.get? assetId).getD (.blank assetId event.merkleTree)).fillLeafIndex event.leafIndex)
  simp only [Option.map_some, AssetRecord.advance, ho, hd]

/-- A mint that is first on the chain changes neither the owner nor the delegate when it comes after
an applied event of a higher slot, when it comes again, and when the last applied event is of its
own transaction. Transactions of one slot are taken as they arrive: if all that was applied is of
other transactions in the slot of the mint, then the mint sets the owner and the delegate. -/
theorem holders_after_late_mint {assetId : Address} {mint : Event} {events : List Event}
    (first : MintFirst assetId mint events) :
    (((∃ e ∈ empty.appliedIn events, mint.slot < e.slot) ∨ mint ∈ empty.appliedIn events ∨
        ∃ last ∈ (empty.appliedIn events).getLast?, last.signature = mint.signature) →
      ∃ r, (empty.deliver events).get? assetId = some r ∧
        ((empty.deliver events).after mint).holders assetId = some (r.owner, r.delegate)) ∧
    ((∀ e ∈ empty.appliedIn events, e.slot = mint.slot ∧ e.signature ≠ mint.signature) →
      ∀ metadata schema, mint.payload = .mint metadata → mint.leafSchema = some schema →
        ((empty.deliver events).after mint).holders assetId =
          some (some schema.owner, some schema.delegate)) := by
  constructor
  · intro late
    have applied : ∃ e, e ∈ empty.appliedIn events := by
      rcases late with ⟨e, he, _⟩ | known | ⟨last, hl, _⟩
      · exact ⟨e, he⟩
      · exact ⟨mint, known⟩
      · exact ⟨last, List.mem_of_getLast? hl⟩
    obtain ⟨e, he⟩ := applied
    obtain ⟨r, hr⟩ := exists_record_of_applied first.assetId he
    refine ⟨r, hr, ?_⟩
    rw [holders_after_of_not_apply hr first.mintId (decision?_of_late_mint first late), holders, hr]
    rfl
  · intro others metadata schema payload leaf
    have hp : Projection.ofEvent mint = .ok (.mint schema.owner schema.delegate schema.nonce
        metadata (mint.roles.get? .treeConfig)) := by
      simp only [Projection.ofEvent, first.kind, payload, leaf]
    exact holders_after_of_apply first.mintId hp rfl (decision?_of_mint_in_slot first hp others)

theorem mintFirst_sample (slot : UInt64) (h : 1 ≤ slot) :
    MintFirst (.replicate 1) (Lifecycle.sample .mint)
      [{ Lifecycle.sample .transfer with slot := slot }] := by
  constructor <;> simp [Lifecycle.sample, h, EventKind.name]

/-- A transfer of a later slot is kept by the mint that comes behind it, and one of the slot of the
mint is not. -/
theorem holders_after_late_mint_sample :
    let mint := Lifecycle.sample .mint
    let later := Lifecycle.sample .transfer
    let beside := { Lifecycle.sample .transfer with slot := 1 }
    MintFirst (.replicate 1) mint [later] ∧ MintFirst (.replicate 1) mint [beside] ∧
    ((empty.deliver [later]).after mint).holders (.replicate 1) =
      some (some (.replicate 5), some (.replicate 5)) ∧
    ((empty.deliver [beside]).after mint).holders (.replicate 1) =
      some (some (.replicate 4), some (.replicate 4)) := by
  intro mint later beside
  have first : MintFirst (.replicate 1) mint [later] := mintFirst_sample 2 (by decide)
  have within : MintFirst (.replicate 1) mint [beside] := mintFirst_sample 1 (by decide)
  refine ⟨first, within, ?_, ?_⟩
  · obtain ⟨r, hr, same⟩ := (holders_after_late_mint first).1
      (Or.inl ⟨later, by decide +kernel, by decide⟩)
    have before : (empty.deliver [later]).holders (.replicate 1) =
        some (some (.replicate 5), some (.replicate 5)) := by decide +kernel
    rw [holders, hr] at before
    exact same.trans before
  · have applied : empty.appliedIn [beside] = [beside] := by rfl
    have others : ∀ e ∈ empty.appliedIn [beside],
        e.slot = mint.slot ∧ e.signature ≠ mint.signature := by
      rw [applied]
      simp [beside, mint, Lifecycle.sample, EventKind.name]
    exact (holders_after_late_mint within).2 others _ _ rfl rfl

/-- The transfer is in the slot of the mint but in another transaction, and the mint that comes
behind it takes the asset back. -/
theorem holders_reverted_in_slot :
    let transfer := { Lifecycle.sample .transfer with slot := 1 }
    MintFirst (.replicate 1) (Lifecycle.sample .mint) [transfer] ∧
    transfer ∈ empty.appliedIn [transfer] ∧ transfer.kind = .transfer ∧
    (empty.deliver [transfer]).holders (.replicate 1) =
      some (some (.replicate 5), some (.replicate 5)) ∧
    ((empty.deliver [transfer]).after (Lifecycle.sample .mint)).holders (.replicate 1) =
      some (some (.replicate 4), some (.replicate 4)) := by
  refine ⟨mintFirst_sample 1 (by decide), ?_, rfl, ?_, ?_⟩ <;> decide +kernel

end Ledger

end LeafLedger
