import LeafLedger.Proofs.Scan.LeafSource
import LeafLedger.Proofs.Scan.Projection

namespace LeafLedger

/-- An event of a transaction whose fields agree with the transaction and with each other. -/
structure Event.Consistent (target : Address) (tx : Transaction) (event : Event) : Prop where
  slot : event.slot = tx.slot
  signature : event.signature = tx.signature
  kind : event.instruction.event? = some event.kind
  payload : event.payload.change? = some event.kind
  merkleTree : event.roles.get? .merkleTree = some event.merkleTree
  leafSchema : event.leafSchema.isSome → event.kind = .mint
  transferIndex : ∀ args, event.payload = .transfer args →
    event.leafIndex = some args.index.toUInt64
  burnIndex : ∀ args, event.payload = .burn args → event.leafIndex = some args.index.toUInt64
  mintIndex : event.kind = .mint → event.leafIndex = event.leafSchema.map (·.nonce)
  unindexed : event.leafIndex = none ↔ event.kind = .mint ∧ event.leafSchema = none
  named : event.assetId.isSome = event.leafIndex.isSome
  assetId : ∀ index, event.leafIndex = some index →
    event.assetId = some (Asset.id target event.merkleTree index)

namespace Scan

variable {context : ScanContext} {tx : Transaction} {event : Event}

theorem consistent_of_mem_events (found : event ∈ (tx.scan context).events) :
    event.Consistent context.target tx := by
  obtain ⟨i, n, _, records⟩ := exists_records_of_mem_events found
  have payload := (Payload.change?_of_ofData records.payload).trans records.kind
  have carried := records.leafSchema
  have index := records.leafIndex
  refine
    { slot := records.slot
      signature := records.signature
      kind := records.kind
      payload
      merkleTree := records.merkleTree
      leafSchema := ?_
      transferIndex := ?_
      burnIndex := ?_
      mintIndex := ?_
      unindexed := ?_
      named := ?_
      assetId := ?_ }
  · intro some
    cases hk : event.kind with
    | mint => rfl
    | transfer | burn => simp [carried, hk, EventKind.carried] at some
  · intro args hp
    rw [index, hp]
    rfl
  · intro args hp
    rw [index, hp]
    rfl
  · intro mint
    obtain ⟨metadata, hp⟩ := Payload.mint_of_ofData (mint ▸ records.kind) records.payload
    rw [index, hp]
    cases event.leafSchema <;> rfl
  · cases hp : event.payload with
    | mint metadata =>
      simp only [hp, Payload.change?, Option.some.injEq] at payload
      rw [index, hp, ← payload]
      cases event.leafSchema <;> simp [leafIndex?]
    | transfer args | burn args =>
      simp only [hp, Payload.change?, Option.some.injEq] at payload
      rw [index, hp, ← payload]
      simp [leafIndex?]
    | unsupported kind => simp [hp, Payload.change?] at payload
  · rw [records.assetId, Option.isSome_map]
  · intro place hi
    rw [records.assetId, hi]
    rfl

/-- The events of a scan stand in the order of their places. -/
theorem pairwise_sequences (context : ScanContext) (tx : Transaction) :
    (tx.scan context).events.Pairwise fun a b => a.sequence.before b.sequence := by
  refine List.Pairwise.imp_of_mem ?_ (pairwise_ordinals context tx)
  intro a b ha hb less
  simp [Sequence.before, Event.sequence, slot_of_mem_events ha, slot_of_mem_events hb,
    signature_of_mem_events ha, signature_of_mem_events hb, less]

/-- Every event of a scan agrees with its transaction and in itself, and along the events the places
go up. -/
theorem events_consistent (context : ScanContext) (tx : Transaction) :
    (∀ event ∈ (tx.scan context).events, event.Consistent context.target tx) ∧
      (tx.scan context).events.Pairwise fun a b => a.sequence.before b.sequence :=
  ⟨fun _ found => consistent_of_mem_events found, pairwise_sequences context tx⟩

/-- The mint of the sample is named by its tree and the nonce of its leaf, though the leaf was
announced with another id. -/
theorem events_consistent_sample :
    ∃ event ∈ ((sampleTransaction true).scan .standard).events,
      event.ordinal = 1 ∧ event.kind = .mint ∧ event.leafSchema = some sampleLeaf ∧
      event.assetId = some (Asset.id Program.compressedAsset event.merkleTree 9) := by
  have found : (1, some sampleLeaf) ∈ ((sampleTransaction true).scan .standard).events.map
      fun event => (event.ordinal, event.leafSchema) := by decide +kernel
  obtain ⟨event, he, same⟩ := List.mem_map.mp found
  obtain ⟨ordinal, leaf⟩ := Prod.mk.inj same
  have consistent := (events_consistent .standard (sampleTransaction true)).1 event he
  have mint := consistent.leafSchema (by simp [leaf])
  have index : event.leafIndex = some 9 := by
    rw [consistent.mintIndex mint, leaf]
    rfl
  exact ⟨event, he, ordinal, mint, leaf, consistent.assetId 9 index⟩

end Scan

end LeafLedger
