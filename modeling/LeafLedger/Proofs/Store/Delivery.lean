import LeafLedger.Store.Ledger
import LeafLedger.Proofs.Sequence.Watermark

namespace LeafLedger

namespace Projection

/-- Which events say enough, and what they change. -/
theorem ofEvent_cases {event : Event} {projection : Projection}
    (h : ofEvent event = .ok projection) :
    (∃ metadata schema, event.kind = .mint ∧ event.payload = .mint metadata ∧
      event.leafSchema = some schema ∧
      projection = .mint schema.owner schema.delegate schema.nonce metadata
        (event.roles.get? .treeConfig)) ∨
    (∃ newOwner, event.kind = .transfer ∧ event.roles.get? .newLeafOwner = some newOwner ∧
      projection = .transfer newOwner) ∨
    (event.kind = .burn ∧ projection = .burn) := by
  unfold ofEvent at h
  split at h
  next metadata schema hk hp hs =>
    cases h
    exact Or.inl ⟨metadata, schema, hk, hp, hs, rfl⟩
  next hk =>
    cases ho : event.roles.get? .newLeafOwner with
    | none => simp [RoleMap.require, ho, Except.map] at h
    | some newOwner =>
      simp only [RoleMap.require, ho, Except.map, Except.ok.injEq] at h
      exact Or.inr (Or.inl ⟨newOwner, hk, rfl, h.symm⟩)
  next hk =>
    cases h
    exact Or.inr (Or.inr ⟨hk, rfl⟩)
  next => cases h

theorem ofEvent_mint {event : Event} {projection : Projection}
    (h : ofEvent event = .ok projection) (mint : event.kind = .mint) :
    ∃ metadata schema, event.payload = .mint metadata ∧ event.leafSchema = some schema ∧
      projection = .mint schema.owner schema.delegate schema.nonce metadata
        (event.roles.get? .treeConfig) := by
  rcases ofEvent_cases h with ⟨metadata, schema, _, hp, hs, eq⟩ | ⟨_, hk, _⟩ | ⟨hk, _⟩
  · exact ⟨metadata, schema, hp, hs, eq⟩
  · simp [hk] at mint
  · simp [hk] at mint

theorem ofEvent_transfer {event : Event} {projection : Projection}
    (h : ofEvent event = .ok projection) (transfer : event.kind = .transfer) :
    ∃ newOwner, event.roles.get? .newLeafOwner = some newOwner ∧
      projection = .transfer newOwner := by
  rcases ofEvent_cases h with ⟨_, _, hk, _⟩ | ⟨newOwner, _, ho, eq⟩ | ⟨hk, _⟩
  · simp [hk] at transfer
  · exact ⟨newOwner, ho, eq⟩
  · simp [hk] at transfer

end Projection

namespace AssetRecord

/-- The record after an event with a projection was offered to it. -/
def offer (r : AssetRecord) (event : Event) (projection : Projection) : AssetRecord :=
  let filled := r.fillLeafIndex event.leafIndex
  filled.settle (filled.watermark.decide event.sequence) projection event.sequence

/-- The record after an event, which leaves it alone if it says too little. -/
def hear (r : AssetRecord) (event : Event) : AssetRecord :=
  match Projection.ofEvent event with
  | .ok projection => r.offer event projection
  | .error _ => r

theorem hear_of_projects {r : AssetRecord} {event : Event} {projection : Projection}
    (h : Projection.ofEvent event = .ok projection) : r.hear event = r.offer event projection := by
  simp [hear, h]

theorem offer_of_apply {r : AssetRecord} {event : Event} {projection : Projection}
    (h : r.watermark.decide event.sequence = .apply) :
    r.offer event projection =
      ((r.fillLeafIndex event.leafIndex).project projection).advance event.sequence := by
  simp [offer, fillLeafIndex, h, settle]

theorem offer_of_stale {r : AssetRecord} {event : Event} {projection : Projection}
    (h : r.watermark.decide event.sequence = .ignoreStale) :
    r.offer event projection = (r.fillLeafIndex event.leafIndex).backfill projection := by
  simp [offer, fillLeafIndex, h, settle]

theorem offer_of_duplicate {r : AssetRecord} {event : Event} {projection : Projection}
    (h : r.watermark.decide event.sequence = .ignoreDuplicate) :
    r.offer event projection = r.fillLeafIndex event.leafIndex := by
  simp [offer, fillLeafIndex, h, settle]

theorem fillMetadata_eq (r : AssetRecord) (metadata : Metadata) :
    r.fillMetadata metadata =
      { r with
        metadata := r.metadata <|> some metadata
        collection := if r.metadata.isSome then r.collection else metadata.collection
        creators := if r.metadata.isSome then r.creators else metadata.creators
        royaltyBasisPoints :=
          if r.metadata.isSome then r.royaltyBasisPoints
          else some metadata.sellerFeeBasisPoints } := by
  cases r with
  | mk assetId merkleTree treeAuthority leafIndex nonce owner delegate burnt metadata =>
    cases metadata <;> rfl

/-- A projection leaves alone what only the ledger and the sequencing write. -/
@[simp] theorem project_frame (r : AssetRecord) (projection : Projection) :
    (r.project projection).assetId = r.assetId ∧
    (r.project projection).merkleTree = r.merkleTree ∧
    (r.project projection).leafIndex = r.leafIndex ∧
    (r.project projection).watermark = r.watermark := by
  cases projection <;> simp [project, fillMintData, fillMetadata_eq, fillTreeAuthority]

@[simp] theorem backfill_frame (r : AssetRecord) (projection : Projection) :
    (r.backfill projection).assetId = r.assetId ∧
    (r.backfill projection).merkleTree = r.merkleTree ∧
    (r.backfill projection).leafIndex = r.leafIndex ∧
    (r.backfill projection).watermark = r.watermark := by
  cases projection <;> simp [backfill, fillMintData, fillMetadata_eq, fillTreeAuthority]

theorem offer_frame (r : AssetRecord) (event : Event) (projection : Projection) :
    (r.offer event projection).assetId = r.assetId ∧
    (r.offer event projection).merkleTree = r.merkleTree ∧
    (r.offer event projection).leafIndex = (r.leafIndex <|> event.leafIndex) ∧
    (r.offer event projection).watermark = (r.watermark.offer event.sequence).2 := by
  rcases Watermark.decide_cases r.watermark event.sequence with h | h | h
  · simp [offer_of_apply h, advance, fillLeafIndex, Watermark.offer, h]
  · simp [offer_of_stale h, fillLeafIndex, Watermark.offer, h]
  · simp [offer_of_duplicate h, fillLeafIndex, Watermark.offer, h]

end AssetRecord

namespace Ledger

/-- The ledger after an event was handed to it, whatever it answered. -/
def after (ledger : Ledger) (event : Event) : Ledger :=
  (ledger.apply event).2

/-- The ledger after events were handed to it one after the other. -/
def deliver (ledger : Ledger) (events : List Event) : Ledger :=
  events.foldl after ledger

theorem deliver_append (ledger : Ledger) (earlier later : List Event) :
    ledger.deliver (earlier ++ later) = (ledger.deliver earlier).deliver later :=
  List.foldl_append

theorem deliver_concat (ledger : Ledger) (events : List Event) (event : Event) :
    ledger.deliver (events ++ [event]) = (ledger.deliver events).after event :=
  ledger.deliver_append events [event]

/-- What an event makes of the record of an asset, if it opens or changes it. -/
def recordAfter (assetId : Address) (found : Option AssetRecord) (event : Event) :
    Option AssetRecord :=
  if event.assetId = some assetId ∧ (Projection.ofEvent event).isOk then
    some ((found.getD (.blank assetId event.merkleTree)).hear event)
  else found

/-- The watermark of a record that may not be open yet. -/
def markOf (found : Option AssetRecord) : Watermark :=
  (found.map (·.watermark)).getD .empty

/-- What a ledger decides on an event, unless the event says too little. -/
def decision? (ledger : Ledger) (event : Event) : Option Decision :=
  (ledger.apply event).1.toOption

theorem watermark_getD (found : Option AssetRecord) (assetId tree : Address) :
    (found.getD (.blank assetId tree)).watermark = markOf found := by
  cases found <;> rfl

theorem after_of_no_assetId {ledger : Ledger} {event : Event} (h : event.assetId = none) :
    ledger.after event = ledger := by
  simp [after, apply, h]

theorem after_of_assetId {ledger : Ledger} {event : Event} {assetId : Address}
    {projection : Projection} (ha : event.assetId = some assetId)
    (hp : Projection.ofEvent event = .ok projection) :
    ledger.after event = ledger.insert assetId
      (((ledger.get? assetId).getD (.blank assetId event.merkleTree)).hear event) := by
  simp only [after, apply, ha, hp, AssetRecord.hear]
  rfl

theorem after_of_error {ledger : Ledger} {event : Event} {error : Error}
    (hp : Projection.ofEvent event = .error error) : ledger.after event = ledger := by
  cases ha : event.assetId with
  | none => exact after_of_no_assetId ha
  | some assetId =>
    simp only [after, apply, ha, hp]

/-- An event changes the record of its own asset and no other. -/
theorem get?_after (ledger : Ledger) (event : Event) (assetId : Address) :
    (ledger.after event).get? assetId = recordAfter assetId (ledger.get? assetId) event := by
  cases hp : Projection.ofEvent event with
  | error error => simp [after_of_error hp, recordAfter, hp, Except.isOk, Except.toBool]
  | ok projection =>
    cases ha : event.assetId with
    | none => simp [after_of_no_assetId ha, recordAfter, ha]
    | some own =>
      rw [after_of_assetId ha hp, get?_insert]
      by_cases same : own = assetId
      · subst same
        simp [recordAfter, ha, hp, Except.isOk, Except.toBool]
      · simp [recordAfter, ha, same]

theorem get?_after_of_assetId {ledger : Ledger} {event : Event} {assetId : Address}
    {projection : Projection} (ha : event.assetId = some assetId)
    (hp : Projection.ofEvent event = .ok projection) :
    (ledger.after event).get? assetId =
      some (((ledger.get? assetId).getD (.blank assetId event.merkleTree)).offer event
        projection) := by
  rw [get?_after, recordAfter, if_pos ⟨ha, by rw [hp]; rfl⟩, AssetRecord.hear_of_projects hp]

/-- An event leaves a record as it was, or it is offered to the record. -/
theorem get?_after_cases (ledger : Ledger) (event : Event) (assetId : Address) :
    (ledger.after event).get? assetId = ledger.get? assetId ∨
    ∃ projection, (ledger.after event).get? assetId =
      some (((ledger.get? assetId).getD (.blank assetId event.merkleTree)).offer event
        projection) := by
  cases hp : Projection.ofEvent event with
  | error error => exact Or.inl (by rw [after_of_error hp])
  | ok projection =>
    by_cases own : event.assetId = some assetId
    · exact Or.inr ⟨projection, get?_after_of_assetId own hp⟩
    · refine Or.inl ?_
      rw [get?_after, recordAfter, if_neg fun h => own h.1]

theorem decision?_of_assetId {ledger : Ledger} {event : Event} {assetId : Address}
    {projection : Projection} (ha : event.assetId = some assetId)
    (hp : Projection.ofEvent event = .ok projection) :
    ledger.decision? event = some ((markOf (ledger.get? assetId)).decide event.sequence) := by
  rw [← watermark_getD (ledger.get? assetId) assetId event.merkleTree]
  simp only [decision?, apply, ha, hp]
  rfl

theorem decision?_of_error {ledger : Ledger} {event : Event} {assetId : Address} {error : Error}
    (ha : event.assetId = some assetId) (hp : Projection.ofEvent event = .error error) :
    ledger.decision? event = none := by
  simp only [decision?, apply, ha, hp]
  rfl

theorem markOf_after {ledger : Ledger} {event : Event} {assetId : Address}
    {projection : Projection} (ha : event.assetId = some assetId)
    (hp : Projection.ofEvent event = .ok projection) :
    markOf ((ledger.after event).get? assetId) =
      ((markOf (ledger.get? assetId)).offer event.sequence).2 := by
  rw [get?_after_of_assetId ha hp, ← watermark_getD (ledger.get? assetId) assetId event.merkleTree]
  exact (AssetRecord.offer_frame _ event projection).2.2.2

/-- An event leaves the watermark of an asset as it was, or its place is offered to it. -/
theorem markOf_after_cases (ledger : Ledger) (event : Event) (assetId : Address) :
    markOf ((ledger.after event).get? assetId) = markOf (ledger.get? assetId) ∨
    markOf ((ledger.after event).get? assetId) =
      ((markOf (ledger.get? assetId)).offer event.sequence).2 := by
  rcases get?_after_cases ledger event assetId with same | ⟨change, offered⟩
  · exact Or.inl (by rw [same])
  · obtain ⟨_, _, _, watermark⟩ := AssetRecord.offer_frame
      ((ledger.get? assetId).getD (.blank assetId event.merkleTree)) event change
    rw [watermark_getD] at watermark
    exact Or.inr (by rw [offered, markOf, Option.map_some, Option.getD_some, watermark])

/-- A run of the ledger, seen from one asset, is a fold over the events. -/
theorem get?_deliver (ledger : Ledger) (events : List Event) (assetId : Address) :
    (ledger.deliver events).get? assetId =
      events.foldl (recordAfter assetId) (ledger.get? assetId) := by
  induction events generalizing ledger with
  | nil => rfl
  | cons event events ih =>
    change ((ledger.after event).deliver events).get? assetId = _
    rw [ih, get?_after]
    rfl

end Ledger

end LeafLedger
