import LeafLedger.Proofs.Store.Wellformed

namespace LeafLedger

/-- An optional value that may be filled in, but does not change once it is there. -/
def Fills {α : Type} (known next : Option α) : Prop :=
  ∀ value, known = some value → next = some value

theorem fills_rfl {α : Type} {known : Option α} : Fills known known :=
  fun _ h => h

theorem fills_orElse {α : Type} (known told : Option α) : Fills known (known <|> told) := by
  rintro value rfl
  rfl

namespace AssetRecord

/-- The metadata and what is taken from them. -/
def metadataGroup (r : AssetRecord) :
    Option Metadata × Option Collection × List Creator × Option UInt16 :=
  (r.metadata, r.collection, r.creators, r.royaltyBasisPoints)

/-- The metadata are filled in as a whole, where nothing of them was known. -/
def FillsMetadata (r next : AssetRecord) : Prop :=
  r.metadataGroup = (none, none, [], none) ∨ next.metadataGroup = r.metadataGroup

/-- How the record of an asset may differ after an event of a kind was decided on. All fields that
are not set from the new record are those of the old one. -/
def Touches (decision : Decision) (kind : EventKind) (r next : AssetRecord) : Prop :=
  Fills r.leafIndex next.leafIndex ∧
  match decision, kind with
  | .apply, .mint =>
    next = { r with
      leafIndex := next.leafIndex, treeAuthority := next.treeAuthority, nonce := next.nonce
      owner := next.owner, delegate := next.delegate
      metadata := next.metadata, collection := next.collection, creators := next.creators
      royaltyBasisPoints := next.royaltyBasisPoints
      lastSequence := next.lastSequence, watermark := next.watermark } ∧
    Fills r.treeAuthority next.treeAuthority ∧ FillsMetadata r next
  | .apply, .transfer =>
    next = { r with
      leafIndex := next.leafIndex, owner := next.owner, delegate := next.delegate
      lastSequence := next.lastSequence, watermark := next.watermark }
  | .apply, .burn =>
    next = { r with
      leafIndex := next.leafIndex, burnt := next.burnt
      lastSequence := next.lastSequence, watermark := next.watermark }
  | .ignoreStale, .mint =>
    next = { r with
      leafIndex := next.leafIndex, treeAuthority := next.treeAuthority, nonce := next.nonce
      metadata := next.metadata, collection := next.collection, creators := next.creators
      royaltyBasisPoints := next.royaltyBasisPoints } ∧
    Fills r.treeAuthority next.treeAuthority ∧ Fills r.nonce next.nonce ∧ FillsMetadata r next
  | .ignoreStale, .transfer | .ignoreStale, .burn | .ignoreDuplicate, _ =>
    next = { r with leafIndex := next.leafIndex }
  | .ignoreUnidentified, _ => False

variable {r : AssetRecord} {event : Event} {projection : Projection}

/-- Only metadata bring what follows from them. -/
theorem fillsMetadata_of_coherent (coherent : r.Coherent) {next : AssetRecord}
    (same : r.metadata.isSome → next.metadataGroup = r.metadataGroup) : r.FillsMetadata next := by
  rcases coherent.mintData with unknown | ⟨metadata, nonce, treeAuthority, told⟩
  · simp only [mintData, MintData.unknown, MintData.mk.injEq] at unknown
    exact Or.inl (by simp [metadataGroup, unknown])
  · simp only [mintData, MintData.told, MintData.mk.injEq] at told
    exact Or.inr (same (by simp [told]))

/-- Of a mint in order only what was unknown is filled in, the holders and the nonce apart. -/
theorem fills_project (r : AssetRecord) (projection : Projection) :
    Fills r.treeAuthority (r.project projection).treeAuthority ∧
    (r.metadata.isSome → (r.project projection).metadataGroup = r.metadataGroup) := by
  cases projection with
  | mint owner delegate nonce metadata treeAuthority =>
    simp only [project, fillMintData, fillMetadata_eq, fillTreeAuthority]
    refine ⟨fills_orElse _ _, fun known => ?_⟩
    obtain ⟨own, hm⟩ := Option.isSome_iff_exists.mp known
    simp [metadataGroup, hm]
  | transfer | burn => exact ⟨fills_rfl, fun _ => rfl⟩

theorem fills_backfill (r : AssetRecord) (projection : Projection) :
    Fills r.treeAuthority (r.backfill projection).treeAuthority ∧
    Fills r.nonce (r.backfill projection).nonce ∧
    (r.metadata.isSome → (r.backfill projection).metadataGroup = r.metadataGroup) := by
  cases projection with
  | mint owner delegate nonce metadata treeAuthority =>
    simp only [backfill, fillMintData, fillMetadata_eq, fillTreeAuthority]
    refine ⟨fills_orElse _ _, fills_orElse _ _, fun known => ?_⟩
    obtain ⟨own, hm⟩ := Option.isSome_iff_exists.mp known
    simp [metadataGroup, hm]
  | transfer | burn => exact ⟨fills_rfl, fills_rfl, fun _ => rfl⟩

/-- What no decision overwrites. -/
theorem fills_offer (r : AssetRecord) (event : Event) (projection : Projection) :
    Fills r.leafIndex (r.offer event projection).leafIndex ∧
    Fills r.treeAuthority (r.offer event projection).treeAuthority ∧
    (r.metadata.isSome → (r.offer event projection).metadataGroup = r.metadataGroup) := by
  have leafIndex : Fills r.leafIndex (r.offer event projection).leafIndex := by
    rw [(offer_frame r event projection).2.2.1]
    exact fills_orElse _ _
  refine ⟨leafIndex, ?_⟩
  rcases Watermark.decide_cases r.watermark event.sequence with apply | stale | duplicate
  · rw [offer_of_apply apply]
    exact fills_project (r.fillLeafIndex event.leafIndex) projection
  · rw [offer_of_stale stale]
    obtain ⟨treeAuthority, -, group⟩ :=
      fills_backfill (r.fillLeafIndex event.leafIndex) projection
    exact ⟨treeAuthority, group⟩
  · rw [offer_of_duplicate duplicate]
    exact ⟨fills_rfl, fun _ => rfl⟩

/-- An event touches the record that it is offered to as its kind and the decision allow. -/
theorem touches_offer (coherent : r.Coherent)
    (projects : Projection.ofEvent event = .ok projection) :
    Touches (r.watermark.decide event.sequence) event.kind r (r.offer event projection) := by
  obtain ⟨leafIndex, treeAuthority, group⟩ := fills_offer r event projection
  have metadata := fillsMetadata_of_coherent coherent group
  refine ⟨leafIndex, ?_⟩
  rcases Watermark.decide_cases r.watermark event.sequence with apply | stale | duplicate
  · rw [offer_of_apply apply] at treeAuthority metadata ⊢
    rw [apply]
    rcases Projection.ofEvent_cases projects with
      ⟨_, _, kind, -, -, rfl⟩ | ⟨newOwner, kind, -, rfl⟩ | ⟨kind, rfl⟩
    · rw [kind]
      refine ⟨?_, treeAuthority, metadata⟩
      simp only [project, fillMintData, fillMetadata_eq]
      rfl
    · rw [kind]
      rfl
    · rw [kind]
      rfl
  · obtain ⟨-, nonce, -⟩ := fills_backfill (r.fillLeafIndex event.leafIndex) projection
    rw [offer_of_stale stale] at treeAuthority metadata ⊢
    rw [stale]
    rcases Projection.ofEvent_cases projects with
      ⟨_, _, kind, -, -, rfl⟩ | ⟨newOwner, kind, -, rfl⟩ | ⟨kind, rfl⟩
    · rw [kind]
      refine ⟨?_, treeAuthority, nonce, metadata⟩
      simp only [backfill, fillMintData, fillMetadata_eq]
      rfl
    · rw [kind]
      rfl
    · rw [kind]
      rfl
  · rw [offer_of_duplicate duplicate, duplicate]
    rfl

end AssetRecord

namespace Ledger

theorem coherent_getD {ledger : Ledger} (wellformed : ledger.Wellformed) (assetId tree : Address) :
    ((ledger.get? assetId).getD (.blank assetId tree)).Coherent := by
  cases found : ledger.get? assetId with
  | none => exact AssetRecord.coherent_blank assetId tree
  | some r => exact (wellformed.of_get? found).2.toCoherent

/-- Whatever a ledger was asked for before, an event without asset or without a projection leaves
behind the ledger that it found, with no record opened, and any other event touches the record of
its asset and no other. -/
theorem apply_frame (requests : List Request) (event : Event) :
    let ledger := empty.serveAll requests
    match event.assetId, Projection.ofEvent event with
    | none, _ => ledger.apply event = (.ok .ignoreUnidentified, ledger)
    | some _, .error error => ledger.apply event = (.error error, ledger)
    | some assetId, .ok _ =>
      ∃ decision next, ledger.apply event = (.ok decision, next) ∧
        (∀ other, other ≠ assetId → next.get? other = ledger.get? other) ∧
        ∃ r, next.get? assetId = some r ∧
          AssetRecord.Touches decision event.kind
            ((ledger.get? assetId).getD (.blank assetId event.merkleTree)) r := by
  intro ledger
  have wellformed : ledger.Wellformed := wellformed_serveAll requests
  cases ha : event.assetId with
  | none => simp [apply, ha]
  | some assetId =>
    cases hp : Projection.ofEvent event with
    | error error => simp only [apply, ha, hp]
    | ok projection =>
      let r := (ledger.get? assetId).getD (.blank assetId event.merkleTree)
      have coherent : r.Coherent := coherent_getD wellformed assetId event.merkleTree
      have applied : ledger.apply event =
          (.ok (r.watermark.decide event.sequence), ledger.after event) := by
        simp only [after, apply, ha, hp]
        rfl
      refine ⟨_, _, applied, ?_, _, get?_after_of_assetId ha hp,
        AssetRecord.touches_offer coherent hp⟩
      intro other ne
      rw [get?_after, recordAfter, if_neg]
      rintro ⟨own, -⟩
      rw [ha] at own
      exact ne (Option.some.inj own).symm

/-- A transfer that does not name the new owner fails, and its asset gets no record. -/
example :
    let event := { Lifecycle.sample .transfer with roles := ⟨[], []⟩ }
    (empty.apply event).1.isOk = false ∧ (empty.apply event).2.size = 0 := by
  decide

end Ledger

end LeafLedger
