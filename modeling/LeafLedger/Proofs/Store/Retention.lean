import LeafLedger.Proofs.Store.Absorbed
import LeafLedger.Proofs.Store.Frame

namespace LeafLedger

namespace AssetRecord

/-- A later record of an asset against an earlier one. Owner, delegate and nonce may change, though
not back to nothing; the place may only move on to a slot that is no lower. -/
structure Retains (r next : AssetRecord) : Prop where
  assetId : next.assetId = r.assetId
  merkleTree : next.merkleTree = r.merkleTree
  leafIndex : Fills r.leafIndex next.leafIndex
  treeAuthority : Fills r.treeAuthority next.treeAuthority
  metadata : r.metadata.isSome → next.metadataGroup = r.metadataGroup
  burnt : r.burnt → next.burnt
  owner : r.owner.isSome → next.owner.isSome
  delegate : r.delegate.isSome → next.delegate.isSome
  nonce : r.nonce.isSome → next.nonce.isSome
  slot : ∀ place, r.lastSequence = some place →
    ∃ later, next.lastSequence = some later ∧ place.slot ≤ later.slot

variable {r next last : AssetRecord}

theorem Retains.refl (r : AssetRecord) : r.Retains r where
  assetId := rfl
  merkleTree := rfl
  leafIndex := fills_rfl
  treeAuthority := fills_rfl
  metadata := fun _ => rfl
  burnt := id
  owner := id
  delegate := id
  nonce := id
  slot := fun place h => ⟨place, h, UInt64.le_refl _⟩

theorem Retains.trans (first : r.Retains next) (second : next.Retains last) : r.Retains last where
  assetId := second.assetId.trans first.assetId
  merkleTree := second.merkleTree.trans first.merkleTree
  leafIndex := fun value h => second.leafIndex value (first.leafIndex value h)
  treeAuthority := fun value h => second.treeAuthority value (first.treeAuthority value h)
  metadata := by
    intro known
    have same := first.metadata known
    have metadata : next.metadata = r.metadata := congrArg Prod.fst same
    exact (second.metadata (metadata ▸ known)).trans same
  burnt := second.burnt ∘ first.burnt
  owner := second.owner ∘ first.owner
  delegate := second.delegate ∘ first.delegate
  nonce := second.nonce ∘ first.nonce
  slot := by
    intro place h
    obtain ⟨middle, hm, lower⟩ := first.slot place h
    obtain ⟨later, hl, upper⟩ := second.slot middle hm
    exact ⟨later, hl, UInt64.le_trans lower upper⟩

theorem retains_document (r : AssetRecord) (document : Json) :
    r.Retains { r with metadataJson := some document } :=
  { Retains.refl r with }

theorem isSome_holders_project (r : AssetRecord) (projection : Projection) :
    (r.owner.isSome → (r.project projection).owner.isSome) ∧
    (r.delegate.isSome → (r.project projection).delegate.isSome) := by
  cases hh : projection.holders? with
  | some held =>
    obtain ⟨owner, delegate⟩ := holders_project hh r
    simp [owner, delegate]
  | none =>
    cases projection with
    | mint | transfer => cases hh
    | burn => exact ⟨id, id⟩

/-- No event brings a document. -/
theorem metadataJson_offer (r : AssetRecord) (event : Event) (projection : Projection) :
    (r.offer event projection).metadataJson = r.metadataJson := by
  rcases Watermark.decide_cases r.watermark event.sequence with apply | stale | duplicate
  · rw [offer_of_apply apply]
    cases projection <;>
      simp [advance, project, fillLeafIndex, fillMintData, fillMetadata_eq, fillTreeAuthority]
  · rw [offer_of_stale stale]
    cases projection <;>
      simp [backfill, fillLeafIndex, fillMintData, fillMetadata_eq, fillTreeAuthority]
  · rw [offer_of_duplicate duplicate]
    rfl

/-- Only an applied event moves the last place, and it is not applied below the slot of that. -/
theorem slot_offer (marked : r.lastSequence = r.watermark.last) (event : Event)
    (projection : Projection) (place : Sequence) (h : r.lastSequence = some place) :
    ∃ later, (r.offer event projection).lastSequence = some later ∧ place.slot ≤ later.slot := by
  rcases Watermark.decide_cases r.watermark event.sequence with apply | stale | duplicate
  · rw [offer_of_apply apply]
    exact ⟨event.sequence, rfl, Watermark.slot_le_of_decide_apply (marked ▸ h) apply⟩
  · rw [offer_of_stale stale]
    obtain ⟨_, _, _, kept⟩ := backfill_keeps (r.fillLeafIndex event.leafIndex) projection
    exact ⟨place, kept.trans h, UInt64.le_refl _⟩
  · rw [offer_of_duplicate duplicate]
    exact ⟨place, h, UInt64.le_refl _⟩

/-- No decision unburns an asset or leaves it without the holders that it had. -/
theorem held_offer (r : AssetRecord) (event : Event) (projection : Projection) :
    (r.burnt → (r.offer event projection).burnt) ∧
    (r.owner.isSome → (r.offer event projection).owner.isSome) ∧
    (r.delegate.isSome → (r.offer event projection).delegate.isSome) := by
  rcases Watermark.decide_cases r.watermark event.sequence with apply | stale | duplicate
  · rw [offer_of_apply apply]
    have burnt := burnt_project (r.fillLeafIndex event.leafIndex) projection
    exact ⟨fun h => burnt.mpr (Or.inl h),
      isSome_holders_project (r.fillLeafIndex event.leafIndex) projection⟩
  · rw [offer_of_stale stale]
    obtain ⟨owner, delegate, burnt, _⟩ :=
      backfill_keeps (r.fillLeafIndex event.leafIndex) projection
    rw [owner, delegate, burnt]
    exact ⟨id, id, id⟩
  · rw [offer_of_duplicate duplicate]
    exact ⟨id, id, id⟩

theorem retains_offer (marked : r.lastSequence = r.watermark.last) (event : Event)
    (projection : Projection) : r.Retains (r.offer event projection) := by
  obtain ⟨assetId, merkleTree, -, -⟩ := offer_frame r event projection
  obtain ⟨leafIndex, treeAuthority, metadata⟩ := fills_offer r event projection
  obtain ⟨burnt, owner, delegate⟩ := held_offer r event projection
  have nonce := (keeps_offer r event projection).nonce
  exact ⟨assetId, merkleTree, leafIndex, treeAuthority, metadata, burnt, owner, delegate, nonce,
    slot_offer marked event projection⟩

theorem Wellformed.lastSequence_eq (wellformed : r.Wellformed) :
    r.lastSequence = r.watermark.last := by
  obtain ⟨place, hl, hm, _⟩ := wellformed.last
  rw [hl, hm]

end AssetRecord

namespace Ledger

/-- The document that a request brings for an asset. -/
def Request.document? (assetId : Address) : Request → Option Json
  | .apply _ => none
  | .attach id document => if id = assetId then some document else none

variable {ledger : Ledger} {assetId : Address} {r : AssetRecord}

theorem retains_after (wellformed : ledger.Wellformed) (found : ledger.get? assetId = some r)
    (event : Event) :
    ∃ next, (ledger.after event).get? assetId = some next ∧ r.Retains next ∧
      next.metadataJson = r.metadataJson := by
  rcases get?_after_cases ledger event assetId with same | ⟨projection, offered⟩
  · exact ⟨r, same.trans found, .refl r, rfl⟩
  · rw [found, Option.getD_some] at offered
    have marked := (wellformed.of_get? found).2.lastSequence_eq
    exact ⟨_, offered, AssetRecord.retains_offer marked event projection,
      AssetRecord.metadataJson_offer r event projection⟩

theorem retains_attach (found : ledger.get? assetId = some r) (id : Address) (document : Json) :
    ∃ next, (ledger.attach id document).2.get? assetId = some next ∧ r.Retains next ∧
      next.metadataJson = if id = assetId then some document else r.metadataJson := by
  by_cases own : id = assetId
  · subst own
    simp only [attach, found, get?_insert, if_pos]
    exact ⟨_, rfl, AssetRecord.retains_document r document, rfl⟩
  · have other : (ledger.attach id document).2.get? assetId = some r := by
      unfold attach
      cases known : ledger.get? id with
      | none => exact found
      | some record =>
        simp only [get?_insert, if_neg own]
        exact found
    rw [if_neg own]
    exact ⟨r, other, .refl r, rfl⟩

theorem retains_serve (wellformed : ledger.Wellformed) (found : ledger.get? assetId = some r)
    (request : Request) :
    ∃ next, (ledger.serve request).get? assetId = some next ∧ r.Retains next ∧
      next.metadataJson = (request.document? assetId <|> r.metadataJson) := by
  cases request with
  | apply event => exact retains_after wellformed found event
  | attach id document =>
    obtain ⟨next, stored, retains, told⟩ := retains_attach found id document
    refine ⟨next, stored, retains, told.trans ?_⟩
    by_cases own : id = assetId <;> simp [Request.document?, own]

/-- A record that a ledger has after some requests is still there after any more of them. It retains
what it told, and its document is the last one that was attached to its asset since, or the one it
had if there was none. -/
theorem get?_serveAll_append (requests more : List Request)
    (found : (empty.serveAll requests).get? assetId = some r) :
    ∃ next, (empty.serveAll (requests ++ more)).get? assetId = some next ∧ r.Retains next ∧
      next.metadataJson =
        ((more.filterMap (·.document? assetId)).getLast? <|> r.metadataJson) := by
  induction more using List.reverseRecOn with
  | nil =>
    rw [List.append_nil]
    exact ⟨r, found, .refl r, rfl⟩
  | append_singleton more request ih =>
    obtain ⟨middle, stored, before, told⟩ := ih
    have wellformed := wellformed_serveAll (requests ++ more)
    obtain ⟨next, served, after, document⟩ := retains_serve wellformed stored request
    refine ⟨next, ?_, before.trans after, ?_⟩
    · rw [← List.append_assoc, serveAll, List.foldl_append]
      exact served
    · rw [document, told, List.filterMap_append, List.getLast?_append]
      cases hd : request.document? assetId <;> simp [hd]

/-- A late mint is not taken back by a burn, nor is the document that came before it. -/
theorem get?_serveAll_append_sampleRequests :
    ∃ r next, (empty.serveAll (sampleRequests.take 4)).get? (.replicate 1) = some r ∧
      (empty.serveAll sampleRequests).get? (.replicate 1) = some next ∧ r.Retains next ∧
      r.metadata.isSome = true ∧ r.burnt = false ∧ next.burnt = true ∧
      next.metadataJson = r.metadataJson := by
  have looks : ((empty.serveAll (sampleRequests.take 4)).get? (.replicate 1)).map
      (fun r => (r.metadata.isSome, r.burnt)) = some (true, false) := by
    decide +kernel
  obtain ⟨r, found, told⟩ := Option.map_eq_some_iff.mp looks
  obtain ⟨metadata, burnt⟩ : r.metadata.isSome = true ∧ r.burnt = false := by simpa using told
  obtain ⟨next, stored, retains, document⟩ :=
    get?_serveAll_append (sampleRequests.take 4) (sampleRequests.drop 4) found
  rw [List.take_append_drop] at stored
  have after : ((empty.serveAll sampleRequests).get? (.replicate 1)).map (·.burnt) = some true := by
    decide +kernel
  rw [stored, Option.map_some] at after
  exact ⟨r, next, found, stored, retains, metadata, burnt, Option.some.inj after, document⟩

end Ledger

end LeafLedger
