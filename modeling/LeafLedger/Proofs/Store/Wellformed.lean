import LeafLedger.Proofs.Store.ArrivalOrder

namespace LeafLedger

/-- Nothing of a mint, or all that one tells. -/
def MintData.Whole (data : MintData) : Prop :=
  data = unknown ∨ ∃ metadata nonce treeAuthority, data = told metadata nonce treeAuthority

namespace AssetRecord

/-- Fields that are only set together. This holds of a blank record too. -/
structure Coherent (r : AssetRecord) : Prop where
  holders : r.owner.isSome = r.delegate.isSome
  mintData : r.mintData.Whole

/-- A record as a ledger stores it: some event was applied to it, so it has a last place, and the
asset has an owner or was burnt. -/
structure Wellformed (r : AssetRecord) : Prop extends r.Coherent where
  last : ∃ place, r.lastSequence = some place ∧ r.watermark.last = some place ∧
    (place.signature, place.ordinal) ∈ r.watermark.appliedInSlot
  traced : r.owner.isSome ∨ r.burnt

theorem coherent_blank (assetId tree : Address) : (blank assetId tree).Coherent :=
  ⟨rfl, Or.inl rfl⟩

variable {r : AssetRecord} {event : Event} {projection : Projection}

theorem Coherent.fillLeafIndex (coherent : r.Coherent) (leafIndex : Option UInt64) :
    (r.fillLeafIndex leafIndex).Coherent :=
  ⟨coherent.holders, coherent.mintData⟩

/-- A mint leaves nothing out, whether it is in order or late. The record may keep the metadata of
another mint and take the nonce or the tree authority of this one. -/
theorem whole_of_settled (whole : r.mintData.Whole) (projection : Projection) :
    (r.project projection).mintData.Whole ∧ (r.backfill projection).mintData.Whole := by
  cases hd : projection.mintData? with
  | none =>
    obtain ⟨projected, backfilled⟩ := mintData_of_no_mint hd r
    rw [projected, backfilled]
    exact ⟨whole, whole⟩
  | some data =>
    cases projection with
    | transfer | burn => cases hd
    | mint owner delegate nonce metadata treeAuthority =>
      cases hd
      -- Metadata that is known stays with what follows from it, and it came with a nonce.
      rcases whole with unknown | ⟨m, n, a, told⟩
      · exact ⟨Or.inr ⟨_, _, _, mintData_project rfl (Or.inl unknown)⟩,
          Or.inr ⟨_, _, _, mintData_backfill rfl (Or.inl unknown)⟩⟩
      · simp only [mintData, MintData.told, MintData.mk.injEq] at told
        refine ⟨Or.inr ⟨m, nonce, a <|> treeAuthority, ?_⟩,
          Or.inr ⟨m, n, a <|> treeAuthority, ?_⟩⟩ <;>
          simp [mintData, MintData.told, AssetRecord.project, AssetRecord.backfill, fillMintData,
            fillMetadata_eq, fillTreeAuthority, told]

theorem Coherent.project (coherent : r.Coherent) (projection : Projection) :
    (r.project projection).Coherent := by
  refine ⟨?_, (whole_of_settled coherent.mintData projection).1⟩
  cases hh : projection.holders? with
  | some held =>
    obtain ⟨owner, delegate⟩ := held
    obtain ⟨ho, hd⟩ := holders_project hh r
    simp [ho, hd]
  | none =>
    cases projection with
    | mint | transfer => cases hh
    | burn => exact coherent.holders

theorem Coherent.backfill (coherent : r.Coherent) (projection : Projection) :
    (r.backfill projection).Coherent := by
  refine ⟨?_, (whole_of_settled coherent.mintData projection).2⟩
  obtain ⟨owner, delegate, _⟩ := backfill_keeps r projection
  rw [owner, delegate]
  exact coherent.holders

theorem traced_project (r : AssetRecord) (projection : Projection) :
    (r.project projection).owner.isSome ∨ (r.project projection).burnt := by
  cases hh : projection.holders? with
  | some held =>
    obtain ⟨owner, delegate⟩ := held
    exact Or.inl (by simp [(holders_project hh r).1])
  | none =>
    cases projection with
    | mint | transfer => cases hh
    | burn => exact Or.inr rfl

/-- An event that is applied leaves a complete record, also the first one of an asset. -/
theorem Coherent.offer_of_apply (coherent : r.Coherent)
    (decided : r.watermark.decide event.sequence = .apply) :
    (r.offer event projection).Wellformed := by
  rw [AssetRecord.offer_of_apply decided]
  have next := (coherent.fillLeafIndex event.leafIndex).project projection
  refine ⟨⟨next.holders, next.mintData⟩, ⟨event.sequence, rfl, rfl, ?_⟩,
    traced_project (r.fillLeafIndex event.leafIndex) projection⟩
  exact (Watermark.mem_appliedInSlot_record _ event.sequence _).mpr (Or.inl rfl)

theorem Wellformed.offer (wellformed : r.Wellformed) (event : Event) (projection : Projection) :
    (r.offer event projection).Wellformed := by
  have coherent := wellformed.toCoherent.fillLeafIndex event.leafIndex
  rcases Watermark.decide_cases r.watermark event.sequence with apply | stale | duplicate
  · exact wellformed.toCoherent.offer_of_apply apply
  · rw [offer_of_stale stale]
    obtain ⟨_, _, _, mark⟩ := backfill_frame (r.fillLeafIndex event.leafIndex) projection
    obtain ⟨owner, _, burnt, last⟩ := backfill_keeps (r.fillLeafIndex event.leafIndex) projection
    refine ⟨coherent.backfill projection, ?_, ?_⟩
    · rw [mark, last]
      exact wellformed.last
    · rw [owner, burnt]
      exact wellformed.traced
  · rw [offer_of_duplicate duplicate]
    exact ⟨coherent, wellformed.last, wellformed.traced⟩

theorem Wellformed.attach (wellformed : r.Wellformed) (document : Json) :
    { r with metadataJson := some document }.Wellformed :=
  ⟨⟨wellformed.holders, wellformed.mintData⟩, wellformed.last, wellformed.traced⟩

end AssetRecord

namespace Ledger

/-- What a ledger can be asked to do. -/
inductive Request
  | apply (event : Event)
  | attach (assetId : Address) (document : Json)

/-- The ledger after a request, whatever it answered. -/
def serve (ledger : Ledger) : Request → Ledger
  | .apply event => ledger.after event
  | .attach assetId document => (ledger.attach assetId document).2

/-- The ledger after requests that were made one after the other. -/
def serveAll (ledger : Ledger) (requests : List Request) : Ledger :=
  requests.foldl serve ledger

/-- A record that is set takes the place of the one under its key. -/
theorem map_fst_put (key : Address) (record : AssetRecord)
    (entries : List (Address × AssetRecord)) :
    (put key record entries).map (·.1) =
      if key ∈ entries.map (·.1) then entries.map (·.1) else entries.map (·.1) ++ [key] := by
  induction entries with
  | nil => rfl
  | cons entry entries ih =>
    by_cases own : entry.1 = key
    · simp [put, own]
    · have other : key ≠ entry.1 := fun h => own h.symm
      rw [put, if_neg own, List.map_cons, ih]
      by_cases known : key ∈ entries.map (·.1) <;> simp [known, other]

theorem eq_or_mem_of_mem_put {key : Address} {record : AssetRecord} {entry : Address × AssetRecord}
    {entries : List (Address × AssetRecord)} (h : entry ∈ put key record entries) :
    entry = (key, record) ∨ entry ∈ entries := by
  induction entries with
  | nil => exact Or.inl (List.mem_singleton.mp h)
  | cons first rest ih =>
    rw [put] at h
    split at h
    · rcases List.mem_cons.mp h with rfl | later
      · exact Or.inl rfl
      · exact Or.inr (List.mem_cons_of_mem first later)
    · rcases List.mem_cons.mp h with rfl | later
      · exact Or.inr (by simp)
      · exact (ih later).imp_right (List.mem_cons_of_mem first)

/-- Each key has one record. It is the record of the asset with that id, and it is well-formed. -/
structure Wellformed (ledger : Ledger) : Prop where
  keys : (ledger.entries.map (·.1)).Nodup
  records : ∀ assetId r, (assetId, r) ∈ ledger.entries → r.assetId = assetId ∧ r.Wellformed

theorem wellformed_empty : empty.Wellformed :=
  ⟨List.nodup_nil, by simp [empty]⟩

variable {ledger : Ledger}

theorem Wellformed.insert (wellformed : ledger.Wellformed) {key : Address} {record : AssetRecord}
    (own : record.assetId = key) (sound : record.Wellformed) :
    (ledger.insert key record).Wellformed := by
  refine ⟨?_, ?_⟩
  · have keys := wellformed.keys
    rw [Ledger.insert, map_fst_put]
    split
    next => exact keys
    next fresh => exact List.nodup_append.mpr ⟨keys, List.nodup_singleton _, by
      rintro a known b hb rfl
      exact fresh (List.mem_singleton.mp hb ▸ known)⟩
  · intro assetId r hr
    rcases eq_or_mem_of_mem_put hr with same | kept
    · obtain ⟨rfl, rfl⟩ := Prod.mk.inj same
      exact ⟨own, sound⟩
    · exact wellformed.records assetId r kept

theorem mem_of_get? {assetId : Address} {r : AssetRecord} (h : ledger.get? assetId = some r) :
    (assetId, r) ∈ ledger.entries := by
  obtain ⟨⟨key, record⟩, found, rfl⟩ := Option.map_eq_some_iff.mp h
  obtain rfl : key = assetId := by simpa using List.find?_some found
  exact List.mem_of_find?_eq_some found

/-- A ledger finds what it has under a key, and nothing else. -/
theorem Wellformed.get?_eq_some_iff (wellformed : ledger.Wellformed) {assetId : Address}
    {r : AssetRecord} : ledger.get? assetId = some r ↔ (assetId, r) ∈ ledger.entries := by
  refine ⟨mem_of_get?, fun stored => ?_⟩
  cases h : ledger.get? assetId with
  | none =>
    have absent := List.find?_eq_none.mp (Option.map_eq_none_iff.mp h) _ stored
    exact absurd absent (by simp)
  | some found =>
    have same := List.inj_on_of_nodup_map wellformed.keys (mem_of_get? h) stored rfl
    exact congrArg some (Prod.mk.inj same).2

/-- The record that is found under an id is that of the asset, and it is well-formed. -/
theorem Wellformed.of_get? (wellformed : ledger.Wellformed) {assetId : Address} {r : AssetRecord}
    (found : ledger.get? assetId = some r) : r.assetId = assetId ∧ r.Wellformed :=
  wellformed.records assetId r (mem_of_get? found)

theorem Wellformed.after (wellformed : ledger.Wellformed) (event : Event) :
    (ledger.after event).Wellformed := by
  cases ha : event.assetId with
  | none => rwa [after_of_no_assetId ha]
  | some assetId =>
    cases hp : Projection.ofEvent event with
    | error error => rwa [after_of_error hp]
    | ok projection =>
      rw [after_of_assetId ha hp, AssetRecord.hear_of_projects hp]
      cases found : ledger.get? assetId with
      | none =>
        refine wellformed.insert (AssetRecord.offer_frame _ event projection).1 ?_
        refine (AssetRecord.coherent_blank assetId event.merkleTree).offer_of_apply ?_
        exact Watermark.decide_of_last_none rfl event.sequence
      | some r =>
        obtain ⟨own, sound⟩ := wellformed.of_get? found
        exact wellformed.insert ((AssetRecord.offer_frame r event projection).1.trans own)
          (sound.offer event projection)

theorem Wellformed.attach (wellformed : ledger.Wellformed) (assetId : Address) (document : Json) :
    (ledger.attach assetId document).2.Wellformed := by
  unfold Ledger.attach
  cases found : ledger.get? assetId with
  | none => exact wellformed
  | some r =>
    obtain ⟨own, sound⟩ := wellformed.of_get? found
    exact wellformed.insert own (sound.attach document)

theorem Wellformed.serve (wellformed : ledger.Wellformed) (request : Request) :
    (ledger.serve request).Wellformed := by
  cases request with
  | apply event => exact wellformed.after event
  | attach assetId document => exact wellformed.attach assetId document

theorem wellformed_serveAll (requests : List Request) : (empty.serveAll requests).Wellformed := by
  induction requests using List.reverseRecOn with
  | nil => exact wellformed_empty
  | append_singleton requests request ih =>
    rw [serveAll, List.foldl_append]
    exact ih.serve request

/-- Whatever a ledger was asked for, it finds exactly what it has under a key, no key has two
records, and each record is that of the asset with its key as id and is well-formed. -/
theorem stored_wellformed (requests : List Request) :
    let ledger := empty.serveAll requests
    (∀ assetId r, ledger.get? assetId = some r ↔ (assetId, r) ∈ ledger.entries) ∧
    (ledger.entries.map (·.1)).Nodup ∧
    ∀ assetId r, (assetId, r) ∈ ledger.entries → r.assetId = assetId ∧ r.Wellformed := by
  intro ledger
  have wellformed : ledger.Wellformed := wellformed_serveAll requests
  exact ⟨fun _ _ => wellformed.get?_eq_some_iff, wellformed.keys, wellformed.records⟩

/-- A transfer, a document for its asset and for an unknown one, the mint that came late, and a burn
that comes twice. -/
def sampleRequests : List Request :=
  [.apply (Lifecycle.sample .transfer), .attach (.replicate 1) (.bool true),
    .attach (.replicate 2) .null, .apply (Lifecycle.sample .mint), .apply (Lifecycle.sample .burn),
    .apply (Lifecycle.sample .burn)]

theorem stored_wellformed_sampleRequests :
    ∃ r, (empty.serveAll sampleRequests).get? (.replicate 1) = some r ∧
      r.assetId = .replicate 1 ∧ r.Wellformed ∧ r.isComplete = true ∧ r.burnt = true ∧
      r.metadataJson.isSome = true := by
  have looks : ((empty.serveAll sampleRequests).get? (.replicate 1)).map
      (fun r => (r.isComplete, r.burnt, r.metadataJson.isSome)) = some (true, true, true) := by
    decide +kernel
  obtain ⟨r, found, told⟩ := Option.map_eq_some_iff.mp looks
  obtain ⟨complete, burnt, document⟩ : r.isComplete = true ∧ r.burnt = true ∧
      r.metadataJson.isSome = true := by simpa using told
  obtain ⟨finds, -, records⟩ := stored_wellformed sampleRequests
  obtain ⟨own, wellformed⟩ := records _ r ((finds _ r).mp found)
  exact ⟨r, found, own, wellformed, complete, burnt, document⟩

end Ledger

end LeafLedger
