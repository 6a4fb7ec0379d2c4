import LeafLedger.Proofs.Sequence.Passed
import LeafLedger.Proofs.Store.MintData

namespace LeafLedger

namespace AssetRecord

/-- Whether a projection that comes too late tells the record nothing new. -/
def Knows (r : AssetRecord) (projection : Projection) : Prop :=
  r.backfill projection = r

/-- What only mints tell stays known. -/
structure Keeps (r later : AssetRecord) : Prop where
  metadata : r.metadata.isSome → later.metadata.isSome
  nonce : r.nonce.isSome → later.nonce.isSome
  treeAuthority : r.treeAuthority.isSome → later.treeAuthority.isSome

variable {r later : AssetRecord} {projection : Projection}

theorem orElse_eq_left {α : Type} {known told : Option α} (h : told.isSome → known.isSome) :
    (known <|> told) = known := by
  cases known <;> cases told <;> simp_all

/-- A mint is known once metadata, nonce and tree authority are, though they be those of another
mint. -/
theorem knows_mint_iff {owner delegate : Address} {nonce : UInt64} {metadata : Metadata}
    {treeAuthority : Option Address} :
    r.Knows (.mint owner delegate nonce metadata treeAuthority) ↔
      r.metadata.isSome ∧ r.nonce.isSome ∧ (treeAuthority.isSome → r.treeAuthority.isSome) := by
  constructor
  · intro knows
    rw [Knows] at knows
    rw [← knows]
    simp +contextual [backfill, fillMintData, fillMetadata_eq, fillTreeAuthority]
  · rintro ⟨metadata, nonce, authority⟩
    simp only [Knows, backfill, fillMintData, fillMetadata_eq, fillTreeAuthority, if_pos metadata,
      orElse_eq_left fun _ => metadata, orElse_eq_left fun _ => nonce, orElse_eq_left authority]

theorem Knows.mono (knows : r.Knows projection) (keeps : r.Keeps later) :
    later.Knows projection := by
  cases projection with
  | mint =>
    obtain ⟨metadata, nonce, treeAuthority⟩ := knows_mint_iff.mp knows
    exact knows_mint_iff.mpr ⟨keeps.metadata metadata, keeps.nonce nonce,
      fun told => keeps.treeAuthority (treeAuthority told)⟩
  | transfer | burn => rfl

theorem keeps_project (r : AssetRecord) (projection : Projection) :
    r.Keeps (r.project projection) := by
  cases projection with
  | mint =>
    constructor <;>
      simp +contextual [project, fillMintData, fillMetadata_eq, fillTreeAuthority]
  | transfer | burn => exact ⟨id, id, id⟩

theorem keeps_backfill (r : AssetRecord) (projection : Projection) :
    r.Keeps (r.backfill projection) := by
  cases projection with
  | mint =>
    constructor <;>
      simp +contextual [backfill, fillMintData, fillMetadata_eq, fillTreeAuthority]
  | transfer | burn => exact ⟨id, id, id⟩

theorem knows_project (r : AssetRecord) (projection : Projection) :
    (r.project projection).Knows projection := by
  cases projection with
  | mint =>
    refine knows_mint_iff.mpr ⟨?_, ?_, ?_⟩ <;>
      simp +contextual [project, fillMintData, fillMetadata_eq, fillTreeAuthority]
  | transfer | burn => rfl

theorem knows_backfill (r : AssetRecord) (projection : Projection) :
    (r.backfill projection).Knows projection := by
  cases projection with
  | mint =>
    refine knows_mint_iff.mpr ⟨?_, ?_, ?_⟩ <;>
      simp +contextual [backfill, fillMintData, fillMetadata_eq, fillTreeAuthority]
  | transfer | burn => rfl

theorem keeps_offer (r : AssetRecord) (event : Event) (projection : Projection) :
    r.Keeps (r.offer event projection) := by
  rcases Watermark.decide_cases r.watermark event.sequence with apply | stale | duplicate
  · rw [offer_of_apply apply]
    obtain ⟨metadata, nonce, treeAuthority⟩ :=
      keeps_project (r.fillLeafIndex event.leafIndex) projection
    exact ⟨metadata, nonce, treeAuthority⟩
  · rw [offer_of_stale stale]
    obtain ⟨metadata, nonce, treeAuthority⟩ :=
      keeps_backfill (r.fillLeafIndex event.leafIndex) projection
    exact ⟨metadata, nonce, treeAuthority⟩
  · rw [offer_of_duplicate duplicate]
    exact ⟨id, id, id⟩

/-- The record is done with an event: its place is passed, and nothing of it is left to fill in. -/
structure Absorbs (r : AssetRecord) (event : Event) (projection : Projection) : Prop where
  passed : r.watermark.Passed event.sequence
  leafIndex : event.leafIndex.isSome → r.leafIndex.isSome
  knows : r.Knows projection

variable {event : Event}

theorem Absorbs.offer_eq (absorbs : r.Absorbs event projection) :
    r.offer event projection = r := by
  have filled : r.fillLeafIndex event.leafIndex = r := by
    rw [fillLeafIndex, orElse_eq_left absorbs.leafIndex]
  rcases Watermark.decide_cases r.watermark event.sequence with apply | stale | duplicate
  · exact absurd apply absorbs.passed.decide_ne_apply
  · rw [offer_of_stale stale, filled]
    exact absorbs.knows
  · rw [offer_of_duplicate duplicate, filled]

theorem Absorbs.offer (absorbs : r.Absorbs event projection) (other : Event)
    (change : Projection) : (r.offer other change).Absorbs event projection := by
  obtain ⟨_, _, leafIndex, watermark⟩ := offer_frame r other change
  refine ⟨?_, ?_, absorbs.knows.mono (keeps_offer r other change)⟩
  · rw [watermark]
    exact absorbs.passed.offer other.sequence
  · intro told
    rw [leafIndex]
    simp [absorbs.leafIndex told]

/-- An event is absorbed when it is offered, unless later ones of its transaction were before. -/
theorem absorbs_offer (awaits : r.watermark.Awaits event.sequence) (projection : Projection) :
    (r.offer event projection).Absorbs event projection := by
  obtain ⟨_, _, leafIndex, watermark⟩ := offer_frame r event projection
  refine ⟨?_, ?_, ?_⟩
  · rw [watermark]
    exact awaits.passed_offer
  · intro told
    rw [leafIndex]
    simp [told]
  · rcases awaits.decide_cases with apply | ⟨last, hl, older⟩
    · rw [offer_of_apply apply]
      exact (knows_project _ projection).mono ⟨id, id, id⟩
    · rw [offer_of_stale (Watermark.decide_of_slot_lt hl older)]
      exact knows_backfill _ projection

end AssetRecord

namespace Ledger

/-- Setting a record that is there changes nothing. -/
theorem insert_of_get? {ledger : Ledger} {key : Address} {record : AssetRecord}
    (found : ledger.get? key = some record) : ledger.insert key record = ledger := by
  obtain ⟨entries⟩ := ledger
  simp only [insert, get?] at found ⊢
  congr 1
  induction entries with
  | nil => cases found
  | cons entry entries ih =>
    by_cases own : entry.1 = key
    · rw [List.find?_cons_of_pos (by simp [own])] at found
      rw [put, if_pos own, ← own, ← Option.some.inj found]
    · rw [List.find?_cons_of_neg (by simp [own])] at found
      rw [put, if_neg own, ih found]

/-- The ledger is done with an event, whatever asset it is about. -/
def Absorbs (ledger : Ledger) (event : Event) : Prop :=
  ∀ assetId projection, event.assetId = some assetId →
    Projection.ofEvent event = .ok projection →
    ∃ r, ledger.get? assetId = some r ∧ r.Absorbs event projection

/-- All that the ledger remembers of the transaction of an event lies before the event. -/
def Awaits (ledger : Ledger) (event : Event) : Prop :=
  ∀ assetId, (markOf (ledger.get? assetId)).Awaits event.sequence

variable {ledger : Ledger} {event other : Event}

theorem awaits_empty (event : Event) : empty.Awaits event := fun _ =>
  Watermark.awaits_empty event.sequence

/-- An event that was absorbed changes nothing when it comes again. -/
theorem Absorbs.after_eq (absorbs : ledger.Absorbs event) : ledger.after event = ledger := by
  cases ha : event.assetId with
  | none => exact after_of_no_assetId ha
  | some assetId =>
    cases hp : Projection.ofEvent event with
    | error error => exact after_of_error hp
    | ok projection =>
      obtain ⟨r, found, done⟩ := absorbs assetId projection ha hp
      rw [after_of_assetId ha hp, found, Option.getD_some, AssetRecord.hear_of_projects hp,
        done.offer_eq]
      exact insert_of_get? found

theorem Absorbs.decision?_ne_apply (absorbs : ledger.Absorbs event) :
    ledger.decision? event ≠ some .apply := by
  cases ha : event.assetId with
  | none => simp [decision?, apply, ha, Except.toOption]
  | some assetId =>
    cases hp : Projection.ofEvent event with
    | error error => simp [decision?_of_error ha hp]
    | ok projection =>
      obtain ⟨r, found, done⟩ := absorbs assetId projection ha hp
      rw [decision?_of_assetId ha hp, found]
      exact fun applied => done.passed.decide_ne_apply (Option.some.inj applied)

theorem Absorbs.after (absorbs : ledger.Absorbs event) (other : Event) :
    (ledger.after other).Absorbs event := by
  intro assetId projection ha hp
  obtain ⟨r, found, done⟩ := absorbs assetId projection ha hp
  rcases get?_after_cases ledger other assetId with same | ⟨change, offered⟩
  · exact ⟨r, same.trans found, done⟩
  · rw [found, Option.getD_some] at offered
    exact ⟨_, offered, done.offer other change⟩

/-- The first delivery of an event absorbs it. -/
theorem Awaits.absorbs_after (awaits : ledger.Awaits event) :
    (ledger.after event).Absorbs event := by
  intro assetId projection ha hp
  refine ⟨_, get?_after_of_assetId ha hp, AssetRecord.absorbs_offer ?_ projection⟩
  rw [watermark_getD]
  exact awaits assetId

theorem Awaits.after (awaits : ledger.Awaits event)
    (before : other.signature = event.signature → other.ordinal < event.ordinal) :
    (ledger.after other).Awaits event := by
  intro assetId
  rcases markOf_after_cases ledger other assetId with same | offered
  · rw [same]
    exact awaits assetId
  · rw [offered]
    exact (awaits assetId).offer before

variable {events : List Event}

theorem Absorbs.deliver (absorbs : ledger.Absorbs event) (events : List Event) :
    (ledger.deliver events).Absorbs event := by
  induction events generalizing ledger with
  | nil => exact absorbs
  | cons other events ih => exact ih (absorbs.after other)

theorem Awaits.deliver (awaits : ledger.Awaits event)
    (before : ∀ other ∈ events, other.signature = event.signature →
      other.ordinal < event.ordinal) : (ledger.deliver events).Awaits event := by
  induction events generalizing ledger with
  | nil => exact awaits
  | cons other events ih =>
    exact ih (awaits.after (before other (by simp))) fun later h => before later (by simp [h])

theorem deliver_of_absorbs (absorbs : ∀ event ∈ events, ledger.Absorbs event) :
    ledger.deliver events = ledger := by
  induction events with
  | nil => rfl
  | cons event events ih =>
    change (ledger.after event).deliver events = ledger
    rw [(absorbs event (by simp)).after_eq]
    exact ih fun later h => absorbs later (by simp [h])

/-- Events that come in the order of their ordinals are all absorbed. -/
theorem absorbs_of_mem_deliver (awaits : ∀ event ∈ events, ledger.Awaits event)
    (sorted : events.Pairwise fun a b => a.ordinal < b.ordinal) (delivered : event ∈ events) :
    (ledger.deliver events).Absorbs event := by
  obtain ⟨earlier, later, rfl⟩ := List.append_of_mem delivered
  obtain ⟨_, _, cross⟩ := List.pairwise_append.mp sorted
  have here : (ledger.deliver earlier).Awaits event :=
    (awaits event delivered).deliver fun other h _ => cross other h event (by simp)
  rw [deliver_append]
  exact here.absorbs_after.deliver later

end Ledger

end LeafLedger
