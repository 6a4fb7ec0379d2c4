import LeafLedger.Proofs.Sequence.Latest
import LeafLedger.Proofs.Store.MintData
import Mathlib.Data.Finset.Dedup
import Mathlib.Data.Finset.Basic

namespace LeafLedger

/-- Events of one asset, whose slots hold one transaction each. No event comes after its burn. -/
structure Lifecycle (events : Finset Event) (assetId tree : Address) (leafIndex : UInt64) :
    Prop where
  assetId : ∀ e ∈ events, e.assetId = some assetId
  projects : ∀ e ∈ events, ∃ projection, Projection.ofEvent e = .ok projection
  tree : ∀ e ∈ events, e.merkleTree = tree
  leafIndex : ∀ e ∈ events, e.leafIndex = some leafIndex
  signers : ∀ a ∈ events, ∀ b ∈ events, a.slot = b.slot → a.signature = b.signature
  places : ∀ a ∈ events, ∀ b ∈ events, a.sequence = b.sequence → a = b
  mints : ∀ a ∈ events, ∀ b ∈ events, a.kind = .mint → b.kind = .mint → a = b
  burns : ∀ a ∈ events, a.kind = .burn → ∀ b ∈ events, b.sequence.upTo a.sequence

/-- Slots of arrived events belong to one transaction each. -/
theorem Lifecycle.sequence_signers {events : Finset Event} {assetId tree : Address}
    {leafIndex : UInt64} (life : Lifecycle events assetId tree leafIndex) {arrived : List Event}
    (within : ∀ a ∈ arrived, a ∈ events) :
    ∀ a ∈ arrived.map (·.sequence), ∀ b ∈ arrived.map (·.sequence),
      a.slot = b.slot → a.signature = b.signature := by
  intro a ha b hb
  obtain ⟨x, hx, rfl⟩ := List.mem_map.mp ha
  obtain ⟨y, hy, rfl⟩ := List.mem_map.mp hb
  exact life.signers x (within x hx) y (within y hy)

/-- The record shows what arrived: the last place is that of the journal, and the fields are those
of the mint, of the burn and of the event at the last place. -/
structure AssetRecord.Shows (r : AssetRecord) (arrived : List Event) : Prop where
  watermark : r.watermark = (Journal.run (arrived.map (·.sequence))).mark
  last : r.lastSequence = r.watermark.last
  burnt : r.burnt = true ↔ ∃ e ∈ arrived, e.kind = .burn
  unminted : (∀ e ∈ arrived, e.kind ≠ .mint) → r.mintData = .unknown
  minted : ∀ e ∈ arrived, ∀ projection, Projection.ofEvent e = .ok projection →
    ∀ data, projection.mintData? = some data → r.mintData = data
  holders : ∀ e ∈ arrived, r.lastSequence = some e.sequence →
    ∀ projection, Projection.ofEvent e = .ok projection →
    ∀ owner delegate, projection.holders? = some (owner, delegate) →
      r.owner = some owner ∧ r.delegate = some delegate

namespace AssetRecord.Shows

theorem blank (assetId tree : Address) : (AssetRecord.blank assetId tree).Shows [] where
  watermark := rfl
  last := rfl
  burnt := by simp [AssetRecord.blank]
  unminted := fun _ => rfl
  minted := by simp
  holders := by simp

variable {events : Finset Event} {assetId tree : Address} {leafIndex : UInt64}
variable {r : AssetRecord} {arrived : List Event} {e : Event} {projection : Projection}

theorem mem_of_mem_concat (within : ∀ a ∈ arrived, a ∈ events) (he : e ∈ events) {a : Event}
    (ha : a ∈ arrived ++ [e]) : a ∈ events := by
  rcases List.mem_append.mp ha with ha | ha
  · exact within a ha
  · rw [List.mem_singleton.mp ha]
    exact he

/-- Before a mint the record has seen no other one. -/
theorem mintData_of_mint (life : Lifecycle events assetId tree leafIndex)
    (within : ∀ a ∈ arrived, a ∈ events) (he : e ∈ events) (shows : r.Shows arrived)
    (hp : Projection.ofEvent e = .ok projection) {data : MintData}
    (hd : projection.mintData? = some data) : r.mintData = .unknown ∨ r.mintData = data := by
  have mint := Projection.kind_of_mintData? hp hd
  by_cases seen : e ∈ arrived
  · exact Or.inr (shows.minted e seen projection hp data hd)
  · left
    apply shows.unminted
    intro a ha hk
    have same := life.mints a (within a ha) e he hk mint
    rw [same] at ha
    exact seen ha

/-- The mint data after one more event, if the event was applied or filled in. -/
theorem minted_concat {next : AssetRecord} (life : Lifecycle events assetId tree leafIndex)
    (within : ∀ a ∈ arrived, a ∈ events) (he : e ∈ events) (shows : r.Shows arrived)
    (hp : Projection.ofEvent e = .ok projection)
    (kept : projection.mintData? = none → next.mintData = r.mintData)
    (taken : ∀ data, projection.mintData? = some data → next.mintData = data) :
    ∀ a ∈ arrived ++ [e], ∀ p, Projection.ofEvent a = .ok p →
      ∀ data, p.mintData? = some data → next.mintData = data := by
  intro a ha p hpa data hd
  cases hm : projection.mintData? with
  | some own =>
    have mint := Projection.kind_of_mintData? hpa hd
    have all := mem_of_mem_concat within he ha
    have same := life.mints a all e he mint (Projection.kind_of_mintData? hp hm)
    subst same
    rw [hp] at hpa
    cases hpa
    exact taken data hd
  | none =>
    rw [kept hm]
    rcases List.mem_append.mp ha with ha | ha
    · exact shows.minted a ha p hpa data hd
    · rw [List.mem_singleton.mp ha, hp] at hpa
      cases hpa
      rw [hm] at hd
      cases hd

theorem unminted_concat {next : AssetRecord} (shows : r.Shows arrived)
    (hp : Projection.ofEvent e = .ok projection)
    (kept : projection.mintData? = none → next.mintData = r.mintData) :
    (∀ a ∈ arrived ++ [e], a.kind ≠ .mint) → next.mintData = .unknown := by
  intro none
  rw [kept]
  · exact shows.unminted fun a ha => none a (by simp [ha])
  · cases hm : projection.mintData? with
    | none => rfl
    | some data => exact absurd (Projection.kind_of_mintData? hp hm) (none e (by simp))

theorem watermark_concat (shows : r.Shows arrived) (e : Event) (projection : Projection) :
    (r.offer e projection).watermark =
      (Journal.run ((arrived ++ [e]).map (·.sequence))).mark := by
  rw [List.map_append, List.map_singleton, Journal.run_concat, Journal.mark_offer,
    ← shows.watermark]
  exact (AssetRecord.offer_frame r e projection).2.2.2

/-- An event that is applied brings all its data. -/
theorem offer_of_apply (life : Lifecycle events assetId tree leafIndex)
    (within : ∀ a ∈ arrived, a ∈ events) (he : e ∈ events) (shows : r.Shows arrived)
    (hp : Projection.ofEvent e = .ok projection)
    (decided : r.watermark.decide e.sequence = .apply) :
    (r.offer e projection).Shows (arrived ++ [e]) := by
  have watermark := watermark_concat shows e projection
  rw [AssetRecord.offer_of_apply decided] at watermark ⊢
  have before : (r.fillLeafIndex e.leafIndex).mintData = r.mintData := rfl
  have kept : projection.mintData? = none →
      ((r.fillLeafIndex e.leafIndex).project projection).mintData = r.mintData := by
    intro hm
    rw [(AssetRecord.mintData_of_no_mint hm _).1, before]
  refine ⟨watermark, rfl, ?_, unminted_concat shows hp kept, ?_, ?_⟩
  · have burnt := AssetRecord.burnt_project (r.fillLeafIndex e.leafIndex) projection
    refine burnt.trans ?_
    rw [show (r.fillLeafIndex e.leafIndex).burnt = r.burnt from rfl, shows.burnt,
      ← Projection.kind_burn_iff hp]
    simp [or_and_right, exists_or]
  · refine minted_concat life within he shows hp kept ?_
    intro data hd
    exact AssetRecord.mintData_project hd (mintData_of_mint life within he shows hp hd)
  · intro a ha last p hpa owner delegate hh
    have place : e.sequence = a.sequence := Option.some.inj last
    have all := mem_of_mem_concat within he ha
    have same := life.places e he a all place
    subst same
    rw [hp] at hpa
    cases hpa
    exact AssetRecord.holders_project hh (r.fillLeafIndex e.leafIndex)

/-- An event that is too late brings what the mint alone tells. It is no burn that is new, and not
the one at the last place unless that one came before. -/
theorem offer_of_stale (life : Lifecycle events assetId tree leafIndex)
    (within : ∀ a ∈ arrived, a ∈ events) (he : e ∈ events) (shows : r.Shows arrived)
    (hp : Projection.ofEvent e = .ok projection)
    (decided : r.watermark.decide e.sequence = .ignoreStale)
    (burn : e.kind = .burn → e ∈ arrived)
    (known : r.lastSequence = some e.sequence → e ∈ arrived) :
    (r.offer e projection).Shows (arrived ++ [e]) := by
  have watermark := watermark_concat shows e projection
  obtain ⟨_, _, _, unmoved⟩ := AssetRecord.backfill_frame (r.fillLeafIndex e.leafIndex) projection
  obtain ⟨owner, delegate, burnt, last⟩ :=
    AssetRecord.backfill_keeps (r.fillLeafIndex e.leafIndex) projection
  rw [AssetRecord.offer_of_stale decided] at watermark ⊢
  have before : (r.fillLeafIndex e.leafIndex).mintData = r.mintData := rfl
  have kept : projection.mintData? = none →
      ((r.fillLeafIndex e.leafIndex).backfill projection).mintData = r.mintData := by
    intro hm
    rw [(AssetRecord.mintData_of_no_mint hm _).2, before]
  refine ⟨watermark, ?_, ?_, unminted_concat shows hp kept, ?_, ?_⟩
  · rw [last, unmoved]
    exact shows.last
  · rw [burnt]
    refine shows.burnt.trans ?_
    constructor
    · intro hh
      obtain ⟨a, ha, hk⟩ := hh
      exact ⟨a, by simp [ha], hk⟩
    · intro hh
      obtain ⟨a, ha, hk⟩ := hh
      rcases List.mem_append.mp ha with ha | ha
      · exact ⟨a, ha, hk⟩
      · rw [List.mem_singleton.mp ha] at hk
        exact ⟨e, burn hk, hk⟩
  · refine minted_concat life within he shows hp kept ?_
    intro data hd
    exact AssetRecord.mintData_backfill hd (mintData_of_mint life within he shows hp hd)
  · rw [owner, delegate, last]
    intro a ha hl
    refine shows.holders a ?_ hl
    rcases List.mem_append.mp ha with ha | ha
    · exact ha
    · rw [List.mem_singleton.mp ha] at hl ⊢
      exact known hl

/-- An event that arrived before brings nothing. -/
theorem offer_of_duplicate (shows : r.Shows arrived)
    (decided : r.watermark.decide e.sequence = .ignoreDuplicate) (seen : e ∈ arrived) :
    (r.offer e projection).Shows (arrived ++ [e]) := by
  have watermark := watermark_concat shows e projection
  have again : ∀ a, a ∈ arrived ++ [e] ↔ a ∈ arrived := by
    intro a
    simp only [List.mem_append, List.mem_singleton, or_iff_left_iff_imp]
    rintro rfl
    exact seen
  rw [AssetRecord.offer_of_duplicate decided] at watermark ⊢
  refine ⟨watermark, shows.last, ?_, ?_, ?_, ?_⟩
  · simp only [again]
    exact shows.burnt
  · simp only [again]
    exact shows.unminted
  · simp only [again]
    exact shows.minted
  · simp only [again]
    exact shows.holders

/-- Whatever the watermark decides on an event, the record shows it afterwards. -/
theorem hear (life : Lifecycle events assetId tree leafIndex) (within : ∀ a ∈ arrived, a ∈ events)
    (he : e ∈ events) (shows : r.Shows arrived) : (r.hear e).Shows (arrived ++ [e]) := by
  obtain ⟨projection, hp⟩ := life.projects e he
  rw [AssetRecord.hear_of_projects hp]
  have signers := life.sequence_signers within
  by_cases first : arrived = []
  · subst first
    refine offer_of_apply life within he shows hp ?_
    rw [shows.watermark]
    exact Watermark.decide_of_last_none rfl e.sequence
  · obtain ⟨place, hm, hl, latest⟩ := Journal.last_run (by simpa using first) signers
    obtain ⟨last, hlast, rfl⟩ := List.mem_map.mp hm
    by_cases later : e.sequence.upTo last.sequence
    -- Not applied: a burn has nothing after it, so it can only be here if it arrived before.
    · have seen : e.sequence ∈ arrived.map (·.sequence) → e ∈ arrived := by
        intro h
        obtain ⟨a, ha, place⟩ := List.mem_map.mp h
        rw [← life.places a (within a ha) e he place]
        exact ha
      have known : r.lastSequence = some e.sequence → e ∈ arrived := by
        intro h
        rw [shows.last, shows.watermark, hl] at h
        exact seen (Option.some.inj h ▸ hm)
      have kept := Journal.decide_of_upTo hl later (life.signers e he last (within last hlast))
      rw [← shows.watermark] at kept
      rcases Watermark.decide_cases r.watermark e.sequence with decided | decided | decided
      · exact absurd decided kept
      · refine offer_of_stale life within he shows hp decided ?_ known
        intro burn
        have upper := life.burns e he burn last (within last hlast)
        have same := Sequence.eq_of_upTo later upper (life.signers e he last (within last hlast))
        exact seen (same ▸ hm)
      · have duplicate := decided
        rw [shows.watermark] at duplicate
        exact offer_of_duplicate shows decided
          (seen (Journal.mem_of_decide_ignoreDuplicate duplicate))
    · refine offer_of_apply life within he shows hp ?_
      rw [shows.watermark]
      exact Journal.decide_of_not_upTo hl latest later

theorem foldl_hear (life : Lifecycle events assetId tree leafIndex)
    (within : ∀ a ∈ arrived, a ∈ events) :
    (arrived.foldl AssetRecord.hear (.blank assetId tree)).Shows arrived := by
  induction arrived using List.reverseRecOn with
  | nil => exact blank assetId tree
  | append_singleton arrived e ih =>
    rw [List.foldl_append]
    have before : ∀ a ∈ arrived, a ∈ events := fun a ha => within a (by simp [ha])
    exact hear life before (within e (by simp)) (ih before)

end AssetRecord.Shows

namespace Lifecycle

variable {events : Finset Event} {assetId tree : Address} {leafIndex : UInt64}
variable {arrived : List Event}

theorem recordAfter_eq (life : Lifecycle events assetId tree leafIndex) {e : Event}
    (he : e ∈ events) (found : Option AssetRecord) :
    Ledger.recordAfter assetId found e =
      some ((found.getD (.blank assetId tree)).hear e) := by
  obtain ⟨projection, hp⟩ := life.projects e he
  simp [Ledger.recordAfter, life.assetId e he, life.tree e he, hp, Except.isOk, Except.toBool]

/-- The first event opens the record and all others find it there. -/
theorem get?_deliver (life : Lifecycle events assetId tree leafIndex)
    (within : ∀ a ∈ arrived, a ∈ events) (hne : arrived ≠ []) :
    (Ledger.empty.deliver arrived).get? assetId =
      some (arrived.foldl AssetRecord.hear (.blank assetId tree)) := by
  rw [Ledger.get?_deliver]
  induction arrived using List.reverseRecOn with
  | nil => exact absurd rfl hne
  | append_singleton arrived e ih =>
    have before : ∀ a ∈ arrived, a ∈ events := fun a ha => within a (by simp [ha])
    rw [List.foldl_append, List.foldl_append]
    by_cases first : arrived = []
    · subst first
      exact recordAfter_eq life (within e (by simp)) _
    · rw [ih before first]
      exact recordAfter_eq life (within e (by simp)) _

theorem foldl_hear_frame (life : Lifecycle events assetId tree leafIndex)
    (within : ∀ a ∈ arrived, a ∈ events) (hne : arrived ≠ []) :
    (arrived.foldl AssetRecord.hear (.blank assetId tree)).merkleTree = tree ∧
    (arrived.foldl AssetRecord.hear (.blank assetId tree)).leafIndex = some leafIndex := by
  induction arrived using List.reverseRecOn with
  | nil => exact absurd rfl hne
  | append_singleton arrived e ih =>
    have before : ∀ a ∈ arrived, a ∈ events := fun a ha => within a (by simp [ha])
    obtain ⟨projection, hp⟩ := life.projects e (within e (by simp))
    rw [List.foldl_append, List.foldl_cons, List.foldl_nil, AssetRecord.hear_of_projects hp]
    generalize hr : arrived.foldl AssetRecord.hear (.blank assetId tree) = r at ih ⊢
    obtain ⟨_, ht, hi, _⟩ := AssetRecord.offer_frame r e projection
    rw [ht, hi, life.leafIndex e (within e (by simp))]
    by_cases first : arrived = []
    · subst first
      subst hr
      exact ⟨rfl, rfl⟩
    · obtain ⟨tree, index⟩ := ih before first
      rw [tree, index]
      exact ⟨rfl, rfl⟩

/-- The event at the last place once all events arrived. -/
theorem exists_top (life : Lifecycle events assetId tree leafIndex)
    (all : ∀ e, e ∈ arrived ↔ e ∈ events) (hne : arrived ≠ []) :
    ∃ top ∈ events, (Journal.run (arrived.map (·.sequence))).mark.last = some top.sequence ∧
      ∀ e ∈ events, e.sequence.upTo top.sequence := by
  have within : ∀ e ∈ arrived, e ∈ events := fun e => (all e).mp
  obtain ⟨place, hm, hl, latest⟩ :=
    Journal.last_run (by simpa using hne) (life.sequence_signers within)
  obtain ⟨top, ht, rfl⟩ := List.mem_map.mp hm
  refine ⟨top, within top ht, hl, ?_⟩
  intro e he
  exact latest e.sequence (List.mem_map.mpr ⟨e, (all e).mpr he, rfl⟩)

/-- Every order in which all events of an asset arrive, however often each does, ends in a record
with the same last place, tree, position, mint data and burn. Unless the last event is the burn, the
record also has the owner and the delegate that this event sets. -/
theorem converges (life : Lifecycle events assetId tree leafIndex) (nonempty : events.Nonempty) :
    ∃ top ∈ events, (∀ e ∈ events, e ≠ top → e.sequence.before top.sequence = true) ∧
    ∀ deliveries : List Event, deliveries.toFinset = events →
    ∃ r, (Ledger.empty.deliver deliveries).get? assetId = some r ∧
      r.lastSequence = some top.sequence ∧
      r.merkleTree = tree ∧
      r.leafIndex = some leafIndex ∧
      (r.burnt = true ↔ ∃ e ∈ events, e.kind = .burn) ∧
      (∀ e ∈ events, e.kind = .mint → ∃ metadata schema,
        e.payload = .mint metadata ∧ e.leafSchema = some schema ∧
        r.mintData = .told metadata schema.nonce (e.roles.get? .treeConfig)) ∧
      ((∀ e ∈ events, e.kind ≠ .mint) → r.mintData = .unknown) ∧
      (top.kind = .mint → ∃ schema, top.leafSchema = some schema ∧
        r.owner = some schema.owner ∧ r.delegate = some schema.delegate) ∧
      (top.kind = .transfer → ∃ newOwner, top.roles.get? .newLeafOwner = some newOwner ∧
        r.owner = some newOwner ∧ r.delegate = some newOwner) := by
  obtain ⟨top, ht, _, latest⟩ :=
    life.exists_top (fun e => Finset.mem_toList) nonempty.toList_ne_nil
  refine ⟨top, ht, ?_, ?_⟩
  · intro e he hne
    exact Sequence.before_of_upTo (latest e he) (fun same => hne (life.places e he top ht same))
      (life.signers e he top ht)
  · intro deliveries every
    have all : ∀ e, e ∈ deliveries ↔ e ∈ events := by
      intro e
      rw [← every, List.mem_toFinset]
    have within : ∀ e ∈ deliveries, e ∈ events := fun e => (all e).mp
    have arrived : deliveries ≠ [] := by
      rintro rfl
      rw [← every] at nonempty
      exact Finset.not_nonempty_empty nonempty
    have shows := AssetRecord.Shows.foldl_hear life within
    obtain ⟨hr, hi⟩ := life.foldl_hear_frame within arrived
    obtain ⟨last, hlast, hl, upper⟩ := life.exists_top all arrived
    have same : last = top := by
      apply life.places last hlast top ht
      exact Sequence.eq_of_upTo (latest last hlast) (upper top ht) (life.signers last hlast top ht)
    rw [same, ← shows.watermark, ← shows.last] at hl
    refine ⟨_, life.get?_deliver within arrived, hl, hr, hi, ?_, ?_, ?_, ?_, ?_⟩
    · simp only [← all]
      exact shows.burnt
    · intro e he mint
      obtain ⟨projection, hp⟩ := life.projects e he
      obtain ⟨metadata, schema, payload, leaf, rfl⟩ := Projection.ofEvent_mint hp mint
      exact ⟨metadata, schema, payload, leaf, shows.minted e ((all e).mpr he) _ hp _ rfl⟩
    · intro none
      exact shows.unminted fun e he => none e ((all e).mp he)
    · intro mint
      obtain ⟨projection, hp⟩ := life.projects top ht
      obtain ⟨metadata, schema, _, leaf, rfl⟩ := Projection.ofEvent_mint hp mint
      exact ⟨schema, leaf, shows.holders top ((all top).mpr ht) hl _ hp _ _ rfl⟩
    · intro transfer
      obtain ⟨projection, hp⟩ := life.projects top ht
      obtain ⟨newOwner, owner, rfl⟩ := Projection.ofEvent_transfer hp transfer
      exact ⟨newOwner, owner, shows.holders top ((all top).mpr ht) hl _ hp _ _ rfl⟩

/-- The events of a short life, each in a slot of its own. -/
def sample (kind : EventKind) : Event where
  kind
  instruction :=
    match kind with
    | .mint => .mintV1
    | .transfer => .transfer
    | .burn => .burn
  assetId := some (.replicate 1)
  merkleTree := .replicate 2
  leafIndex := some 7
  roles := ⟨[(.treeConfig, .replicate 3), (.newLeafOwner, .replicate 5)], []⟩
  leafSchema :=
    match kind with
    | .mint => some
      ⟨.replicate 1, .replicate 4, .replicate 4, 7, .replicate 0, .replicate 0, .replicate 0⟩
    | .transfer | .burn => none
  payload :=
    match kind with
    | .mint => .mint ⟨"name", "", "", 500, false, true, none, none, none, none, .legacy, []⟩
    | .transfer => .transfer ⟨.replicate 0, .replicate 0, .replicate 0, 7, 7⟩
    | .burn => .burn ⟨.replicate 0, .replicate 0, .replicate 0, 7, 7⟩
  slot :=
    match kind with
    | .mint => 1
    | .transfer => 2
    | .burn => 3
  signature := kind.name
  ordinal := 0

/-- The burn arrives first and the transfer twice. -/
def sampleDeliveries : List Event :=
  [sample .burn, sample .transfer, sample .mint, sample .transfer]

theorem mem_sampleDeliveries {e : Event} :
    e ∈ sampleDeliveries.toFinset ↔ ∃ kind, e = sample kind := by
  rw [List.mem_toFinset]
  constructor
  · intro h
    simp only [sampleDeliveries, List.mem_cons, List.not_mem_nil, or_false] at h
    rcases h with rfl | rfl | rfl | rfl <;> exact ⟨_, rfl⟩
  · intro hh
    obtain ⟨kind, rfl⟩ := hh
    cases kind <;> simp [sampleDeliveries]

theorem sample_lifecycle :
    Lifecycle sampleDeliveries.toFinset (.replicate 1) (.replicate 2) 7 := by
  constructor <;> simp only [mem_sampleDeliveries] <;> rintro _ ⟨kind, rfl⟩
  case assetId | tree | leafIndex => rfl
  case projects => cases kind <;> exact ⟨_, rfl⟩
  case burns =>
    rintro burn _ ⟨other, rfl⟩
    cases kind with
    | mint | transfer => cases burn
    | burn => cases other <;> simp [sample, Event.sequence, Sequence.upTo]
  all_goals
    rintro _ ⟨other, rfl⟩
    cases kind <;> cases other <;> simp [sample, Event.sequence]

theorem converges_sampleDeliveries :
    Lifecycle sampleDeliveries.toFinset (.replicate 1) (.replicate 2) 7 ∧
    ∃ r, (Ledger.empty.deliver sampleDeliveries).get? (.replicate 1) = some r ∧
      r.burnt = true ∧ r.royaltyBasisPoints = some 500 ∧ r.nonce = some 7 := by
  have life := sample_lifecycle
  refine ⟨life, ?_⟩
  have mem : ∀ kind, sample kind ∈ sampleDeliveries.toFinset := fun kind =>
    mem_sampleDeliveries.mpr ⟨kind, rfl⟩
  obtain ⟨_, _, _, settled⟩ := converges life ⟨_, mem .mint⟩
  obtain ⟨r, hr, _, _, _, burnt, minted, _⟩ := settled sampleDeliveries rfl
  obtain ⟨metadata, schema, payload, leaf, data⟩ := minted _ (mem .mint) rfl
  cases payload
  cases leaf
  simp only [AssetRecord.mintData, MintData.told, MintData.mk.injEq] at data
  exact ⟨r, hr, burnt.mpr ⟨_, mem .burn, rfl⟩, data.2.2.2.1, data.2.2.2.2.1⟩

end Lifecycle

end LeafLedger
