import LeafLedger.Proofs.Ingest.Report
import LeafLedger.Proofs.Scan.LeafSource
import LeafLedger.Proofs.Scan.Projection
import LeafLedger.Proofs.Store.Absorbed
import Mathlib.Data.List.Induction

namespace LeafLedger

namespace Event

/-- The second of two events comes later on the chain, or at least in no earlier slot: within a
transaction ordinals go up, and transactions of one slot have no order. -/
def InOrder (a b : Event) : Prop :=
  a.slot ≤ b.slot ∧ (a.signature = b.signature → a.ordinal < b.ordinal)

/-- What a ledger is to decide on an event that is in order. -/
def verdict (event : Event) : Decision :=
  if event.assetId.isSome then .apply else .ignoreUnidentified

end Event

/-- Events of transactions in order are in order. -/
theorem Scan.pairwise_inOrder (context : ScanContext) {txs : List Transaction}
    (signatures : txs.Pairwise fun a b => a.signature ≠ b.signature)
    (slots : txs.Pairwise fun a b => a.slot ≤ b.slot) :
    (txs.flatMap fun tx => (tx.scan context).events).Pairwise Event.InOrder := by
  refine List.pairwise_flatMap.mpr ⟨?_, ?_⟩
  · intro tx _
    refine List.Pairwise.imp_of_mem ?_ (Scan.pairwise_ordinals context tx)
    intro a b ha hb less
    rw [Event.InOrder, slot_of_mem_events ha, slot_of_mem_events hb]
    exact ⟨UInt64.le_refl _, fun _ => less⟩
  · refine (signatures.and slots).imp ?_
    intro tx later both a ha b hb
    rw [Event.InOrder, slot_of_mem_events ha, slot_of_mem_events hb, signature_of_mem_events ha,
      signature_of_mem_events hb]
    exact ⟨both.2, fun same => absurd same both.1⟩

namespace AssetRecord

/-- The record without what only serves to order further events. -/
def shown (r : AssetRecord) : AssetRecord :=
  { r with watermark := .empty }

/-- The record after an event that is taken as it comes, whatever its place. -/
def take (r : AssetRecord) (event : Event) : AssetRecord :=
  match Projection.ofEvent event with
  | .ok projection => r.project projection
  | .error _ => r

/-- What the events of an asset come to if each is taken as it comes: its leaf index is that of the
first event, and its last place that of the last one. -/
def taken (assetId : Address) : List Event → Option AssetRecord
  | [] => none
  | first :: later => some
    { (first :: later).foldl take (.blank assetId first.merkleTree) with
      leafIndex := first.leafIndex
      lastSequence := ((first :: later).getLast?).map (·.sequence) }

/-- A projection neither reads nor writes what the places of events tell. -/
theorem take_marked (r : AssetRecord) (leafIndex : Option UInt64) (last : Option Sequence)
    (mark : Watermark) (event : Event) :
    { r with leafIndex, lastSequence := last, watermark := mark }.take event =
      { r.take event with leafIndex, lastSequence := last, watermark := mark } := by
  cases hp : Projection.ofEvent event with
  | error error => simp only [take, hp]
  | ok projection =>
    cases projection <;>
      simp [take, hp, project, fillMintData, fillMetadata_eq, fillTreeAuthority]

theorem take_dated (r : AssetRecord) (leafIndex : Option UInt64) (last : Option Sequence)
    (event : Event) :
    { r with leafIndex, lastSequence := last }.take event =
      { r.take event with leafIndex, lastSequence := last } := by
  have kept : (r.take event).watermark = r.watermark := by
    unfold take
    split
    next projection _ => exact (project_frame r projection).2.2.2
    next => rfl
  refine (take_marked r leafIndex last r.watermark event).trans ?_
  simp only [kept]

variable {r : AssetRecord} {event : Event} {assetId : Address}

/-- An event that is applied is taken as it comes. -/
theorem shown_offer {projection : Projection} (hp : Projection.ofEvent event = .ok projection)
    (decided : r.watermark.decide event.sequence = .apply) :
    (r.offer event projection).shown =
      { r.shown.take event with
        leafIndex := r.shown.leafIndex <|> event.leafIndex
        lastSequence := some event.sequence } := by
  rw [offer_of_apply decided]
  have moved := take_marked r (r.leafIndex <|> event.leafIndex) r.lastSequence r.watermark event
  have bare := take_marked r r.leafIndex r.lastSequence .empty event
  simp only [take, hp] at moved bare
  simp only [shown, advance, fillLeafIndex, take, hp, moved, bare]

/-- What one more event adds to what the events of an asset come to. -/
theorem taken_concat {own : List Event} (indexed : ∀ e ∈ own, e.leafIndex.isSome) :
    taken assetId (own ++ [event]) =
      let r := (taken assetId own).getD (.blank assetId event.merkleTree)
      some { r.take event with
        leafIndex := r.leafIndex <|> event.leafIndex
        lastSequence := some event.sequence } := by
  cases own with
  | nil => rfl
  | cons first later =>
    have known := indexed first (by simp)
    have last : ((first :: (later ++ [event])).getLast?).map (·.sequence) =
        some event.sequence := by
      rw [← List.cons_append, List.getLast?_concat, Option.map_some]
    simp only [taken, List.cons_append, Option.getD_some, last, take_dated, List.foldl_cons,
      List.foldl_append, List.foldl_nil, orElse_eq_left fun _ => known]

end AssetRecord

namespace Ledger

variable {events : List Event} {event : Event}

/-- After events in no later slot no asset remembers a later slot. -/
theorem slot_le_of_deliver (slots : ∀ other ∈ events, other.slot ≤ event.slot) (assetId : Address)
    {last : Sequence} (hl : (markOf ((empty.deliver events).get? assetId)).last = some last) :
    last.slot ≤ event.slot := by
  induction events using List.reverseRecOn with
  | nil => cases hl
  | append_singleton events other ih =>
    have before := ih fun earlier h => slots earlier (by simp [h])
    rw [deliver_concat] at hl
    rcases markOf_after_cases (empty.deliver events) other assetId with same | offered
    · rw [same] at hl
      exact before hl
    · rw [offered] at hl
      rcases Watermark.last_offer_cases (markOf ((empty.deliver events).get? assetId))
        other.sequence with own | kept
      · rw [own] at hl
        cases hl
        exact slots other (by simp)
      · rw [kept] at hl
        exact before hl

/-- The place of an event that is in order is applied by every watermark. -/
theorem decide_of_inOrder (past : ∀ other ∈ events, other.InOrder event) (assetId : Address) :
    (markOf ((empty.deliver events).get? assetId)).decide event.sequence = .apply := by
  -- Nothing behind it in its transaction was delivered, so only a later slot could keep it out.
  have awaits := (awaits_empty event).deliver fun other h => (past other h).2
  rcases (awaits assetId).decide_cases with apply | ⟨last, hl, older⟩
  · exact apply
  · have upper := slot_le_of_deliver (fun other h => (past other h).1) assetId hl
    exact absurd older (UInt64.not_lt.mpr upper)

theorem decision?_of_inOrder (past : ∀ other ∈ events, other.InOrder event)
    (projects : event.assetId.isSome → ∃ projection, Projection.ofEvent event = .ok projection) :
    (empty.deliver events).decision? event = some event.verdict := by
  cases ha : event.assetId with
  | none => simp [decision?, apply, ha, Event.verdict, Except.toOption]
  | some assetId =>
    obtain ⟨projection, hp⟩ := projects (by simp [ha])
    rw [decision?_of_assetId ha hp, decide_of_inOrder past assetId]
    simp [Event.verdict, ha]

/-- Events in order get their verdicts one after the other, and none is refused. -/
theorem decisions_of_inOrder {past : List Event} (inOrder : (past ++ events).Pairwise Event.InOrder)
    (projects : ∀ e ∈ events, e.assetId.isSome →
      ∃ projection, Projection.ofEvent e = .ok projection) :
    (empty.deliver past).decisions events = events.map fun e => (e, e.verdict) := by
  induction events generalizing past with
  | nil => rfl
  | cons event events ih =>
    obtain ⟨_, _, cross⟩ := List.pairwise_append.mp inOrder
    have here : (empty.deliver past).decision? event = some event.verdict :=
      decision?_of_inOrder (fun other h => cross other h event (by simp)) (projects event (by simp))
    rw [List.append_cons] at inOrder
    have later := ih inOrder fun e he => projects e (by simp [he])
    simp only [decisions, here, ← deliver_concat, later, List.map_cons]

theorem shown_after {ledger : Ledger} {assetId : Address} (own : event.assetId = some assetId)
    (projects : ∃ projection, Projection.ofEvent event = .ok projection)
    (decided : (markOf (ledger.get? assetId)).decide event.sequence = .apply) :
    ((ledger.after event).get? assetId).map (·.shown) =
      let r := ((ledger.get? assetId).map (·.shown)).getD (.blank assetId event.merkleTree)
      some { r.take event with
        leafIndex := r.leafIndex <|> event.leafIndex
        lastSequence := some event.sequence } := by
  obtain ⟨projection, hp⟩ := projects
  rw [← watermark_getD _ assetId event.merkleTree] at decided
  rw [get?_after_of_assetId own hp, Option.map_some, AssetRecord.shown_offer hp decided]
  cases ledger.get? assetId <;> rfl

/-- Each asset shows what its events come to. -/
theorem shown_of_inOrder (inOrder : events.Pairwise Event.InOrder)
    (projects : ∀ e ∈ events, e.assetId.isSome →
      ∃ projection, Projection.ofEvent e = .ok projection)
    (indexed : ∀ e ∈ events, e.assetId.isSome → e.leafIndex.isSome) (assetId : Address) :
    ((empty.deliver events).get? assetId).map (·.shown) =
      AssetRecord.taken assetId (events.filter (·.assetId = some assetId)) := by
  induction events using List.reverseRecOn with
  | nil => rfl
  | append_singleton events event ih =>
    obtain ⟨inOrder, _, cross⟩ := List.pairwise_append.mp inOrder
    have before := ih inOrder (fun e he => projects e (by simp [he]))
      fun e he => indexed e (by simp [he])
    rw [deliver_concat, List.filter_append]
    by_cases own : event.assetId = some assetId
    · have decided := decide_of_inOrder (fun other h => cross other h event (by simp)) assetId
      have known : ∀ e ∈ events.filter (·.assetId = some assetId), e.leafIndex.isSome := by
        intro e he
        obtain ⟨hm, ho⟩ := List.mem_filter.mp he
        exact indexed e (by simp [hm]) (by simp [of_decide_eq_true ho])
      have last : [event].filter (·.assetId = some assetId) = [event] := by simp [own]
      rw [shown_after own (projects event (by simp) (by simp [own])) decided, before, last,
        AssetRecord.taken_concat known]
    · have last : [event].filter (·.assetId = some assetId) = [] := by simp [own]
      rw [get?_after, recordAfter, if_neg fun h => own h.1, before, last, List.append_nil]

/-- Transactions that come in the order of their slots, each with a signature of its own, have all
their events applied that name an asset, and the others are left alone. Each asset ends with what
its events come to, taken as they come. -/
theorem deliver_in_order {context : ScanContext} {txs : List Transaction}
    (signatures : txs.Pairwise fun a b => a.signature ≠ b.signature)
    (slots : txs.Pairwise fun a b => a.slot ≤ b.slot) :
    let events := txs.flatMap fun tx => (tx.scan context).events
    empty.decisions events = events.map (fun event => (event, event.verdict)) ∧
    ∀ assetId, ((empty.deliver events).get? assetId).map (·.shown) =
      AssetRecord.taken assetId (events.filter (·.assetId = some assetId)) := by
  intro events
  have inOrder : events.Pairwise Event.InOrder := Scan.pairwise_inOrder context signatures slots
  have projects : ∀ e ∈ events, e.assetId.isSome →
      ∃ projection, Projection.ofEvent e = .ok projection := by
    intro e he
    obtain ⟨tx, _, found⟩ := List.mem_flatMap.mp he
    exact Scan.projects_of_mem_events found
  have indexed : ∀ e ∈ events, e.assetId.isSome → e.leafIndex.isSome := by
    intro e he
    obtain ⟨tx, _, found⟩ := List.mem_flatMap.mp he
    exact Scan.isSome_leafIndex_of_assetId found
  exact ⟨@decisions_of_inOrder events [] inOrder projects,
    shown_of_inOrder inOrder projects indexed⟩

/-- Transactions that mint and transfer one asset again and again, two of them in one slot where the
later one has the lower signature. -/
def sampleStream : List Transaction :=
  [Scan.sampleTransaction true, { Scan.sampleTransaction true with signature := "a" },
    { Scan.sampleTransaction true with signature := "b", slot := 2 }]

theorem deliver_in_order_sampleStream :
    let events := sampleStream.flatMap fun tx => (tx.scan .standard).events
    (empty.decisions events).map (·.2) = List.replicate 6 .apply ∧
    ∃ r, (empty.deliver events).get? (Asset.id Program.compressedAsset (.replicate 2) 9) = some r ∧
      r.leafIndex = some 9 ∧ r.nonce = some 9 ∧ r.owner = some (.replicate 2) ∧
      r.lastSequence = some ⟨2, "b", 2⟩ := by
  intro events
  obtain ⟨decisions, shown⟩ := @deliver_in_order .standard sampleStream
    (by simp [sampleStream, Scan.sampleTransaction])
    (by simp [sampleStream, Scan.sampleTransaction])
  have verdicts : events.map Event.verdict = List.replicate 6 .apply := by decide +kernel
  have comes : (AssetRecord.taken (Asset.id Program.compressedAsset (.replicate 2) 9)
      (events.filter (·.assetId = some (Asset.id Program.compressedAsset (.replicate 2) 9)))).map
        (fun r => (r.leafIndex, r.nonce, r.owner, r.lastSequence)) =
      some (some 9, some 9, some (.replicate 2), some ⟨2, "b", 2⟩) := by decide +kernel
  constructor
  · rw [decisions, List.map_map]
    exact verdicts
  · rw [← shown, Option.map_map] at comes
    obtain ⟨r, found, told⟩ := Option.map_eq_some_iff.mp comes
    simp only [Function.comp, AssetRecord.shown, Prod.mk.injEq] at told
    exact ⟨r, found, told⟩

end Ledger

end LeafLedger
