import LeafLedger.Proofs.Sequence.Journal
import LeafLedger.Proofs.Store.Delivery

namespace LeafLedger

namespace Ledger

/-- The events of a run that are applied, in order. -/
def appliedIn (ledger : Ledger) : List Event → List Event
  | [] => []
  | event :: events =>
    let later := (ledger.after event).appliedIn events
    if ledger.decision? event = some .apply then event :: later else later

variable {ledger : Ledger} {assetId : Address}

/-- The watermark of an asset beside the events that were applied to it. -/
def journal (ledger : Ledger) (assetId : Address) (applied : List Event) : Journal :=
  ⟨markOf (ledger.get? assetId), applied.map (·.sequence)⟩

theorem journal_after_of_apply {event : Event} {applied : List Event}
    (own : event.assetId = some assetId) (decided : ledger.decision? event = some .apply) :
    (ledger.after event).journal assetId (applied ++ [event]) =
      (ledger.journal assetId applied).offer event.sequence := by
  cases hp : Projection.ofEvent event with
  | error error => simp [decision?_of_error own hp] at decided
  | ok projection =>
    rw [decision?_of_assetId own hp] at decided
    have apply := Option.some.inj decided
    rw [Journal.offer_of_apply apply, journal, markOf_after own hp, Watermark.offer_of_apply apply]
    simp [journal]

theorem journal_after_of_not_apply {event : Event} {applied : List Event}
    (own : event.assetId = some assetId) (decided : ledger.decision? event ≠ some .apply) :
    (ledger.after event).journal assetId applied = ledger.journal assetId applied := by
  cases hp : Projection.ofEvent event with
  | error error => rw [after_of_error hp]
  | ok projection =>
    rw [decision?_of_assetId own hp] at decided
    have kept : (markOf (ledger.get? assetId)).decide event.sequence ≠ .apply :=
      fun h => decided (congrArg some h)
    rw [journal, markOf_after own hp, Watermark.offer_of_not_apply kept]
    rfl

theorem faithful_deliver_append {events past : List Event}
    (own : ∀ e ∈ events, e.assetId = some assetId)
    (faithful : (ledger.journal assetId past).Faithful) :
    ((ledger.deliver events).journal assetId (past ++ ledger.appliedIn events)).Faithful := by
  induction events generalizing ledger past with
  | nil => simpa [deliver, appliedIn] using faithful
  | cons event events ih =>
    have here := own event (by simp)
    have rest : ∀ e ∈ events, e.assetId = some assetId := fun e he => own e (by simp [he])
    change (((ledger.after event).deliver events).journal assetId _).Faithful
    by_cases decided : ledger.decision? event = some .apply
    · have next := faithful.offer event.sequence
      rw [← journal_after_of_apply here decided] at next
      have later := ih rest next
      rw [List.append_assoc] at later
      simpa [appliedIn, decided] using later
    · rw [← journal_after_of_not_apply here decided] at faithful
      simpa [appliedIn, decided] using ih rest faithful

/-- What the watermark of an asset remembers is faithful to the events that were applied to it. -/
theorem faithful_deliver {events : List Event} (own : ∀ e ∈ events, e.assetId = some assetId) :
    ((empty.deliver events).journal assetId (empty.appliedIn events)).Faithful :=
  @faithful_deliver_append empty assetId events [] own Journal.faithful_empty

theorem last_markOf {events : List Event} (own : ∀ e ∈ events, e.assetId = some assetId) :
    (markOf ((empty.deliver events).get? assetId)).last =
      (empty.appliedIn events).getLast?.map (·.sequence) := by
  rw [← List.getLast?_map]
  exact (faithful_deliver own).last

theorem mem_of_mem_appliedIn {events : List Event} {event : Event}
    (h : event ∈ ledger.appliedIn events) : event ∈ events := by
  induction events generalizing ledger with
  | nil => cases h
  | cons first events ih =>
    simp only [appliedIn] at h
    split at h
    · rcases List.mem_cons.mp h with rfl | h
      · simp
      · exact List.mem_cons_of_mem first (ih h)
    · exact List.mem_cons_of_mem first (ih h)

end Ledger

end LeafLedger
