import LeafLedger.Proofs.Ingest.Redelivery
import LeafLedger.Proofs.Scan.Consistency

namespace LeafLedger

namespace Ledger

theorem apply_of_decision? {ledger : Ledger} {event : Event} {decision : Decision}
    (h : ledger.decision? event = some decision) :
    ledger.apply event = (.ok decision, ledger.after event) := by
  refine Prod.ext ?_ rfl
  unfold decision? at h
  cases ha : (ledger.apply event).1 with
  | error error => simp [ha, Except.toOption] at h
  | ok taken =>
    simp only [ha, Except.toOption, Option.some.injEq] at h
    rw [h]

/-- An event of a scan is taken, and only a mint without a leaf stays unidentified. -/
theorem apply_of_mem_events {context : ScanContext} {tx : Transaction} {event : Event}
    (found : event ∈ (tx.scan context).events) (ledger : Ledger) :
    ∃ decision, ledger.apply event = (.ok decision, ledger.after event) ∧
      (decision = .ignoreUnidentified ↔ event.kind = .mint ∧ event.leafSchema = none) := by
  have consistent := Scan.consistent_of_mem_events found
  rw [← consistent.unindexed]
  cases ha : event.assetId with
  | none =>
    have unindexed : event.leafIndex = none := by simpa [ha] using consistent.named
    have ignored : ledger.decision? event = some .ignoreUnidentified := by
      simp [decision?, apply, ha, Except.toOption]
    exact ⟨_, apply_of_decision? ignored, iff_of_true rfl unindexed⟩
  | some assetId =>
    have indexed : event.leafIndex ≠ none := by
      intro none
      simpa [ha, none] using consistent.named
    obtain ⟨projection, hp⟩ := Scan.projects_of_mem_events found (by simp [ha])
    refine ⟨_, apply_of_decision? (decision?_of_assetId ha hp), iff_of_false ?_ indexed⟩
    rcases Watermark.decide_cases (markOf (ledger.get? assetId)) event.sequence with h | h | h <;>
      simp [h]

end Ledger

namespace Ingestor

variable {σ : Type} {ingestor : Ingestor σ} {ledger : σ → Ledger}

/-- Of events that no ledger refuses each one is reported with its decision. -/
theorem report_of_accepted (keeps : ingestor.store.Keeps ledger) (tx : Transaction)
    {events : List Event} (accepted : ∀ event ∈ events, ∀ ledger : Ledger,
      ∃ decision next, ledger.apply event = (.ok decision, next)) (world : σ) :
    let report := (ingestor.offerAll tx events world).value
    report.rejected = 0 ∧ report.applied.map (·.1) = events := by
  induction events generalizing world with
  | nil => exact ⟨rfl, rfl⟩
  | cons event events ih =>
    obtain ⟨decision, next, taken⟩ := accepted event (by simp) (ledger world)
    obtain ⟨none, all⟩ :=
      ih (fun later h => accepted later (by simp [h])) (ingestor.store.apply event world).2
    simp [offerAll_cons, keeps.answer, taken, IngestReport.add, none, all]

theorem report_ingest_ledger (keeps : ingestor.store.Keeps ledger) (tx : Transaction) (world : σ) :
    let report := (ingestor.ingest tx world).value
    report.rejected = 0 ∧ report.applied.map (·.1) = (tx.scan ingestor.context).events := by
  refine report_of_accepted keeps tx ?_ world
  intro event found ledger
  obtain ⟨decision, taken, _⟩ := Ledger.apply_of_mem_events found ledger
  exact ⟨decision, _, taken⟩

theorem value_ingestSignature (ingestor : Ingestor σ) (signature : String) (world : σ) :
    let fetched := ingestor.source.fetchPatiently ingestor.pacing ingestor.policy signature world
    (ingestor.ingestSignature signature world).value =
      fetched.value.map fun tx => (ingestor.ingest tx fetched.world).value := by
  rw [ingestSignature_eq]
  cases hv : (ingestor.source.fetchPatiently ingestor.pacing ingestor.policy signature world).value
  <;> simp [hv, Except.map]

/-- In every state a ledger takes every event of a scan, and leaves only mints without a leaf
unidentified. So whatever is fetched is ingested with nothing rejected. -/
theorem accepts_scanned :
    (∀ (context : ScanContext) (tx : Transaction), ∀ event ∈ (tx.scan context).events,
      ∀ ledger : Ledger, ∃ decision next, ledger.apply event = (.ok decision, next) ∧
        (decision = .ignoreUnidentified ↔ event.kind = .mint ∧ event.leafSchema = none)) ∧
    ∀ {σ : Type} (ingestor : Ingestor σ) (ledger : σ → Ledger), ingestor.store.Keeps ledger →
      ∀ signature world,
        let fetched :=
          ingestor.source.fetchPatiently ingestor.pacing ingestor.policy signature world
        let done := ingestor.ingestSignature signature world
        (∃ error, fetched.value = .error error ∧ done.value = .error error) ∨
        ∃ tx report, fetched.value = .ok tx ∧ done.value = .ok report ∧ report.rejected = 0 ∧
          report.applied.map (·.1) = (tx.scan ingestor.context).events := by
  constructor
  · intro context tx event found ledger
    obtain ⟨decision, taken, unidentified⟩ := Ledger.apply_of_mem_events found ledger
    exact ⟨decision, _, taken, unidentified⟩
  · intro σ ingestor ledger keeps signature world fetched done
    have value : done.value = fetched.value.map _ := ingestor.value_ingestSignature signature world
    cases hv : fetched.value with
    | error error =>
      rw [hv] at value
      exact Or.inl ⟨error, rfl, value⟩
    | ok tx =>
      rw [hv] at value
      exact Or.inr ⟨tx, _, rfl, value, report_ingest_ledger keeps tx fetched.world⟩

/-- A source that has the sample, and nothing to list. -/
def sampleSupplier : Ingestor Ledger :=
  { sampleIngestor with
    source := ⟨fun _ ledger => (.ok (some (Scan.sampleTransaction true)), ledger),
      fun _ _ ledger => (.ok [], ledger)⟩ }

/-- A mint without a leaf stays unidentified, and one with its leaf is reported along with the
transfer after it. -/
theorem accepts_scanned_sample :
    (∃ event ∈ (({ Scan.sampleTransaction true with
          inner := [⟨0, [Scan.sampleMint]⟩] } : Transaction).scan .standard).events,
      ∃ next, Ledger.empty.apply event = (.ok .ignoreUnidentified, next)) ∧
    ∃ report, (sampleSupplier.ingestSignature "s" .empty).value = .ok report ∧
      report.rejected = 0 ∧ report.applied.map (·.1.kind) = [.mint, .transfer] := by
  obtain ⟨accepts, reports⟩ := accepts_scanned
  constructor
  · have found : (EventKind.mint, none) ∈ (({ Scan.sampleTransaction true with
        inner := [⟨0, [Scan.sampleMint]⟩] } : Transaction).scan .standard).events.map
          fun event => (event.kind, event.leafSchema) := by decide +kernel
    obtain ⟨event, he, same⟩ := List.mem_map.mp found
    obtain ⟨mint, leaf⟩ := Prod.mk.inj same
    obtain ⟨decision, next, taken, unidentified⟩ := accepts _ _ event he .empty
    rw [unidentified.mpr ⟨mint, leaf⟩] at taken
    exact ⟨event, he, next, taken⟩
  · rcases reports sampleSupplier id Ledger.keeps_store "s" .empty with
      ⟨_, fetched, _⟩ | ⟨tx, report, fetched, value, none, all⟩
    · cases fetched
    · cases fetched
      refine ⟨report, value, none, ?_⟩
      have kinds : ((Scan.sampleTransaction true).scan sampleSupplier.context).events.map (·.kind) =
          [.mint, .transfer] := by decide +kernel
      rw [← kinds, ← all, List.map_map]
      rfl

end Ingestor

end LeafLedger
