import LeafLedger.Proofs.Ingest.Report
import LeafLedger.Proofs.Scan.LeafSource
import LeafLedger.Proofs.Store.Absorbed
import Mathlib.Data.List.Induction

namespace LeafLedger

namespace Ledger

/-- All events of the transactions that were delivered are absorbed. -/
theorem absorbs_of_delivered {context : ScanContext} {txs : List Transaction}
    (consistent : ∀ a ∈ txs, ∀ b ∈ txs, a.signature = b.signature → a = b) {tx : Transaction}
    (delivered : tx ∈ txs) {event : Event} (found : event ∈ (tx.scan context).events) :
    (empty.deliver (txs.flatMap fun tx => (tx.scan context).events)).Absorbs event := by
  induction txs using List.reverseRecOn with
  | nil => cases delivered
  | append_singleton txs last ih =>
    have before : ∀ a ∈ txs, ∀ b ∈ txs, a.signature = b.signature → a = b := fun a ha b hb =>
      consistent a (by simp [ha]) b (by simp [hb])
    rw [List.flatMap_append, deliver_append, List.flatMap_singleton]
    by_cases known : tx ∈ txs
    · exact (ih before known).deliver _
    -- A new transaction finds nothing of its signature, so its events are absorbed in their order.
    · have eq : tx = last := by
        rcases List.mem_append.mp delivered with h | h
        · exact absurd h known
        · exact List.mem_singleton.mp h
      subst eq
      refine absorbs_of_mem_deliver ?_ (Scan.pairwise_ordinals context tx) found
      intro e he
      refine (awaits_empty e).deliver ?_
      intro other ho same
      obtain ⟨earlier, hm, hs⟩ := List.mem_flatMap.mp ho
      rw [Scan.signature_of_mem_events hs, Scan.signature_of_mem_events he] at same
      have again := consistent earlier (by simp [hm]) tx (by simp) same
      exact absurd (again ▸ hm) known

theorem decision_of_absorbs {ledger : Ledger} {events : List Event}
    (absorbs : ∀ event ∈ events, ledger.Absorbs event) {entry : Event × Decision}
    (reported : entry ∈ ledger.decisions events) : entry.2 ≠ .apply := by
  induction events with
  | nil => cases reported
  | cons event events ih =>
    have here := absorbs event (by simp)
    have rest := ih fun later h => absorbs later (by simp [h])
    rw [decisions, here.after_eq] at reported
    cases hd : ledger.decision? event with
    | none =>
      simp only [hd] at reported
      exact rest reported
    | some decision =>
      simp only [hd] at reported
      rcases List.mem_cons.mp reported with rfl | h
      · exact fun applied => here.decision?_ne_apply (hd.trans (congrArg some applied))
      · exact rest h

end Ledger

namespace Ingestor

variable {σ : Type} {ingestor : Ingestor σ} {ledger : σ → Ledger}

/-- Ingesting a transaction once more leaves the ledger as it is, and none of its events is
applied. -/
theorem ingest_again (keeps : ingestor.store.Keeps ledger) {world : σ}
    (fresh : ledger world = .empty) {txs : List Transaction}
    (consistent : ∀ a ∈ txs, ∀ b ∈ txs, a.signature = b.signature → a = b) {tx : Transaction}
    (ingested : tx ∈ txs) :
    let again := ingestor.ingest tx (ingestor.reached world txs)
    ledger again.world = ledger (ingestor.reached world txs) ∧
    ∀ event decision, (event, decision) ∈ again.value.applied →
      decision = .ignoreDuplicate ∨ decision = .ignoreStale ∨ decision = .ignoreUnidentified := by
  intro again
  have absorbs : ∀ event ∈ (tx.scan ingestor.context).events,
      (ledger (ingestor.reached world txs)).Absorbs event := by
    intro event found
    rw [ledger_reached keeps, fresh]
    exact Ledger.absorbs_of_delivered consistent ingested found
  constructor
  · rw [ledger_ingest keeps, Ledger.deliver_of_absorbs absorbs]
  · intro event decision reported
    rw [applied_ingest keeps] at reported
    have ignored := Ledger.decision_of_absorbs absorbs reported
    cases decision with
    | apply => exact absurd rfl ignored
    | ignoreStale | ignoreDuplicate | ignoreUnidentified => simp

/-- An ingestor whose world is a ledger and nothing else. -/
def sampleIngestor : Ingestor Ledger where
  context := .standard
  policy := .standard
  source := ⟨fun _ ledger => (.ok none, ledger), fun _ _ ledger => (.ok [], ledger)⟩
  pacing := ⟨fun _ ledger => ledger, fun _ => false⟩
  store := Ledger.store

/-- A mint and a transfer of one asset in one transaction, and a later transaction like it. -/
def sampleHistory : List Transaction :=
  [Scan.sampleTransaction true, { Scan.sampleTransaction true with signature := "t", slot := 2 }]

theorem ingest_again_sampleHistory :
    let again := sampleIngestor.ingest (Scan.sampleTransaction true)
      (sampleIngestor.reached .empty sampleHistory)
    again.world = sampleIngestor.reached .empty sampleHistory ∧
    again.value.applied.map (·.2) = [.ignoreStale, .ignoreStale] := by
  intro again
  have consistent : ∀ a ∈ sampleHistory, ∀ b ∈ sampleHistory,
      a.signature = b.signature → a = b := by
    simp [sampleHistory, Scan.sampleTransaction]
  have ingested : Scan.sampleTransaction true ∈ sampleHistory := by simp [sampleHistory]
  obtain ⟨same, _⟩ := @ingest_again Ledger sampleIngestor id Ledger.keeps_store .empty rfl
    sampleHistory consistent _ ingested
  simp only [id_eq] at same
  exact ⟨same, by decide +kernel⟩

end Ingestor

end LeafLedger
