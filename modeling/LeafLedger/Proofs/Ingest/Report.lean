import LeafLedger.Proofs.Ingest.Steps
import LeafLedger.Proofs.Store.Delivery

namespace LeafLedger

/-- A store that keeps a ledger in its world, answers as the ledger does, and changes it so. -/
structure EventStore.Keeps {σ : Type} (store : EventStore σ) (ledger : σ → Ledger) : Prop where
  answer : ∀ event world,
    (store.apply event world).1.1 = ((ledger world).apply event).1
  next : ∀ event world, ledger (store.apply event world).2 = (ledger world).after event

namespace Ledger

/-- A ledger that is a world of its own. -/
def store : EventStore Ledger where
  apply event ledger :=
    let (answer, next) := ledger.apply event
    ((answer, remarks event answer), next)

theorem keeps_store : store.Keeps id where
  answer _ _ := rfl
  next _ _ := rfl

/-- The decisions on events that are delivered, those left out that say too little. -/
def decisions (ledger : Ledger) : List Event → List (Event × Decision)
  | [] => []
  | event :: events =>
    let later := (ledger.after event).decisions events
    match ledger.decision? event with
    | some decision => (event, decision) :: later
    | none => later

end Ledger

namespace Ingestor

variable {σ : Type} {ingestor : Ingestor σ} {ledger : σ → Ledger}

theorem ledger_offerAll (keeps : ingestor.store.Keeps ledger) (tx : Transaction)
    (events : List Event) (world : σ) :
    ledger (ingestor.offerAll tx events world).world = (ledger world).deliver events := by
  induction events generalizing world with
  | nil => rfl
  | cons event events ih =>
    rw [offerAll_cons, ih, keeps.next]
    rfl

/-- What is reported of events are the decisions on them. -/
theorem applied_offerAll (keeps : ingestor.store.Keeps ledger) (tx : Transaction)
    (events : List Event) (world : σ) :
    (ingestor.offerAll tx events world).value.applied = (ledger world).decisions events := by
  induction events generalizing world with
  | nil => rfl
  | cons event events ih =>
    have rest := ih (ingestor.store.apply event world).2
    rw [keeps.next] at rest
    simp only [offerAll_cons, keeps.answer]
    cases h : ((ledger world).apply event).1 <;>
      simp [IngestReport.add, rest, Ledger.decisions, Ledger.decision?, h, Except.toOption]

/-- The world after transactions were ingested one after the other. -/
def reached (ingestor : Ingestor σ) (world : σ) (txs : List Transaction) : σ :=
  txs.foldl (fun world tx => (ingestor.ingest tx world).world) world

theorem ledger_ingest (keeps : ingestor.store.Keeps ledger) (tx : Transaction) (world : σ) :
    ledger (ingestor.ingest tx world).world =
      (ledger world).deliver (tx.scan ingestor.context).events :=
  ledger_offerAll keeps tx (tx.scan ingestor.context).events world

theorem applied_ingest (keeps : ingestor.store.Keeps ledger) (tx : Transaction) (world : σ) :
    (ingestor.ingest tx world).value.applied =
      (ledger world).decisions (tx.scan ingestor.context).events :=
  applied_offerAll keeps tx (tx.scan ingestor.context).events world

theorem ledger_reached (keeps : ingestor.store.Keeps ledger) (txs : List Transaction) (world : σ) :
    ledger (ingestor.reached world txs) =
      (ledger world).deliver (txs.flatMap fun tx => (tx.scan ingestor.context).events) := by
  induction txs generalizing world with
  | nil => rfl
  | cons tx txs ih =>
    change ledger (ingestor.reached (ingestor.ingest tx world).world txs) = _
    rw [ih, ledger_ingest keeps, List.flatMap_cons, Ledger.deliver_append]

end Ingestor

end LeafLedger
