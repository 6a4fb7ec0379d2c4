import LeafLedger.Ingest.Listing
import LeafLedger.Scan

namespace LeafLedger

/-- Where events go. A store may refuse an event, and says what it reports about one. -/
structure EventStore (σ : Type) where
  apply : Event → σ → (Except Error Decision × List Notice) × σ

/-- What one transaction contributed to the store. -/
structure IngestReport where
  signature : String
  slot : UInt64
  applied : List (Event × Decision)
  /-- The number of events that the store refused. -/
  rejected : Nat
  deriving DecidableEq

/-- Adds what became of an event to the front of a report. -/
def IngestReport.add (report : IngestReport) (event : Event) :
    Except Error Decision → IngestReport
  | .ok decision => { report with applied := (event, decision) :: report.applied }
  | .error _ => { report with rejected := report.rejected + 1 }

/-- A transaction of a history that could not be fetched. -/
structure SkippedTransaction where
  signature : String
  slot : UInt64
  reason : String
  deriving DecidableEq

/-- What a backfill came to, and the cursor for the next one. -/
structure BackfillOutcome where
  reports : List IngestReport
  skipped : List SkippedTransaction
  cursor : Cursor
  deriving DecidableEq

/-- Everything that ingesting takes. -/
structure Ingestor (σ : Type) where
  context : ScanContext
  policy : RetryPolicy
  source : Source σ
  pacing : Pacing σ
  store : EventStore σ

namespace Ingestor

variable {σ : Type}

/-- Hands an event to the store. -/
def offer (ingestor : Ingestor σ) (event : Event) : Activity σ (Except Error Decision) := do
  let (answer, notices) ← .step (.offered event) (ingestor.store.apply event)
  .noteAll notices
  return answer

/-- Hands events to the store in order. One that is refused does not keep back the others. -/
def offerAll (ingestor : Ingestor σ) (tx : Transaction) :
    List Event → Activity σ IngestReport
  | [] => return ⟨tx.signature, tx.slot, [], 0⟩
  | event :: events => do
    let answer ← ingestor.offer event
    if let .error error := answer then
      .note (.rejectedEvent tx.signature event.ordinal event.kind error)
    let report ← ingestor.offerAll tx events
    return report.add event answer

/-- Scans a transaction and hands its events to the store. -/
def ingest (ingestor : Ingestor σ) (tx : Transaction) : Activity σ IngestReport := do
  let scan := tx.scan ingestor.context
  .noteAll scan.notices
  ingestor.offerAll tx scan.events

/-- Fetches a transaction and ingests it. -/
def ingestSignature (ingestor : Ingestor σ) (signature : String) :
    Activity σ (Except Error IngestReport) := do
  match ← ingestor.source.fetchPatiently ingestor.pacing ingestor.policy signature with
  | .error error => return .error error
  | .ok tx => return .ok (← ingestor.ingest tx)

/-- Ingests the transactions of rows in order. One that cannot be had is skipped; only cancellation
ends the run. -/
def ingestRows (ingestor : Ingestor σ) (tree : Address) :
    List HistoryRow → Activity σ (Except Error (List IngestReport × List SkippedTransaction))
  | [] => return .ok ([], [])
  | row :: rows => do
    match ← ingestor.ingestSignature row.signature with
    | .ok report =>
      let rest ← ingestor.ingestRows tree rows
      return rest.map fun (reports, skipped) => (report :: reports, skipped)
    | .error (.cancelled signature) => return .error (.cancelled signature)
    | .error error =>
      .note (.skippedTransaction tree row.signature row.slot error)
      let rest ← ingestor.ingestRows tree rows
      return rest.map fun (reports, skipped) =>
        (reports, ⟨row.signature, row.slot, error.message⟩ :: skipped)

/-- Ingests the part of a tree's history that a cursor selects, oldest transaction first. -/
def backfill (ingestor : Ingestor σ) (tree : Address) (cursor : Cursor) (pages : Nat) :
    Activity σ (Option (Except Error BackfillOutcome)) := do
  match ← ingestor.source.listSelected tree cursor Source.mostRows pages with
  | none => return none
  | some (.error error) => return some (.error error)
  | some (.ok rows) =>
    .note (.backfilling tree rows.length)
    let done ← ingestor.ingestRows tree rows
    let newest := rows.getLast?.map (·.signature)
    return some (done.map fun (reports, skipped) =>
      ⟨reports, skipped, cursor.completedThrough newest⟩)

/-- Ingests the transactions of signatures that were notified, each on its own. -/
def drain (ingestor : Ingestor σ) :
    List String → Activity σ (List (Except Error IngestReport))
  | [] => return []
  | signature :: signatures => do
    let report ← ingestor.ingestSignature signature
    let reports ← ingestor.drain signatures
    return report :: reports

end Ingestor

end LeafLedger
