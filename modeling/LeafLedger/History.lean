import LeafLedger.Json.Record

namespace LeafLedger

open Json

/-- A row of a history. A transaction that failed has its failure in `err`. -/
structure HistoryRow where
  signature : String
  slot : UInt64
  err : Option Json
  blockTime : Option Int64

/-- Which part of a history to list: the rows between two signatures, the newest of them first, at
most `limit` of them. -/
structure HistoryQuery where
  olderThan : Option String
  newerThan : Option String
  limit : Nat
  deriving DecidableEq

/-- How far the history of a tree was worked through. -/
structure Cursor where
  lastProcessed : Option String
  genesisReached : Bool
  deriving DecidableEq

namespace HistoryRow

/-- Whether the transaction succeeded. -/
def succeeded (row : HistoryRow) : Bool :=
  row.err.isNone

def form : Form HistoryRow :=
  let signature := Field.required "signature" .string
  let slot := Field.required "slot" .uint64
  let err := Field.optionalOrCut "err" .any
  let blockTime := Field.optionalOrCut "blockTime" .int64
  .record "SignatureInfo" [signature.entry, slot.entry, err.entry, blockTime.entry] fun given => do
    return {
      signature := ← signature.take given
      slot := ← slot.take given
      err := ← err.take given
      blockTime := ← blockTime.take given }

def ofJson (value : Json) : Except Json.Fault HistoryRow :=
  ofValue (form.ofJson value)

def listOfJson (value : Json) : Except Json.Fault (List HistoryRow) :=
  ofValue ((Form.list form).ofJson value)

end HistoryRow

namespace Cursor

def start : Cursor :=
  ⟨none, false⟩

def form : Form Cursor :=
  let lastProcessed := Field.optional "last_processed_signature" .string
  let genesisReached := Field.required "genesis_backfill_completed" .bool
  .record "BackfillCursor" [lastProcessed.entry, genesisReached.entry] fun given => do
    return {
      lastProcessed := ← lastProcessed.take given
      genesisReached := ← genesisReached.take given }

def ofJson (value : Json) : Except Json.Fault Cursor :=
  ofValue (form.ofJson value)

def ofText (text : String) : Except Json.Fault Cursor :=
  form.ofText text

def toJson (cursor : Cursor) : Json :=
  .object [
    ("last_processed_signature", .ofOption .string cursor.lastProcessed),
    ("genesis_backfill_completed", .bool cursor.genesisReached)]

/-- What to list first. Once the oldest transaction was reached only newer ones are of interest;
until then the walk goes on backwards from where it stopped. -/
def initialQuery (cursor : Cursor) (limit : Nat) : HistoryQuery :=
  if cursor.genesisReached then ⟨none, cursor.lastProcessed, limit⟩
  else ⟨cursor.lastProcessed, none, limit⟩

/-- The cursor after a complete run whose newest transaction is given. A run that found nothing
keeps the place of the run before. -/
def completedThrough (newest : Option String) (previous : Cursor) : Cursor :=
  ⟨newest <|> previous.lastProcessed, true⟩

end Cursor

namespace HistoryQuery

def toJson (query : HistoryQuery) : Json :=
  .object [
    ("before", .ofOption .string query.olderThan),
    ("until", .ofOption .string query.newerThan),
    ("limit", .ofNat query.limit)]

/-- The rows that a query selects, without its limit. -/
def select (query : HistoryQuery) (history : List HistoryRow) : List HistoryRow :=
  let older :=
    match query.olderThan with
    | none => history
    | some signature => (history.dropWhile (·.signature != signature)).drop 1
  match query.newerThan with
  | none => older
  | some signature => older.takeWhile (·.signature != signature)

/-- The page that answers a query. -/
def page (query : HistoryQuery) (history : List HistoryRow) : List HistoryRow :=
  (query.select history).take query.limit

end HistoryQuery

end LeafLedger
