import LeafLedger.Ingest.Fetch

namespace LeafLedger

namespace Source

variable {σ : Type}

/-- The most rows that a page can have. -/
def mostRows : Nat :=
  1000

/-- A page size within the limits. -/
def pageSize (asked : Nat) : Nat :=
  max 1 (min asked mostRows)

/-- Lists on from a query, with the rows found so far, newest first. A page that is not full is the
last one. How many pages there are is up to the source, so there is no answer if the number of pages
that may be asked for does not suffice. -/
def listPages (source : Source σ) (tree : Address) (found : List HistoryRow) :
    Nat → HistoryQuery → Activity σ (Option (Except Error (List HistoryRow)))
  | 0, _ => return none
  | pages + 1, query => do
    match ← source.listPage tree query with
    | .error error => return some (.error error)
    | .ok page =>
      match page.getLast? with
      | none => return some (.ok found)
      | some oldest =>
        .note (.historyPage tree page.length oldest.signature)
        let found := found ++ page.filter (·.succeeded)
        if page.length < query.limit then return some (.ok found)
        else source.listPages tree found pages { query with olderThan := some oldest.signature }

/-- The rows that a cursor selects, oldest first, those of failed transactions left out. -/
def listSelected (source : Source σ) (tree : Address) (cursor : Cursor) (asked pages : Nat) :
    Activity σ (Option (Except Error (List HistoryRow))) := do
  let found ← source.listPages tree [] pages (cursor.initialQuery (pageSize asked))
  return found.map (·.map List.reverse)

end Source

end LeafLedger
