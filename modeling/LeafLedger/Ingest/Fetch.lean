import LeafLedger.Ingest.Activity

namespace LeafLedger

/-- Where transactions come from. A transaction that is not known yet is no error. -/
structure Source (σ : Type) where
  fetch : String → σ → Except Error (Option Transaction) × σ
  list : Address → HistoryQuery → σ → Except Error (List HistoryRow) × σ

/-- How time passes, and whether the run was cancelled. -/
structure Pacing (σ : Type) where
  sleep : Duration → σ → σ
  cancelled : σ → Bool

namespace Source

variable {σ : Type}

/-- Asks once for a transaction. -/
def fetchOnce (source : Source σ) (signature : String) :
    Activity σ (Except Error (Option Transaction)) :=
  .step (.fetched signature) (source.fetch signature)

/-- Asks for one page of a history. -/
def listPage (source : Source σ) (tree : Address) (query : HistoryQuery) :
    Activity σ (Except Error (List HistoryRow)) :=
  .step (.listed tree query) (source.list tree query)

def pause (pacing : Pacing σ) (delay : Duration) : Activity σ Unit :=
  .step (.slept delay) fun world => ((), pacing.sleep delay world)

/-- Makes the attempts that are left. Cancellation is looked at before each of them, and after the
last one there is no delay. -/
def fetchAttempts (source : Source σ) (pacing : Pacing σ) (policy : RetryPolicy)
    (signature : String) : Nat → Activity σ (Except Error Transaction)
  | 0 => do
    .note (.gaveUp signature policy.attempts)
    return .error (.unavailable signature policy.attempts)
  | left + 1 => do
    let attempt := policy.attempts - left
    if ← .observe pacing.cancelled then
      return .error (.cancelled signature)
    match ← source.fetchOnce signature with
    | .ok (some tx) => return .ok tx
    | .ok none => .note (.notFoundYet signature attempt)
    | .error error => .note (.fetchFailed signature attempt error)
    if left ≠ 0 then pause pacing (policy.delayAfter attempt)
    fetchAttempts source pacing policy signature left

/-- Fetches a transaction as patiently as a policy says. -/
def fetchPatiently (source : Source σ) (pacing : Pacing σ) (policy : RetryPolicy)
    (signature : String) : Activity σ (Except Error Transaction) :=
  fetchAttempts source pacing policy signature policy.attempts

end Source

end LeafLedger
