namespace LeafLedger

/-- The nanoseconds of a second. -/
def nanosPerSecond : Nat :=
  1000000000

/-- The nanoseconds of a millisecond. -/
def nanosPerMilli : Nat :=
  1000000

/-- The least number of nanoseconds whose seconds take more than sixty-four bits. -/
def durationBound : Nat :=
  UInt64.size * nanosPerSecond

/-- A span of time in nanoseconds. -/
structure Duration where
  nanos : Nat
  nanos_lt : nanos < durationBound
  deriving DecidableEq

namespace Duration

/-- A span of whole milliseconds. -/
def ofMillis (n : UInt64) : Duration :=
  ⟨n.toNat * nanosPerMilli, by
    have h := n.toNat_lt_size
    unfold nanosPerMilli durationBound nanosPerSecond
    omega⟩

/-- The span of so many nanoseconds, if it is not too long. -/
def ofNanos? (n : Nat) : Option Duration :=
  if h : n < durationBound then some ⟨n, h⟩ else none

/-- The whole seconds of a span. -/
def seconds (d : Duration) : Nat :=
  d.nanos / nanosPerSecond

/-- What a span has beyond its whole seconds. -/
def subsecondNanos (d : Duration) : Nat :=
  d.nanos % nanosPerSecond

/-- So many times a span, if that is not too long. -/
def times? (d : Duration) (n : Nat) : Option Duration :=
  ofNanos? (d.nanos * n)

/-- The shorter of two spans. -/
def min (a b : Duration) : Duration :=
  if a.nanos ≤ b.nanos then a else b

end Duration

/-- A bounded number of attempts with growing delays between them. -/
structure RetryPolicy where
  maxAttempts : Nat
  initialDelay : Duration
  maxDelay : Duration
  deriving DecidableEq

namespace RetryPolicy

/-- Eight attempts, delays from a tenth of a second up to five seconds. -/
def standard : RetryPolicy :=
  ⟨8, .ofMillis 100, .ofMillis 5000⟩

/-- How much longer than the initial one the delay after an attempt is: twice as long after each
further attempt, as long as thirty-two bits hold the factor, and then the greatest that they
hold. -/
def factor (attempt : Nat) : Nat :=
  if attempt - 1 < 32 then 1 <<< (attempt - 1) else UInt32.size - 1

/-- The delay after an attempt, the first being attempt one. -/
def delayAfter (policy : RetryPolicy) (attempt : Nat) : Duration :=
  match policy.initialDelay.times? (factor attempt) with
  | some delay => delay.min policy.maxDelay
  | none => policy.maxDelay

/-- The number of attempts: at least one is always made. -/
def attempts (policy : RetryPolicy) : Nat :=
  max 1 policy.maxAttempts

end RetryPolicy

end LeafLedger
