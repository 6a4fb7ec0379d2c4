import LeafLedger.Proofs.Ingest.Steps

namespace LeafLedger

/-- The signature that a step asks for. -/
def Effect.asked? : Effect → Option String
  | fetched signature => some signature
  | listed .. | slept _ | offered _ | noted _ => none

/-- The signatures that were asked for in a trace, each time that they were. -/
def asked (trace : List Effect) : List String :=
  trace.filterMap (·.asked?)

@[simp] theorem asked_nil : asked [] = [] :=
  rfl

@[simp] theorem asked_append (earlier later : List Effect) :
    asked (earlier ++ later) = asked earlier ++ asked later :=
  List.filterMap_append

@[simp] theorem asked_cons_fetched (signature : String) (trace : List Effect) :
    asked (.fetched signature :: trace) = signature :: asked trace :=
  rfl

@[simp] theorem asked_cons_noted (notice : Notice) (trace : List Effect) :
    asked (.noted notice :: trace) = asked trace :=
  rfl

namespace Source

variable {σ : Type} {source : Source σ} {pacing : Pacing σ} {policy : RetryPolicy}
variable {signature : String}

/-- Attempts end with cancellation, with the transaction of some answer, or without one: then no
answer brought it, unless no attempt was left to make. -/
inductive Ending (source : Source σ) (pacing : Pacing σ) (policy : RetryPolicy)
    (signature : String) (left : Nat) : Except Error Transaction → Prop
  | cancelled (world : σ) (h : pacing.cancelled world = true) :
    Ending source pacing policy signature left (.error (.cancelled signature))
  | unavailable (h : left ≠ 0 → ∃ world, ∀ tx, (source.fetch signature world).1 ≠ .ok (some tx)) :
    Ending source pacing policy signature left (.error (.unavailable signature policy.attempts))
  | found (tx : Transaction) (world : σ) (h : (source.fetch signature world).1 = .ok (some tx)) :
    Ending source pacing policy signature left (.ok tx)

theorem ending_fetchAttempts (source : Source σ) (pacing : Pacing σ) (policy : RetryPolicy)
    (signature : String) (left : Nat) (world : σ) :
    Ending source pacing policy signature left
      (source.fetchAttempts pacing policy signature left world).value := by
  induction left generalizing world with
  | zero => exact .unavailable fun h => absurd rfl h
  | succ left ih =>
    rw [fetchAttempts_succ]
    split
    next stopped => exact .cancelled world stopped
    next =>
      simp only
      split
      next tx brought => exact .found tx world brought
      next missed =>
        -- The ending is that of the attempts left; if there are none, this one brought nothing.
        have rest := ih (afterMiss pacing (policy.delayAfter (policy.attempts - left)) left
          (source.fetch signature world).2).1
        generalize (source.fetchAttempts pacing policy signature left _).value = value at rest
        cases rest with
        | cancelled world h => exact .cancelled world h
        | unavailable => exact .unavailable fun _ => ⟨world, missed⟩
        | found tx world h => exact .found tx world h

/-- What neither asking nor waiting changes is the same after all attempts. -/
theorem view_fetchAttempts {β : Type} (view : σ → β)
    (fetch : ∀ world, view (source.fetch signature world).2 = view world)
    (sleep : ∀ delay world, view (pacing.sleep delay world) = view world) (left : Nat) (world : σ) :
    view (source.fetchAttempts pacing policy signature left world).world = view world := by
  induction left generalizing world with
  | zero => rfl
  | succ left ih =>
    have waited : ∀ delay, view (afterMiss pacing delay left (source.fetch signature world).2).1 =
        view world := by
      intro delay
      unfold afterMiss
      split
      next => exact fetch world
      next => rw [sleep, fetch]
    rw [fetchAttempts_succ]
    split
    next => rfl
    next =>
      simp only
      split
      next => exact fetch world
      next => rw [ih, waited]

theorem attempts_ne_zero (policy : RetryPolicy) : policy.attempts ≠ 0 :=
  Nat.ne_of_gt (Nat.le_max_left 1 policy.maxAttempts)

end Source

end LeafLedger
