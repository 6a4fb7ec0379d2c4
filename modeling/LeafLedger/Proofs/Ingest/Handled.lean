import LeafLedger.Proofs.Ingest.Attempts

namespace LeafLedger

/-- The signatures that a trace takes up, in order and each time that it does. A fetch right after a
delay is one more attempt at the signature that was taken up last. -/
def handled : List Effect → List String
  | [] => []
  | .slept _ :: .fetched _ :: trace => handled trace
  | .fetched signature :: trace => signature :: handled trace
  | _ :: trace => handled trace

@[simp] theorem handled_nil : handled [] = [] :=
  rfl

@[simp] theorem handled_cons_fetched (signature : String) (trace : List Effect) :
    handled (.fetched signature :: trace) = signature :: handled trace :=
  rfl

@[simp] theorem handled_cons_noted (notice : Notice) (trace : List Effect) :
    handled (.noted notice :: trace) = handled trace :=
  rfl

@[simp] theorem handled_again (delay : Duration) (signature : String) (trace : List Effect) :
    handled (.slept delay :: .fetched signature :: trace) = handled trace :=
  rfl

/-- Whether a step neither fetches nor waits. -/
def Effect.isStill : Effect → Bool
  | listed .. | offered _ | noted _ => true
  | fetched _ | slept _ => false

theorem handled_append_of_still {trace : List Effect} (still : trace.all (·.isStill))
    (later : List Effect) : handled (trace ++ later) = handled later := by
  induction trace with
  | nil => rfl
  | cons effect trace ih =>
    obtain ⟨here, rest⟩ : effect.isStill = true ∧ trace.all (·.isStill) := by simpa using still
    cases effect with
    | fetched | slept => cases here
    | listed | offered | noted => exact ih rest

namespace Source

variable {σ : Type} {source : Source σ} {pacing : Pacing σ} {policy : RetryPolicy}
variable {signature : String}

/-- Attempts that follow a delay take up nothing, if they are not cancelled. -/
theorem handled_after_delay {left : Nat} {world : σ} (delay : Duration)
    (goesOn : (source.fetchAttempts pacing policy signature left world).value ≠
      .error (.cancelled signature)) (later : List Effect) :
    handled (.slept delay :: ((source.fetchAttempts pacing policy signature left world).trace ++
      later)) = handled later := by
  induction left generalizing world delay with
  | zero => rfl
  | succ left ih =>
    rw [fetchAttempts_succ] at goesOn ⊢
    split at goesOn
    next => exact absurd rfl goesOn
    next going =>
      rw [if_neg going]
      simp only at goesOn ⊢
      split at goesOn
      next tx brought => simp
      next missed =>
        simp only [List.cons_append, handled_again, handled_cons_noted, List.append_assoc]
        by_cases last : left = 0
        · subst last
          rfl
        · simp only [afterMiss, if_neg last, List.singleton_append] at goesOn ⊢
          exact ih _ goesOn

/-- The first of attempts that are not cancelled is made. -/
theorem exists_trace_eq_fetched {left : Nat} {world : σ}
    (goesOn : (source.fetchAttempts pacing policy signature (left + 1) world).value ≠
      .error (.cancelled signature)) :
    ∃ rest, (source.fetchAttempts pacing policy signature (left + 1) world).trace =
      .fetched signature :: rest := by
  rw [fetchAttempts_succ] at goesOn ⊢
  split at goesOn
  next => exact absurd rfl goesOn
  next going =>
    rw [if_neg going]
    simp only
    split <;> exact ⟨_, rfl⟩

/-- A patient fetch that is not cancelled takes up its signature once, however many attempts it
makes. -/
theorem handled_fetchPatiently {world : σ}
    (goesOn : (source.fetchPatiently pacing policy signature world).value ≠
      .error (.cancelled signature)) (later : List Effect) :
    handled ((source.fetchPatiently pacing policy signature world).trace ++ later) =
      signature :: handled later := by
  obtain ⟨left, attempts⟩ := Nat.exists_eq_succ_of_ne_zero (attempts_ne_zero policy)
  rw [fetchPatiently, attempts] at goesOn ⊢
  obtain ⟨rest, made⟩ := exists_trace_eq_fetched goesOn
  -- Behind a delay the same trace takes up nothing, so all that it takes up is in its first step.
  have behind := handled_after_delay (.ofMillis 0) goesOn later
  rw [made, List.cons_append, handled_again] at behind
  rw [made, List.cons_append, handled_cons_fetched, behind]

end Source

namespace Ingestor

variable {σ : Type}

theorem isStill_map_noted (notices : List Notice) :
    (notices.map Effect.noted).all (·.isStill) = true := by
  simp [Effect.isStill]

theorem isStill_offerAll (ingestor : Ingestor σ) (tx : Transaction) (events : List Event)
    (world : σ) : (ingestor.offerAll tx events world).trace.all (·.isStill) = true := by
  induction events generalizing world with
  | nil => rfl
  | cons event events ih =>
    have refused : (refusal tx event (ingestor.store.apply event world).1.1).all (·.isStill) := by
      cases (ingestor.store.apply event world).1.1 <;> rfl
    rw [offerAll_cons]
    simp only [List.all_cons, List.all_append, isStill_map_noted, refused, ih]
    rfl

theorem isStill_ingest (ingestor : Ingestor σ) (tx : Transaction) (world : σ) :
    (ingestor.ingest tx world).trace.all (·.isStill) = true := by
  simp only [ingest, Activity.bind_apply, Activity.noteAll_apply, List.all_append,
    isStill_map_noted, isStill_offerAll]
  rfl

theorem handled_ingestSignature {ingestor : Ingestor σ} {signature : String} {world : σ}
    (goesOn : (ingestor.source.fetchPatiently ingestor.pacing ingestor.policy signature
      world).value ≠ .error (.cancelled signature)) (later : List Effect) :
    handled ((ingestor.ingestSignature signature world).trace ++ later) =
      signature :: handled later := by
  have taken := Source.handled_fetchPatiently goesOn
  rw [ingestSignature_eq]
  cases hv : (ingestor.source.fetchPatiently ingestor.pacing ingestor.policy signature world).value
    with
  | error error => simp only [hv, taken]
  | ok tx =>
    simp only [hv]
    rw [List.append_assoc, taken, handled_append_of_still (ingestor.isStill_ingest tx _)]

end Ingestor

end LeafLedger
