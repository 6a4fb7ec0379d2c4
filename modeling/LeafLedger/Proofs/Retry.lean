import LeafLedger.Proofs.Ingest.Course

namespace LeafLedger

namespace Duration

variable {a b : Duration}

theorem nanos_min (a b : Duration) : (a.min b).nanos = Nat.min a.nanos b.nanos := by
  unfold min
  split
  next le => exact (Nat.min_eq_left le).symm
  next gt => exact (Nat.min_eq_right (Nat.le_of_not_le gt)).symm

end Duration

namespace RetryPolicy

variable {policy : RetryPolicy} {attempt : Nat}

theorem one_le_factor (attempt : Nat) : 1 ≤ factor attempt := by
  unfold factor
  split
  next =>
    rw [Nat.one_shiftLeft]
    exact Nat.one_le_two_pow
  next => decide

/-- A product that is too long for a span of time is longer than the longest delay, too. -/
theorem nanos_delayAfter (policy : RetryPolicy) (attempt : Nat) :
    (policy.delayAfter attempt).nanos =
      min (policy.initialDelay.nanos * factor attempt) policy.maxDelay.nanos := by
  unfold delayAfter Duration.times? Duration.ofNanos?
  by_cases fits : policy.initialDelay.nanos * factor attempt < durationBound
  · simp only [fits, dite_true]
    exact Duration.nanos_min _ _
  · have longer := policy.maxDelay.nanos_lt
    simp only [fits, dite_false]
    omega

theorem delayAfter_le (policy : RetryPolicy) (attempt : Nat) :
    (policy.delayAfter attempt).nanos ≤ policy.maxDelay.nanos := by
  rw [nanos_delayAfter]
  exact Nat.min_le_right ..

theorem le_delayAfter (ordered : policy.initialDelay.nanos ≤ policy.maxDelay.nanos)
    (attempt : Nat) : policy.initialDelay.nanos ≤ (policy.delayAfter attempt).nanos := by
  rw [nanos_delayAfter]
  exact Nat.le_min.mpr ⟨Nat.le_mul_of_pos_right _ (one_le_factor attempt), ordered⟩

theorem mem_delays {misses : Nat} {delay : Duration} (mem : delay ∈ policy.delays misses) :
    ∃ attempt, delay = policy.delayAfter attempt := by
  obtain ⟨i, _, rfl⟩ := List.mem_map.mp mem
  exact ⟨i + 1, rfl⟩

theorem length_delays (policy : RetryPolicy) (misses : Nat) :
    (policy.delays misses).length = misses := by
  rw [delays, List.length_map, List.length_range]

end RetryPolicy

namespace Source

variable {σ : Type}

/-- However the attempts end, there are as many as were made, and a delay behind each but the
last of all. -/
theorem exists_asked_waited (source : Source σ) (pacing : Pacing σ) (policy : RetryPolicy)
    (signature : String) (world : σ) :
    let trace := (source.fetchPatiently pacing policy signature world).trace
    ∃ attempts delays, attempts ≤ policy.attempts ∧ delays < policy.attempts ∧
      asked trace = List.replicate attempts signature ∧ waited trace = policy.delays delays := by
  intro trace
  have some : 0 < policy.attempts := Nat.pos_of_ne_zero (attempts_ne_zero policy)
  rcases (source.course pacing policy signature world).misses_or_ends policy.attempts with
    quiet | ⟨misses, made, quiet, ends⟩
  · obtain ⟨_, asks, delays, _⟩ := fetchPatiently_of_spent quiet
    exact ⟨policy.attempts, policy.attempts - 1, le_rfl, Nat.sub_one_lt_of_lt some, asks, delays⟩
  · rcases ends with stop | ⟨going, tx, brings⟩
    · obtain ⟨_, asks, delays, _⟩ := fetchPatiently_of_stopped quiet made stop
      exact ⟨misses, misses, made.le, made, asks, delays⟩
    · obtain ⟨_, asks, delays, _⟩ := fetchPatiently_of_found quiet made going brings
      exact ⟨misses + 1, misses, made, made, asks, delays⟩

end Source

end LeafLedger
