import LeafLedger.Proofs.Ingest.Attempts
import Mathlib.Order.Bounds.Basic
import Mathlib.Data.Nat.Find

namespace LeafLedger

/-- The delay that a step waits. -/
def Effect.waited? : Effect → Option Duration
  | slept delay => some delay
  | fetched _ | listed .. | offered _ | noted _ => none

/-- The delays that were waited in a trace, in order. -/
def waited (trace : List Effect) : List Duration :=
  trace.filterMap (·.waited?)

@[simp] theorem waited_nil : waited [] = [] :=
  rfl

@[simp] theorem waited_append (earlier later : List Effect) :
    waited (earlier ++ later) = waited earlier ++ waited later :=
  List.filterMap_append

@[simp] theorem waited_cons_fetched (signature : String) (trace : List Effect) :
    waited (.fetched signature :: trace) = waited trace :=
  rfl

@[simp] theorem waited_cons_noted (notice : Notice) (trace : List Effect) :
    waited (.noted notice :: trace) = waited trace :=
  rfl

/-- The delays after the first so many attempts. -/
def RetryPolicy.delays (policy : RetryPolicy) (misses : Nat) : List Duration :=
  (List.range misses).map fun i => policy.delayAfter (i + 1)

/-- What attempts meet, the first being attempt one: whether the run is cancelled when the attempt
starts, and what the source answers to it. -/
structure Course where
  stopped : Nat → Bool
  answer : Nat → Except Error (Option Transaction)

/-- The first of the attempts for which something holds. -/
def IsFirst (p : Nat → Prop) (attempt : Nat) : Prop :=
  IsLeast {i | 1 ≤ i ∧ p i} attempt

theorem exists_isFirst_le {p : Nat → Prop} {attempt : Nat} (counted : 1 ≤ attempt)
    (holds : p attempt) : ∃ first ≤ attempt, IsFirst p first := by
  classical
  have some : ∃ i, 1 ≤ i ∧ p i := ⟨attempt, counted, holds⟩
  exact ⟨Nat.find some, Nat.find_min' some ⟨counted, holds⟩, Nat.find_spec some,
    fun _ => Nat.find_min' some⟩

namespace Course

variable {course other : Course} {attempts : Nat}

/-- The transaction that an attempt brings. An error brings as little as a transaction that is not
known yet. -/
def brought (course : Course) (attempt : Nat) : Option Transaction :=
  (course.answer attempt).toOption.join

/-- The first attempt that brings a transaction is one of those that can be made, and the run is not
cancelled up to it. -/
structure FoundAt (course : Course) (attempts f : Nat) (tx : Transaction) : Prop where
  first : IsFirst (fun i => ∃ tx, course.answer i = .ok (some tx)) f
  brings : course.answer f = .ok (some tx)
  made : f ≤ attempts
  inTime : ∀ c, IsFirst (fun i => course.stopped i = true) c → f < c

/-- The first attempt that is stopped is one of those that can be made, and none before it brings a
transaction. -/
structure StoppedAt (course : Course) (attempts c : Nat) : Prop where
  first : IsFirst (fun i => course.stopped i = true) c
  reached : c ≤ attempts
  inTime : ∀ f, IsFirst (fun i => ∃ tx, course.answer i = .ok (some tx)) f → c ≤ f

/-- The first so many attempts are made and bring nothing. -/
def Misses (course : Course) (misses : Nat) : Prop :=
  ∀ i < misses, course.stopped (i + 1) = false ∧ course.brought (i + 1) = none

/-- The trace of so many misses, each of them with the delay after it. -/
def missed (course : Course) (policy : RetryPolicy) (signature : String) (misses : Nat) :
    List Effect :=
  (List.range misses).flatMap fun i =>
    [.fetched signature, .noted (Source.missNotice signature (i + 1) (course.answer (i + 1))),
      .slept (policy.delayAfter (i + 1))]

theorem brought_eq_some {attempt : Nat} {tx : Transaction} :
    course.brought attempt = some tx ↔ course.answer attempt = .ok (some tx) := by
  rw [brought]
  rcases course.answer attempt with _ | _ | _ <;> simp [Except.toOption]

theorem missed_succ (policy : RetryPolicy) (signature : String) (misses : Nat) :
    course.missed policy signature (misses + 1) = course.missed policy signature misses ++
      [.fetched signature,
        .noted (Source.missNotice signature (misses + 1) (course.answer (misses + 1))),
        .slept (policy.delayAfter (misses + 1))] := by
  rw [missed, List.range_succ, List.flatMap_append, List.flatMap_singleton, missed]

@[simp] theorem asked_missed (policy : RetryPolicy) (signature : String) (misses : Nat) :
    asked (course.missed policy signature misses) = List.replicate misses signature := by
  induction misses with
  | zero => rfl
  | succ misses ih =>
    rw [missed_succ, asked_append, ih, List.replicate_succ']
    rfl

@[simp] theorem waited_missed (policy : RetryPolicy) (signature : String) (misses : Nat) :
    waited (course.missed policy signature misses) = policy.delays misses := by
  induction misses with
  | zero => rfl
  | succ misses ih =>
    rw [missed_succ, waited_append, ih, RetryPolicy.delays, RetryPolicy.delays, List.range_succ,
      List.map_append]
    rfl

/-- Either all attempts miss, or there is one after misses that is stopped or else brings a
transaction. -/
theorem misses_or_ends (course : Course) (attempts : Nat) :
    course.Misses attempts ∨ ∃ misses < attempts, course.Misses misses ∧
      (course.stopped (misses + 1) = true ∨
        course.stopped (misses + 1) = false ∧ ∃ tx, course.brought (misses + 1) = some tx) := by
  induction attempts with
  | zero => exact Or.inl fun i beyond => absurd beyond (Nat.not_lt_zero i)
  | succ attempts ih =>
    rcases ih with quiet | ⟨misses, earlier, ends⟩
    · cases stop : course.stopped (attempts + 1) with
      | true => exact Or.inr ⟨attempts, Nat.lt_succ_self attempts, quiet, Or.inl stop⟩
      | false =>
        cases found : course.brought (attempts + 1) with
        | some tx =>
          exact Or.inr ⟨attempts, Nat.lt_succ_self attempts, quiet, Or.inr ⟨stop, tx, found⟩⟩
        | none =>
          refine Or.inl fun i h => ?_
          rcases Nat.lt_succ_iff_lt_or_eq.mp h with before | rfl
          · exact quiet i before
          · exact ⟨stop, found⟩
    · exact Or.inr ⟨misses, Nat.lt_succ_of_lt earlier, ends⟩

theorem le_of_misses {misses attempt : Nat} (quiet : course.Misses misses) (counted : 1 ≤ attempt)
    (ends : course.stopped attempt = true ∨ ∃ tx, course.brought attempt = some tx) :
    misses + 1 ≤ attempt := by
  by_contra early
  obtain ⟨going, nothing⟩ := quiet (attempt - 1) (by omega)
  rw [Nat.sub_add_cancel counted] at going nothing
  rcases ends with stop | ⟨tx, found⟩
  · simp [going] at stop
  · simp [nothing] at found

/-- What is stopped first is stopped after misses only. -/
theorem stoppedAt_iff {misses : Nat} :
    course.StoppedAt attempts (misses + 1) ↔
      misses < attempts ∧ course.Misses misses ∧ course.stopped (misses + 1) = true := by
  constructor
  · rintro ⟨⟨⟨_, stop⟩, least⟩, reached, inTime⟩
    refine ⟨reached, fun i h => ⟨?_, ?_⟩, stop⟩
    · by_contra other
      have : misses + 1 ≤ i + 1 := least ⟨by omega, by simpa using other⟩
      omega
    · by_contra other
      obtain ⟨tx, found⟩ := Option.ne_none_iff_exists'.mp other
      obtain ⟨f, early, first⟩ := exists_isFirst_le (p := fun i => ∃ tx,
        course.answer i = .ok (some tx)) (Nat.le_add_left 1 i) ⟨tx, brought_eq_some.mp found⟩
      have := inTime f first
      omega
  · rintro ⟨reached, quiet, stop⟩
    refine ⟨⟨⟨by omega, stop⟩, fun i ⟨counted, h⟩ => le_of_misses quiet counted (Or.inl h)⟩,
      reached, fun f ⟨⟨counted, tx, h⟩, _⟩ => ?_⟩
    exact le_of_misses quiet counted (Or.inr ⟨tx, brought_eq_some.mpr h⟩)

/-- What is found is found after misses only. -/
theorem foundAt_iff {misses : Nat} {tx : Transaction} :
    course.FoundAt attempts (misses + 1) tx ↔
      misses < attempts ∧ course.Misses misses ∧ course.stopped (misses + 1) = false ∧
        course.brought (misses + 1) = some tx := by
  constructor
  · rintro ⟨⟨_, least⟩, brings, made, inTime⟩
    have going : ∀ i ≤ misses, course.stopped (i + 1) = false := by
      intro i h
      by_contra other
      obtain ⟨c, early, first⟩ := exists_isFirst_le (p := fun i => course.stopped i = true)
        (Nat.le_add_left 1 i) (by simpa using other)
      have := inTime c first
      omega
    refine ⟨made, fun i h => ⟨going i (by omega), ?_⟩, going misses le_rfl,
      brought_eq_some.mpr brings⟩
    by_contra other
    obtain ⟨tx, found⟩ := Option.ne_none_iff_exists'.mp other
    have : misses + 1 ≤ i + 1 := least ⟨by omega, tx, brought_eq_some.mp found⟩
    omega
  · rintro ⟨made, quiet, going, found⟩
    refine ⟨⟨⟨by omega, tx, brought_eq_some.mp found⟩, fun i ⟨counted, tx, h⟩ => ?_⟩,
      brought_eq_some.mp found, made, fun c ⟨⟨counted, stop⟩, _⟩ => ?_⟩
    · exact le_of_misses quiet counted (Or.inr ⟨tx, brought_eq_some.mpr h⟩)
    · have := le_of_misses quiet counted (Or.inl stop)
      rcases this.eq_or_lt with rfl | later
      · simp [going] at stop
      · exact later

/-- Courses that stop at the same attempts and bring the same transactions. What an attempt that
brings none was answered may differ. -/
def Alike (course other : Course) : Prop :=
  ∀ attempt, course.stopped attempt = other.stopped attempt ∧
    course.brought attempt = other.brought attempt

theorem Misses.alike {misses : Nat} (quiet : course.Misses misses) (alike : course.Alike other) :
    other.Misses misses := by
  intro i h
  rw [← (alike (i + 1)).1, ← (alike (i + 1)).2]
  exact quiet i h

/-- A source that answers by a course. Its world counts the attempts that were made. -/
def source (course : Course) : Source Nat where
  fetch _ made := (course.answer (made + 1), made + 1)
  list _ _ made := (.ok [], made)

/-- Cancellation by a course, in a run that takes no time. -/
def pacing (course : Course) : Pacing Nat where
  sleep _ made := made
  cancelled made := course.stopped (made + 1)

end Course

namespace Source

variable {σ : Type}

/-- The world in which the next attempt starts after so many misses. -/
def afterMisses (source : Source σ) (pacing : Pacing σ) (policy : RetryPolicy) (signature : String)
    (world : σ) : Nat → σ
  | 0 => world
  | misses + 1 =>
    let start := source.afterMisses pacing policy signature world misses
    pacing.sleep (policy.delayAfter (misses + 1)) (source.fetch signature start).2

/-- What the attempts meet that start in a world. -/
def course (source : Source σ) (pacing : Pacing σ) (policy : RetryPolicy) (signature : String)
    (world : σ) : Course where
  stopped attempt :=
    pacing.cancelled (source.afterMisses pacing policy signature world (attempt - 1))
  answer attempt :=
    (source.fetch signature (source.afterMisses pacing policy signature world (attempt - 1))).1

variable {source : Source σ} {pacing : Pacing σ} {policy : RetryPolicy}
variable {signature : String} {world : σ} {left misses : Nat}

@[simp] theorem stopped_course :
    (source.course pacing policy signature world).stopped (misses + 1) =
      pacing.cancelled (source.afterMisses pacing policy signature world misses) :=
  rfl

@[simp] theorem answer_course :
    (source.course pacing policy signature world).answer (misses + 1) =
      (source.fetch signature (source.afterMisses pacing policy signature world misses)).1 :=
  rfl

theorem afterMisses_source (course : Course) (policy : RetryPolicy) (signature : String)
    (misses : Nat) :
    course.source.afterMisses course.pacing policy signature 0 misses = misses := by
  induction misses with
  | zero => rfl
  | succ misses ih =>
    rw [afterMisses, ih]
    rfl

/-- Any answers and any stops are what some attempts meet. -/
theorem course_source (course : Course) (policy : RetryPolicy) (signature : String)
    {attempt : Nat} (counted : 1 ≤ attempt) :
    let met := course.source.course course.pacing policy signature 0
    met.stopped attempt = course.stopped attempt ∧ met.answer attempt = course.answer attempt := by
  obtain ⟨misses, rfl⟩ := Nat.exists_eq_add_of_le' counted
  simp only [stopped_course, answer_course, afterMisses_source]
  exact ⟨rfl, rfl⟩

theorem fetchAttempts_of_stopped (stop : pacing.cancelled world = true) :
    source.fetchAttempts pacing policy signature (left + 1) world =
      ⟨.error (.cancelled signature), [], world⟩ := by
  rw [fetchAttempts_succ, if_pos stop]

theorem fetchAttempts_of_found {tx : Transaction} (going : pacing.cancelled world = false)
    (found : (source.fetch signature world).1 = .ok (some tx)) :
    source.fetchAttempts pacing policy signature (left + 1) world =
      ⟨.ok tx, [.fetched signature], (source.fetch signature world).2⟩ := by
  simp only [fetchAttempts_succ, going, found, Bool.false_eq_true, if_false]

theorem fetchAttempts_of_missed (going : pacing.cancelled world = false)
    (nothing : (source.fetch signature world).1.toOption.join = none) :
    source.fetchAttempts pacing policy signature (left + 1) world =
      let attempt := policy.attempts - left
      let fetched := source.fetch signature world
      let slept := afterMiss pacing (policy.delayAfter attempt) left fetched.2
      let rest := source.fetchAttempts pacing policy signature left slept.1
      ⟨rest.value, .fetched signature :: .noted (missNotice signature attempt fetched.1) ::
        (slept.2 ++ rest.trace), rest.world⟩ := by
  simp only [fetchAttempts_succ, going, Bool.false_eq_true, if_false]
  split
  next tx found => simp [found, Except.toOption] at nothing
  next => rfl

/-- Misses that are not the last attempt leave their trace, and the attempts that are left start in
the world after them. -/
theorem fetchPatiently_of_misses (misses left : Nat)
    (quiet : (source.course pacing policy signature world).Misses misses)
    (enough : misses + (left + 1) = policy.attempts) :
    source.fetchPatiently pacing policy signature world =
      let rest := source.fetchAttempts pacing policy signature (left + 1)
        (source.afterMisses pacing policy signature world misses)
      ⟨rest.value, (source.course pacing policy signature world).missed policy signature misses ++
        rest.trace, rest.world⟩ := by
  induction misses generalizing left with
  | zero =>
    rw [fetchPatiently, ← enough, Nat.zero_add]
    rfl
  | succ misses ih =>
    obtain ⟨going, nothing⟩ := quiet misses (Nat.lt_succ_self misses)
    have number : policy.attempts - (left + 1) = misses + 1 := by omega
    rw [stopped_course] at going
    rw [Course.brought, answer_course] at nothing
    rw [ih (left + 1) (fun i h => quiet i (Nat.lt_succ_of_lt h)) (by omega),
      fetchAttempts_of_missed going nothing, number, Course.missed_succ]
    simp only [afterMiss, Nat.succ_ne_zero, if_false, List.append_assoc]
    rfl

/-- After misses the run ends with an attempt that is stopped. -/
theorem fetchPatiently_of_stopped
    (quiet : (source.course pacing policy signature world).Misses misses)
    (reached : misses < policy.attempts)
    (stop : (source.course pacing policy signature world).stopped (misses + 1) = true) :
    let done := source.fetchPatiently pacing policy signature world
    done.value = .error (.cancelled signature) ∧
      asked done.trace = List.replicate misses signature ∧
      waited done.trace = policy.delays misses ∧
      done.trace =
        (source.course pacing policy signature world).missed policy signature misses := by
  intro done
  have run : done = _ := fetchPatiently_of_misses misses (policy.attempts - (misses + 1)) quiet
    (by omega)
  rw [stopped_course] at stop
  rw [fetchAttempts_of_stopped stop] at run
  simp [run]

/-- After misses the run ends with an attempt that brings the transaction. -/
theorem fetchPatiently_of_found {tx : Transaction}
    (quiet : (source.course pacing policy signature world).Misses misses)
    (made : misses < policy.attempts)
    (going : (source.course pacing policy signature world).stopped (misses + 1) = false)
    (found : (source.course pacing policy signature world).brought (misses + 1) = some tx) :
    let done := source.fetchPatiently pacing policy signature world
    done.value = .ok tx ∧
      asked done.trace = List.replicate (misses + 1) signature ∧
      waited done.trace = policy.delays misses ∧
      done.trace = (source.course pacing policy signature world).missed policy signature misses ++
        [.fetched signature] := by
  intro done
  have run : done = _ := fetchPatiently_of_misses misses (policy.attempts - (misses + 1)) quiet
    (by omega)
  rw [stopped_course] at going
  rw [Course.brought_eq_some, answer_course] at found
  rw [fetchAttempts_of_found going found] at run
  simp [run, List.replicate_succ']

/-- If all attempts miss, the last of them has no delay after it, and the run gives up. -/
theorem fetchPatiently_of_spent
    (quiet : (source.course pacing policy signature world).Misses policy.attempts) :
    let course := source.course pacing policy signature world
    let done := source.fetchPatiently pacing policy signature world
    done.value = .error (.unavailable signature policy.attempts) ∧
      asked done.trace = List.replicate policy.attempts signature ∧
      waited done.trace = policy.delays (policy.attempts - 1) ∧
      done.trace = course.missed policy signature (policy.attempts - 1) ++
        [.fetched signature,
          .noted (missNotice signature policy.attempts (course.answer policy.attempts)),
          .noted (.gaveUp signature policy.attempts)] := by
  intro course done
  obtain ⟨before, last⟩ := Nat.exists_eq_succ_of_ne_zero (attempts_ne_zero policy)
  obtain ⟨going, nothing⟩ := quiet before (by omega)
  have run : done = _ := fetchPatiently_of_misses before 0
    (fun i h => quiet i (by omega)) last.symm
  rw [stopped_course] at going
  rw [Course.brought, answer_course] at nothing
  rw [fetchAttempts_of_missed going nothing] at run
  simp [run, last, afterMiss, fetchAttempts, course, List.replicate_succ']

/-- What an attempt that brings nothing is answered makes no difference. -/
theorem fetchPatiently_of_alike {τ : Type} {other : Source τ} {clock : Pacing τ} {elsewhere : τ}
    (alike : (source.course pacing policy signature world).Alike
      (other.course clock policy signature elsewhere)) :
    let done := source.fetchPatiently pacing policy signature world
    let again := other.fetchPatiently clock policy signature elsewhere
    again.value = done.value ∧ asked again.trace = asked done.trace ∧
      waited again.trace = waited done.trace := by
  -- Both runs end in the same of the three ways, and each way fixes what is compared.
  rcases Course.misses_or_ends _ policy.attempts with quiet | ⟨misses, made, quiet, ends⟩
  · obtain ⟨value, asks, delays, _⟩ := fetchPatiently_of_spent quiet
    obtain ⟨value', asks', delays', _⟩ := fetchPatiently_of_spent (quiet.alike alike)
    exact ⟨value'.trans value.symm, asks'.trans asks.symm, delays'.trans delays.symm⟩
  · obtain ⟨sameStop, sameBrought⟩ := alike (misses + 1)
    rcases ends with stop | ⟨going, tx, brings⟩
    · obtain ⟨value, asks, delays, _⟩ := fetchPatiently_of_stopped quiet made stop
      obtain ⟨value', asks', delays', _⟩ := fetchPatiently_of_stopped (quiet.alike alike) made
        (sameStop ▸ stop)
      exact ⟨value'.trans value.symm, asks'.trans asks.symm, delays'.trans delays.symm⟩
    · obtain ⟨value, asks, delays, _⟩ := fetchPatiently_of_found quiet made going brings
      obtain ⟨value', asks', delays', _⟩ := fetchPatiently_of_found (quiet.alike alike) made
        (sameStop ▸ going) (sameBrought ▸ brings)
      exact ⟨value'.trans value.symm, asks'.trans asks.symm, delays'.trans delays.symm⟩

/-- A patient fetch by what its attempts meet. It ends with the first attempt that brings the
transaction or with the first that is stopped, whichever comes first, or else with the last one that
the policy allows; each attempt before that was made, and each but the last of all has a delay after
it. What an attempt that brings nothing is answered makes no difference. The attempts of some source
meet any answers and any stops that were laid out. -/
theorem fetchPatiently_by_course (source : Source σ) (pacing : Pacing σ) (policy : RetryPolicy)
    (signature : String) (world : σ) :
    let attempts := max 1 policy.maxAttempts
    let course := source.course pacing policy signature world
    let done := source.fetchPatiently pacing policy signature world
    (∀ f tx, course.FoundAt attempts f tx →
      done.value = .ok tx ∧
      asked done.trace = List.replicate f signature ∧ waited done.trace = policy.delays (f - 1) ∧
      done.trace = course.missed policy signature (f - 1) ++ [.fetched signature]) ∧
    (∀ c, course.StoppedAt attempts c →
      done.value = .error (.cancelled signature) ∧
      asked done.trace = List.replicate (c - 1) signature ∧
      waited done.trace = policy.delays (c - 1) ∧
      done.trace = course.missed policy signature (c - 1)) ∧
    ((¬∃ f tx, course.FoundAt attempts f tx) → (¬∃ c, course.StoppedAt attempts c) →
      done.value = .error (.unavailable signature attempts) ∧
      asked done.trace = List.replicate attempts signature ∧
      waited done.trace = policy.delays (attempts - 1) ∧
      done.trace = course.missed policy signature (attempts - 1) ++
        [.fetched signature, .noted (missNotice signature attempts (course.answer attempts)),
          .noted (.gaveUp signature attempts)]) ∧
    (∀ {τ : Type} (other : Source τ) (clock : Pacing τ) (elsewhere : τ),
      course.Alike (other.course clock policy signature elsewhere) →
      let again := other.fetchPatiently clock policy signature elsewhere
      again.value = done.value ∧ asked again.trace = asked done.trace ∧
        waited again.trace = waited done.trace) ∧
    ∀ script : Course, ∀ attempt ≥ 1,
      let met := script.source.course script.pacing policy signature 0
      met.stopped attempt = script.stopped attempt ∧
        met.answer attempt = script.answer attempt := by
  intro attempts course done
  refine ⟨?_, ?_, ?_, ?_, fun script attempt => course_source script policy signature⟩
  · intro f tx found
    obtain ⟨misses, rfl⟩ := Nat.exists_eq_add_of_le' found.first.1.1
    obtain ⟨made, quiet, going, brings⟩ := Course.foundAt_iff.mp found
    exact fetchPatiently_of_found quiet made going brings
  · intro c stops
    obtain ⟨misses, rfl⟩ := Nat.exists_eq_add_of_le' stops.first.1.1
    obtain ⟨reached, quiet, stop⟩ := Course.stoppedAt_iff.mp stops
    exact fetchPatiently_of_stopped quiet reached stop
  · intro notFound notStopped
    rcases course.misses_or_ends attempts with quiet | ⟨misses, made, quiet, ends⟩
    · exact fetchPatiently_of_spent quiet
    · rcases ends with stop | ⟨going, tx, brings⟩
      · exact absurd ⟨misses + 1, Course.stoppedAt_iff.mpr ⟨made, quiet, stop⟩⟩ notStopped
      · exact absurd ⟨misses + 1, tx, Course.foundAt_iff.mpr ⟨made, quiet, going, brings⟩⟩ notFound
  · intro τ other clock elsewhere alike
    exact fetchPatiently_of_alike alike

/-- A run that is cancelled while it waits for the second attempt does not make it. -/
example :
    let course : Course := ⟨fun attempt => decide (2 ≤ attempt), fun _ => .ok none⟩
    (course.source.fetchPatiently course.pacing .standard "a" 0).trace =
      [.fetched "a", .noted (.notFoundYet "a" 1), .slept (.ofMillis 100)] := by
  decide

end Source

end LeafLedger
