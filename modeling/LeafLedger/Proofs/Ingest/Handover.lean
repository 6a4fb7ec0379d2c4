import LeafLedger.Proofs.Ingest.Attempts

namespace LeafLedger

variable {σ : Type}

/-- The event that a step hands to the store. -/
def Effect.offered? : Effect → Option Event
  | offered event => some event
  | fetched _ | listed .. | slept _ | noted _ => none

/-- The events that were handed to the store in a trace, in order. -/
def offered (trace : List Effect) : List Event :=
  trace.filterMap (·.offered?)

@[simp] theorem offered_nil : offered [] = [] :=
  rfl

@[simp] theorem offered_append (earlier later : List Effect) :
    offered (earlier ++ later) = offered earlier ++ offered later :=
  List.filterMap_append

@[simp] theorem offered_cons_offered (event : Event) (trace : List Effect) :
    offered (.offered event :: trace) = event :: offered trace :=
  rfl

@[simp] theorem offered_cons_noted (notice : Notice) (trace : List Effect) :
    offered (.noted notice :: trace) = offered trace :=
  rfl

@[simp] theorem offered_cons_fetched (signature : String) (trace : List Effect) :
    offered (.fetched signature :: trace) = offered trace :=
  rfl

@[simp] theorem offered_cons_listed (tree : Address) (query : HistoryQuery)
    (trace : List Effect) : offered (.listed tree query :: trace) = offered trace :=
  rfl

@[simp] theorem offered_map_noted (notices : List Notice) :
    offered (notices.map .noted) = [] := by
  induction notices with
  | nil => rfl
  | cons notice notices ih => exact ih

namespace EventStore

/-- What a store answers to events that are handed to it one after the other. -/
def answers (store : EventStore σ) : List Event → σ → List (Except Error Decision)
  | [], _ => []
  | event :: events, world =>
    (store.apply event world).1.1 :: store.answers events (store.apply event world).2

/-- The world after a store was handed events. -/
def after (store : EventStore σ) (events : List Event) (world : σ) : σ :=
  events.foldl (fun world event => (store.apply event world).2) world

theorem length_answers (store : EventStore σ) (events : List Event) (world : σ) :
    (store.answers events world).length = events.length := by
  induction events generalizing world with
  | nil => rfl
  | cons event events ih => rw [answers, List.length_cons, ih, List.length_cons]

end EventStore

/-- The events that were accepted, with the decisions on them. -/
def accepted (events : List Event) (answers : List (Except Error Decision)) :
    List (Event × Decision) :=
  (events.zip answers).filterMap fun (event, answer) => answer.toOption.map (event, ·)

/-- The number of events that were refused. -/
def refused (answers : List (Except Error Decision)) : Nat :=
  answers.countP fun answer => answer.toOption.isNone

theorem length_accepted {events : List Event} {answers : List (Except Error Decision)}
    (each : answers.length = events.length) :
    (accepted events answers).length + refused answers = events.length := by
  induction events generalizing answers with
  | nil =>
    obtain rfl := List.length_eq_zero_iff.mp each
    rfl
  | cons event events ih =>
    obtain ⟨answer, answers, rfl⟩ := List.exists_cons_of_length_eq_add_one each
    have rest := ih (Nat.succ.inj each)
    cases answer <;> simp [accepted, refused, Except.toOption] at rest ⊢ <;> omega

namespace Source

theorem offered_fetchAttempts (source : Source σ) (pacing : Pacing σ) (policy : RetryPolicy)
    (signature : String) (left : Nat) (world : σ) :
    offered (source.fetchAttempts pacing policy signature left world).trace = [] := by
  induction left generalizing world with
  | zero => rfl
  | succ left ih =>
    have silent : ∀ delay next, offered (afterMiss pacing delay left next).2 = [] := by
      intro delay next
      unfold afterMiss
      split <;> rfl
    rw [fetchAttempts_succ]
    split
    next => rfl
    next =>
      simp only
      split
      next => rfl
      next =>
        simp only [offered_cons_fetched, offered_cons_noted, offered_append, silent, ih,
          List.append_nil]

@[simp] theorem offered_fetchPatiently (source : Source σ) (pacing : Pacing σ)
    (policy : RetryPolicy) (signature : String) (world : σ) :
    offered (source.fetchPatiently pacing policy signature world).trace = [] :=
  offered_fetchAttempts source pacing policy signature policy.attempts world

end Source

/-- The report on a transaction whose events got certain answers. -/
def IngestReport.ofAnswers (tx : Transaction) (events : List Event)
    (answers : List (Except Error Decision)) : IngestReport :=
  ⟨tx.signature, tx.slot, accepted events answers, refused answers⟩

namespace Ingestor

variable {ingestor : Ingestor σ}

/-- The events that are found in a transaction. -/
def events (ingestor : Ingestor σ) (tx : Transaction) : List Event :=
  (tx.scan ingestor.context).events

/-- The report on a transaction that is ingested in a world. -/
def report (ingestor : Ingestor σ) (tx : Transaction) (world : σ) : IngestReport :=
  .ofAnswers tx (ingestor.events tx) (ingestor.store.answers (ingestor.events tx) world)

/-- The fetch of the transaction of a signature. -/
def fetch (ingestor : Ingestor σ) (signature : String) (world : σ) :
    Outcome σ (Except Error Transaction) :=
  ingestor.source.fetchPatiently ingestor.pacing ingestor.policy signature world

theorem ending_fetch (ingestor : Ingestor σ) (signature : String) (world : σ) :
    Source.Ending ingestor.source ingestor.pacing ingestor.policy signature
      ingestor.policy.attempts (ingestor.fetch signature world).value :=
  Source.ending_fetchAttempts ..

@[simp] theorem offered_refusal (tx : Transaction) (event : Event)
    (answer : Except Error Decision) : offered (refusal tx event answer) = [] := by
  cases answer <;> rfl

theorem offerAll_of_answers (ingestor : Ingestor σ) (tx : Transaction) (events : List Event)
    (world : σ) :
    let done := ingestor.offerAll tx events world
    done.value = .ofAnswers tx events (ingestor.store.answers events world) ∧
      done.world = ingestor.store.after events world ∧ offered done.trace = events := by
  induction events generalizing world with
  | nil => exact ⟨rfl, rfl, rfl⟩
  | cons event events ih =>
    obtain ⟨value, next, handed⟩ := ih (ingestor.store.apply event world).2
    rw [offerAll_cons]
    refine ⟨?_, next, by simp [handed]⟩
    simp only [value, EventStore.answers, IngestReport.ofAnswers, accepted, refused]
    cases (ingestor.store.apply event world).1.1 <;> simp [IngestReport.add, Except.toOption]

variable {signature : String} {world : σ}

theorem ingestSignature_of_error {error : Error}
    (failed : (ingestor.fetch signature world).value = .error error) :
    let done := ingestor.ingestSignature signature world
    done.value = .error error ∧ done.world = (ingestor.fetch signature world).world ∧
      offered done.trace = [] := by
  unfold fetch at failed ⊢
  simp [ingestSignature_eq, failed]

/-- The events of a transaction that was fetched are handed over one after the other whatever is
answered to them, and the answers make up the report. -/
theorem ingestSignature_of_ok {tx : Transaction}
    (had : (ingestor.fetch signature world).value = .ok tx) :
    let start := (ingestor.fetch signature world).world
    let done := ingestor.ingestSignature signature world
    done.value = .ok (ingestor.report tx start) ∧
      done.world = ingestor.store.after (ingestor.events tx) start ∧
      offered done.trace = ingestor.events tx := by
  intro start done
  obtain ⟨value, next, handed⟩ := ingestor.offerAll_of_answers tx (ingestor.events tx) start
  have step : done = _ := ingestSignature_eq ingestor signature world
  unfold fetch at had
  simp only [had, ingest, Activity.bind_apply, Activity.noteAll_apply] at step
  rw [step]
  refine ⟨congrArg _ value, next, ?_⟩
  rw [offered_append, offered_append, Source.offered_fetchPatiently, offered_map_noted]
  exact handed

end Ingestor

end LeafLedger
