import LeafLedger.Ingest.Ingestor

namespace LeafLedger

namespace Activity

variable {σ α β : Type}

@[simp] theorem pure_apply (a : α) (world : σ) :
    (Pure.pure a : Activity σ α) world = ⟨a, [], world⟩ :=
  rfl

@[simp] theorem bind_apply (first : Activity σ α) (next : α → Activity σ β) (world : σ) :
    (first >>= next) world =
      let done := first world
      let rest := next done.value done.world
      ⟨rest.value, done.trace ++ rest.trace, rest.world⟩ :=
  rfl

@[simp] theorem map_apply (f : α → β) (a : Activity σ α) (world : σ) :
    (f <$> a) world = ⟨f (a world).value, (a world).trace, (a world).world⟩ := by
  rw [map_eq_pure_bind, bind_apply]
  simp

@[simp] theorem observe_apply (f : σ → α) (world : σ) : observe f world = ⟨f world, [], world⟩ :=
  rfl

@[simp] theorem step_apply (effect : Effect) (f : σ → α × σ) (world : σ) :
    step effect f world = ⟨(f world).1, [effect], (f world).2⟩ :=
  rfl

@[simp] theorem note_apply (notice : Notice) (world : σ) :
    note notice world = ⟨(), [.noted notice], world⟩ :=
  rfl

@[simp] theorem noteAll_apply (notices : List Notice) (world : σ) :
    noteAll notices world = ⟨(), notices.map .noted, world⟩ :=
  rfl

end Activity

namespace Source

variable {σ : Type}

/-- What is reported of an attempt that did not bring the transaction. -/
def missNotice (signature : String) (attempt : Nat) : Except Error (Option Transaction) → Notice
  | .ok _ => .notFoundYet signature attempt
  | .error error => .fetchFailed signature attempt error

/-- The world after an attempt that did not bring the transaction, and the step taken to get there:
a delay, unless it was the last attempt. -/
def afterMiss (pacing : Pacing σ) (delay : Duration) (left : Nat) (world : σ) : σ × List Effect :=
  if left = 0 then (world, []) else (pacing.sleep delay world, [.slept delay])

/-- One attempt: it is not made any more after cancellation, and it is the last one if it brings the
transaction. -/
theorem fetchAttempts_succ (source : Source σ) (pacing : Pacing σ) (policy : RetryPolicy)
    (signature : String) (left : Nat) (world : σ) :
    source.fetchAttempts pacing policy signature (left + 1) world =
      if pacing.cancelled world then ⟨.error (.cancelled signature), [], world⟩
      else
        let asked := source.fetch signature world
        match asked.1 with
        | .ok (some tx) => ⟨.ok tx, [.fetched signature], asked.2⟩
        | miss =>
          let attempt := policy.attempts - left
          let waited := afterMiss pacing (policy.delayAfter attempt) left asked.2
          let rest := source.fetchAttempts pacing policy signature left waited.1
          ⟨rest.value, .fetched signature :: .noted (missNotice signature attempt miss) ::
            (waited.2 ++ rest.trace), rest.world⟩ := by
  rw [fetchAttempts]
  cases hc : pacing.cancelled world with
  | true => simp [hc]
  | false =>
    rcases hf : source.fetch signature world with ⟨error | found, next⟩
    · by_cases last : left = 0 <;> simp [hc, hf, fetchOnce, pause, afterMiss, missNotice, last]
    · cases found with
      | some tx => simp [hc, hf, fetchOnce]
      | none =>
        by_cases last : left = 0 <;> simp [hc, hf, fetchOnce, pause, afterMiss, missNotice, last]

/-- One page: an empty one and one that is not full are the last. -/
theorem listPages_succ (source : Source σ) (tree : Address) (found : List HistoryRow)
    (pages : Nat) (query : HistoryQuery) (world : σ) :
    source.listPages tree found (pages + 1) query world =
      let asked := source.list tree query world
      match asked.1 with
      | .error error => ⟨some (.error error), [.listed tree query], asked.2⟩
      | .ok page =>
        match page.getLast? with
        | none => ⟨some (.ok found), [.listed tree query], asked.2⟩
        | some oldest =>
          let seen : List Effect :=
            [.listed tree query, .noted (.historyPage tree page.length oldest.signature)]
          let found := found ++ page.filter (·.succeeded)
          if page.length < query.limit then ⟨some (.ok found), seen, asked.2⟩
          else
            let rest := source.listPages tree found pages
              { query with olderThan := some oldest.signature } asked.2
            ⟨rest.value, seen ++ rest.trace, rest.world⟩ := by
  rcases hl : source.list tree query world with ⟨error | page, next⟩
  · simp [listPages, listPage, hl]
  · cases ho : page.getLast? with
    | none => simp [listPages, listPage, hl, ho]
    | some oldest =>
      by_cases short : page.length < query.limit <;> simp [listPages, listPage, hl, ho, short]

/-- A listing is the walk from the first query of the cursor, turned over. -/
theorem listSelected_eq (source : Source σ) (tree : Address) (cursor : Cursor) (size pages : Nat)
    (world : σ) :
    source.listSelected tree cursor size pages world =
      let walked := source.listPages tree [] pages (cursor.initialQuery (pageSize size)) world
      ⟨walked.value.map (·.map List.reverse), walked.trace, walked.world⟩ := by
  rw [listSelected, bind_pure_comp, Activity.map_apply]

end Source

namespace Ingestor

variable {σ : Type}

/-- What is reported of an event that the store refused. -/
def refusal (tx : Transaction) (event : Event) : Except Error Decision → List Effect
  | .ok _ => []
  | .error error => [.noted (.rejectedEvent tx.signature event.ordinal event.kind error)]

/-- One event: the store answers, and the events after it find what it left behind. -/
theorem offerAll_cons (ingestor : Ingestor σ) (tx : Transaction) (event : Event)
    (events : List Event) (world : σ) :
    ingestor.offerAll tx (event :: events) world =
      let offered := ingestor.store.apply event world
      let rest := ingestor.offerAll tx events offered.2
      ⟨rest.value.add event offered.1.1,
        .offered event :: (offered.1.2.map .noted ++ (refusal tx event offered.1.1 ++ rest.trace)),
        rest.world⟩ := by
  rw [offerAll]
  rcases h : ingestor.store.apply event world with ⟨⟨error | decision, notices⟩, next⟩ <;>
    simp [offer, h, refusal]

/-- A transaction that was fetched is ingested. -/
theorem ingestSignature_eq (ingestor : Ingestor σ) (signature : String) (world : σ) :
    ingestor.ingestSignature signature world =
      let fetched := ingestor.source.fetchPatiently ingestor.pacing ingestor.policy signature world
      match fetched.value with
      | .error error => ⟨.error error, fetched.trace, fetched.world⟩
      | .ok tx =>
        let done := ingestor.ingest tx fetched.world
        ⟨.ok done.value, fetched.trace ++ done.trace, done.world⟩ := by
  rw [ingestSignature]
  cases hv : (ingestor.source.fetchPatiently ingestor.pacing ingestor.policy signature world).value
  <;> simp [hv]

/-- One row: its transaction is reported, or it ends the run, or it is skipped. -/
theorem ingestRows_cons (ingestor : Ingestor σ) (tree : Address) (row : HistoryRow)
    (rows : List HistoryRow) (world : σ) :
    ingestor.ingestRows tree (row :: rows) world =
      let one := ingestor.ingestSignature row.signature world
      match one.value with
      | .ok report =>
        let rest := ingestor.ingestRows tree rows one.world
        ⟨rest.value.map fun (reports, skipped) => (report :: reports, skipped),
          one.trace ++ rest.trace, rest.world⟩
      | .error (.cancelled signature) => ⟨.error (.cancelled signature), one.trace, one.world⟩
      | .error error =>
        let rest := ingestor.ingestRows tree rows one.world
        ⟨rest.value.map fun (reports, skipped) =>
            (reports, ⟨row.signature, row.slot, error.message⟩ :: skipped),
          one.trace ++ .noted (.skippedTransaction tree row.signature row.slot error) :: rest.trace,
          rest.world⟩ := by
  rw [ingestRows]
  cases hv : (ingestor.ingestSignature row.signature world).value with
  | ok report => simp [hv]
  | error error => cases error <;> simp [hv]

/-- The rows that were selected are ingested, and the newest of them sets the cursor. -/
theorem backfill_eq (ingestor : Ingestor σ) (tree : Address) (cursor : Cursor) (pages : Nat)
    (world : σ) :
    ingestor.backfill tree cursor pages world =
      let listed := ingestor.source.listSelected tree cursor Source.mostRows pages world
      match listed.value with
      | none => ⟨none, listed.trace, listed.world⟩
      | some (.error error) => ⟨some (.error error), listed.trace, listed.world⟩
      | some (.ok rows) =>
        let done := ingestor.ingestRows tree rows listed.world
        ⟨some (done.value.map fun (reports, skipped) =>
            ⟨reports, skipped, cursor.completedThrough (rows.getLast?.map (·.signature))⟩),
          listed.trace ++ .noted (.backfilling tree rows.length) :: done.trace, done.world⟩ := by
  rw [backfill]
  rcases hv : (ingestor.source.listSelected tree cursor Source.mostRows pages world).value
    with _ | _ | rows <;> simp [hv]

/-- A backfill that succeeds listed its rows and ingested them. -/
theorem backfill_of_success {ingestor : Ingestor σ} {tree : Address} {cursor : Cursor} {pages : Nat}
    {world : σ} {outcome : BackfillOutcome}
    (success : (ingestor.backfill tree cursor pages world).value = some (.ok outcome)) :
    let listed := ingestor.source.listSelected tree cursor Source.mostRows pages world
    ∃ rows, listed.value = some (.ok rows) ∧
      (ingestor.ingestRows tree rows listed.world).value = .ok (outcome.reports, outcome.skipped) ∧
      outcome.cursor = cursor.completedThrough (rows.getLast?.map (·.signature)) ∧
      (ingestor.backfill tree cursor pages world).trace = listed.trace ++
        .noted (.backfilling tree rows.length) ::
          (ingestor.ingestRows tree rows listed.world).trace := by
  have step := backfill_eq ingestor tree cursor pages world
  rcases hl : (ingestor.source.listSelected tree cursor Source.mostRows pages world).value
    with _ | _ | rows
  · simp [step, hl] at success
  · simp [step, hl] at success
  · simp only [hl] at step
    rcases hr : (ingestor.ingestRows tree rows (ingestor.source.listSelected tree cursor
      Source.mostRows pages world).world).value with _ | ⟨reports, skipped⟩
    · simp [step, hr, Except.map] at success
    · simp only [step, hr, Except.map, Option.some.injEq, Except.ok.injEq] at success
      subst success
      exact ⟨rows, hl, hr, rfl, congrArg Outcome.trace step⟩

end Ingestor

end LeafLedger
