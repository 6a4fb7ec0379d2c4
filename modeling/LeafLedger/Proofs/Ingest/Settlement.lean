import LeafLedger.Proofs.Ingest.Handled
import LeafLedger.Proofs.Ingest.Handover
import LeafLedger.Proofs.Scan.LeafSource

namespace LeafLedger

variable {σ : Type}

namespace Source

variable {source : Source σ}

theorem pageSize_mostRows : pageSize mostRows = mostRows :=
  rfl

/-- A walk through a history from a query on, page by page: it ends with a page that could not be
had, or with one that is empty or not full. What it finds are the rows of transactions that
succeeded, newest first. -/
inductive Walk (source : Source σ) (tree : Address) :
    HistoryQuery → σ → Except Error (List HistoryRow) → σ → Prop
  | failed {query : HistoryQuery} {world next : σ} {error : Error}
    (answer : source.list tree query world = (.error error, next)) :
    Walk source tree query world (.error error) next
  | last {query : HistoryQuery} {world next : σ} {page : List HistoryRow}
    (answer : source.list tree query world = (.ok page, next))
    (short : page = [] ∨ page.length < query.limit) :
    Walk source tree query world (.ok (page.filter (·.succeeded))) next
  | more {query : HistoryQuery} {world next last : σ} {page : List HistoryRow}
    {oldest : HistoryRow} {listing : Except Error (List HistoryRow)}
    (answer : source.list tree query world = (.ok page, next))
    (full : query.limit ≤ page.length) (end_eq : page.getLast? = some oldest)
    (rest : Walk source tree { query with olderThan := some oldest.signature } next listing last) :
    Walk source tree query world (listing.map (page.filter (·.succeeded) ++ ·)) last

/-- Enough pages are as many as the walk has, and what it finds comes behind what was found before
it. -/
theorem Walk.listPages {tree : Address} {query : HistoryQuery} {world last : σ}
    {listing : Except Error (List HistoryRow)} (walk : source.Walk tree query world listing last) :
    ∃ enough, ∀ pages ≥ enough, ∀ found,
      let walked := source.listPages tree found pages query world
      walked.value = some (listing.map (found ++ ·)) ∧ walked.world = last ∧
        offered walked.trace = [] := by
  induction walk with
  | failed answer =>
    refine ⟨1, fun pages enough found => ?_⟩
    obtain ⟨pages, rfl⟩ := Nat.exists_eq_add_of_le' enough
    simp [listPages_succ, answer, Except.map]
  | @last query world next page answer short =>
    refine ⟨1, fun pages enough found => ?_⟩
    obtain ⟨pages, rfl⟩ := Nat.exists_eq_add_of_le' enough
    cases end_eq : page.getLast? with
    | none =>
      obtain rfl := List.getLast?_eq_none_iff.mp end_eq
      simp [listPages_succ, answer, Except.map]
    | some oldest =>
      have nonempty : page ≠ [] := by
        rintro rfl
        cases end_eq
      simp [listPages_succ, answer, end_eq, short.resolve_left nonempty, Except.map]
  | @more query world next last page oldest listing answer full end_eq rest ih =>
    obtain ⟨enough, ends⟩ := ih
    refine ⟨enough + 1, fun pages more found => ?_⟩
    obtain ⟨pages, rfl⟩ := Nat.exists_eq_add_of_le' (Nat.le_trans (Nat.le_add_left 1 enough) more)
    obtain ⟨value, world, silent⟩ := ends pages (Nat.le_of_succ_le_succ more)
      (found ++ page.filter (·.succeeded))
    simp only [listPages_succ, answer, end_eq, if_neg (Nat.not_lt.mpr full)]
    refine ⟨?_, world, ?_⟩
    · rw [value]
      cases listing <;> simp [Except.map]
    · simp [silent]

theorem Walk.listSelected {tree : Address} {cursor : Cursor} {world last : σ}
    {listing : Except Error (List HistoryRow)}
    (walk : source.Walk tree (cursor.initialQuery mostRows) world listing last) :
    ∃ enough, ∀ pages ≥ enough,
      let listed := source.listSelected tree cursor mostRows pages world
      listed.value = some (listing.map List.reverse) ∧ listed.world = last ∧
        offered listed.trace = [] := by
  obtain ⟨enough, ends⟩ := walk.listPages
  refine ⟨enough, fun pages more => ?_⟩
  obtain ⟨value, next, silent⟩ := ends pages more []
  rw [listSelected_eq, pageSize_mostRows]
  refine ⟨?_, next, silent⟩
  simp only [value]
  cases listing <;> simp [Except.map]

end Source

namespace Ingestor

variable {ingestor : Ingestor σ} {world : σ}

/-- What becomes of a row in a world: its transaction is reported or skipped, the store is handed
events, and a world is left behind. -/
inductive Settles (ingestor : Ingestor σ) (row : HistoryRow) (world : σ) :
    IngestReport ⊕ SkippedTransaction → List Event → σ → Prop
  | reported (tx : Transaction) (had : (ingestor.fetch row.signature world).value = .ok tx) :
    Settles ingestor row world
      (.inl (ingestor.report tx (ingestor.fetch row.signature world).world))
      (ingestor.events tx)
      (ingestor.store.after (ingestor.events tx) (ingestor.fetch row.signature world).world)
  | skipped (missing : (ingestor.fetch row.signature world).value =
      .error (.unavailable row.signature ingestor.policy.attempts)) :
    Settles ingestor row world
      (.inr ⟨row.signature, row.slot,
        (Error.unavailable row.signature ingestor.policy.attempts).message⟩)
      [] (ingestor.fetch row.signature world).world

/-- Rows are settled in order, each in the world that the one before it left behind. -/
inductive SettlesAll (ingestor : Ingestor σ) : List HistoryRow → σ →
    List (IngestReport ⊕ SkippedTransaction) → List Event → σ → Prop
  | nil (world : σ) : SettlesAll ingestor [] world [] [] world
  | cons {row : HistoryRow} {rows : List HistoryRow} {world next last : σ}
    {entry : IngestReport ⊕ SkippedTransaction} {events later : List Event}
    {entries : List (IngestReport ⊕ SkippedTransaction)}
    (one : Settles ingestor row world entry events next)
    (rest : SettlesAll ingestor rows next entries later last) :
    SettlesAll ingestor (row :: rows) world (entry :: entries) (events ++ later) last

/-- The fetch for a row is cancelled, after the rows before it were settled with certain events. -/
def CancelledAt (ingestor : Ingestor σ) (rows : List HistoryRow) (world : σ) (row : HistoryRow)
    (events : List Event) : Prop :=
  ∃ earlier later entries last, rows = earlier ++ row :: later ∧
    ingestor.SettlesAll earlier world entries events last ∧
    (ingestor.fetch row.signature last).value = .error (.cancelled row.signature)

/-- The entries of rows that were settled, parted into reports and what was skipped. -/
def parted (entries : List (IngestReport ⊕ SkippedTransaction)) :
    List IngestReport × List SkippedTransaction :=
  (entries.filterMap Sum.getLeft?, entries.filterMap Sum.getRight?)

theorem Settles.goesOn {row : HistoryRow} {entry : IngestReport ⊕ SkippedTransaction}
    {events : List Event} {next : σ} (one : ingestor.Settles row world entry events next) :
    (ingestor.fetch row.signature world).value ≠ .error (.cancelled row.signature) := by
  cases one with
  | reported tx had => simp [had]
  | skipped missing => simp [missing]

/-- A run over rows of which the first one settles goes on with the others. -/
theorem ingestRows_of_settles (tree : Address) {row : HistoryRow}
    {entry : IngestReport ⊕ SkippedTransaction} {events : List Event} {next : σ}
    (one : ingestor.Settles row world entry events next) (rows : List HistoryRow) :
    let rest := ingestor.ingestRows tree rows next
    let run := ingestor.ingestRows tree (row :: rows) world
    (run.value = rest.value.map fun (reports, skipped) =>
        (entry.getLeft?.toList ++ reports, entry.getRight?.toList ++ skipped)) ∧
      offered run.trace = events ++ offered rest.trace ∧
      handled run.trace = row.signature :: handled rest.trace := by
  have taken := handled_ingestSignature one.goesOn
  cases one with
  | reported tx had =>
    obtain ⟨value, world, handed⟩ := ingestSignature_of_ok had
    simp [ingestRows_cons, value, world, handed, taken]
  | skipped missing =>
    obtain ⟨value, world, handed⟩ := ingestSignature_of_error missing
    simp [ingestRows_cons, value, world, handed, taken]

theorem parted_cons (entry : IngestReport ⊕ SkippedTransaction)
    (entries : List (IngestReport ⊕ SkippedTransaction)) :
    parted (entry :: entries) = (entry.getLeft?.toList ++ (parted entries).1,
      entry.getRight?.toList ++ (parted entries).2) := by
  cases entry <;> rfl

/-- A run over rows of which the first ones settle goes on with the others. -/
theorem ingestRows_of_settlesAll (tree : Address) {earlier : List HistoryRow}
    {entries : List (IngestReport ⊕ SkippedTransaction)} {events : List Event} {last : σ}
    (all : ingestor.SettlesAll earlier world entries events last) (later : List HistoryRow) :
    let rest := ingestor.ingestRows tree later last
    let run := ingestor.ingestRows tree (earlier ++ later) world
    (run.value = rest.value.map fun (reports, skipped) =>
        ((parted entries).1 ++ reports, (parted entries).2 ++ skipped)) ∧
      offered run.trace = events ++ offered rest.trace ∧
      handled run.trace = earlier.map (·.signature) ++ handled rest.trace := by
  induction all with
  | nil world =>
    cases h : (ingestor.ingestRows tree later world).value <;> simp [h, parted, Except.map]
  | @cons row rows world next last entry events others entries one rest ih =>
    obtain ⟨value, handed, taken⟩ := ih
    obtain ⟨value', handed', taken'⟩ := ingestRows_of_settles tree one (rows ++ later)
    simp only [List.cons_append, value', handed', taken', value, handed, taken, parted_cons]
    refine ⟨?_, (List.append_assoc ..).symm, rfl⟩
    cases (ingestor.ingestRows tree later last).value <;> simp [Except.map]

theorem ingestRows_of_cancelled (tree : Address) {row : HistoryRow}
    (stop : (ingestor.fetch row.signature world).value = .error (.cancelled row.signature))
    (later : List HistoryRow) :
    let run := ingestor.ingestRows tree (row :: later) world
    run.value = .error (.cancelled row.signature) ∧ offered run.trace = [] := by
  obtain ⟨value, _, handed⟩ := ingestSignature_of_error stop
  simp [ingestRows_cons, value, handed]

theorem ingestRows_of_all (tree : Address) {rows : List HistoryRow}
    {entries : List (IngestReport ⊕ SkippedTransaction)} {events : List Event} {last : σ}
    (all : ingestor.SettlesAll rows world entries events last) :
    let run := ingestor.ingestRows tree rows world
    run.value = .ok (parted entries) ∧ offered run.trace = events ∧
      handled run.trace = rows.map (·.signature) := by
  obtain ⟨value, handed, taken⟩ := ingestRows_of_settlesAll tree all []
  rw [List.append_nil] at value handed taken
  exact ⟨by simp [value, ingestRows, Except.map], by simp [handed, ingestRows],
    by simp [taken, ingestRows]⟩

theorem ingestRows_of_cancelledAt (tree : Address) {rows : List HistoryRow} {row : HistoryRow}
    {events : List Event} (stop : ingestor.CancelledAt rows world row events) :
    let run := ingestor.ingestRows tree rows world
    run.value = .error (.cancelled row.signature) ∧ offered run.trace = events := by
  obtain ⟨earlier, later, entries, last, rfl, all, cancelled⟩ := stop
  obtain ⟨value, handed, _⟩ := ingestRows_of_settlesAll tree all (row :: later)
  obtain ⟨stopped, silent⟩ := ingestRows_of_cancelled tree cancelled later
  exact ⟨by simp [value, stopped, Except.map], by simp [handed, silent]⟩

theorem settles_or_cancelled (ingestor : Ingestor σ) (row : HistoryRow) (world : σ) :
    (∃ entry events next, ingestor.Settles row world entry events next) ∨
      (ingestor.fetch row.signature world).value = .error (.cancelled row.signature) := by
  have ending := ingestor.ending_fetch row.signature world
  generalize value_eq : (ingestor.fetch row.signature world).value = value at ending ⊢
  cases ending with
  | cancelled => exact Or.inr rfl
  | unavailable => exact Or.inl ⟨_, _, _, .skipped value_eq⟩
  | found tx => exact Or.inl ⟨_, _, _, .reported tx value_eq⟩

/-- Rows either settle, or the run is cancelled at one of them. -/
theorem settlesAll_or_cancelledAt (ingestor : Ingestor σ) (rows : List HistoryRow) (world : σ) :
    (∃ entries events last, ingestor.SettlesAll rows world entries events last) ∨
      ∃ row events, ingestor.CancelledAt rows world row events := by
  induction rows generalizing world with
  | nil => exact Or.inl ⟨[], [], world, .nil world⟩
  | cons row rows ih =>
    rcases ingestor.settles_or_cancelled row world with ⟨entry, events, next, one⟩ | stop
    · rcases ih next with ⟨entries, later, last, all⟩ | ⟨stopped, handed, interrupted⟩
      · exact Or.inl ⟨_, _, _, .cons one all⟩
      · obtain ⟨earlier, later, entries, last, rfl, all, cancelled⟩ := interrupted
        exact Or.inr ⟨stopped, _, row :: earlier, later, _, last, rfl, .cons one all, cancelled⟩
    · exact Or.inr ⟨row, [], [], rows, [], world, rfl, .nil world, stop⟩

/-- A run over rows that ends has settled all of them, and its outcome are the entries. -/
theorem settlesAll_of_success {tree : Address} {rows : List HistoryRow}
    {reports : List IngestReport} {skipped : List SkippedTransaction}
    (ends : (ingestor.ingestRows tree rows world).value = .ok (reports, skipped)) :
    ∃ entries events last, ingestor.SettlesAll rows world entries events last ∧
      parted entries = (reports, skipped) := by
  rcases ingestor.settlesAll_or_cancelledAt rows world with
    ⟨entries, events, last, all⟩ | ⟨row, events, stop⟩
  · obtain ⟨done, _, _⟩ := ingestRows_of_all tree all
    exact ⟨entries, events, last, all, Except.ok.inj (done.symm.trans ends)⟩
  · obtain ⟨stopped, _⟩ := ingestRows_of_cancelledAt tree stop
    cases stopped.symm.trans ends

/-- A backfill whose listing fails hands nothing to the store, and one that lists its rows does with
them what a run over rows does. -/
theorem backfill_of_walk {tree : Address} {cursor : Cursor} {next : σ}
    {listing : Except Error (List HistoryRow)}
    (walk : ingestor.source.Walk tree (cursor.initialQuery Source.mostRows) world listing next) :
    ∃ enough, ∀ pages ≥ enough,
      let run := ingestor.backfill tree cursor pages world
      match listing with
      | .error error => run.value = some (.error error) ∧ offered run.trace = []
      | .ok rows =>
        let done := ingestor.ingestRows tree rows.reverse next
        (run.value = some (done.value.map fun (reports, skipped) =>
          ⟨reports, skipped,
            cursor.completedThrough (rows.reverse.getLast?.map (·.signature))⟩)) ∧
          offered run.trace = offered done.trace := by
  obtain ⟨enough, ends⟩ := walk.listSelected
  refine ⟨enough, fun pages more => ?_⟩
  obtain ⟨value, world, silent⟩ := ends pages more
  cases listing <;> simp [backfill_eq, value, world, silent, Except.map]

/-- What ingesting accounts for. Of a transaction that is fetched the store is handed every event
once, in execution order, and the report tells the accepted ones from the refused. A backfill fails
if its listing fails or a fetch is cancelled, and only then; otherwise each of the selected rows is
reported or skipped, and the newest of them sets the cursor. -/
theorem backfill_accounts (ingestor : Ingestor σ) :
    (∀ signature world,
      let fetched := ingestor.fetch signature world
      let done := ingestor.ingestSignature signature world
      (∀ error, fetched.value = .error error →
        done.value = .error error ∧ offered done.trace = []) ∧
      ∀ tx, fetched.value = .ok tx →
        let events := (tx.scan ingestor.context).events
        let answers := ingestor.store.answers events fetched.world
        offered done.trace = events ∧ events.Pairwise (fun a b => a.ordinal < b.ordinal) ∧
        ∃ report, done.value = .ok report ∧
          report.signature = tx.signature ∧ report.slot = tx.slot ∧
          report.applied = accepted events answers ∧
          report.applied.length + report.rejected = events.length) ∧
    ∀ tree (cursor : Cursor) world listing next,
      ingestor.source.Walk tree (cursor.initialQuery Source.mostRows) world listing next →
      ∃ enough, ∀ pages ≥ enough,
        let run := ingestor.backfill tree cursor pages world
        (∀ error, run.value = some (.error error) ↔
          listing = .error error ∨ ∃ rows row events, listing = .ok rows ∧
            ingestor.CancelledAt rows.reverse next row events ∧
            error = .cancelled row.signature) ∧
        (∀ error, listing = .error error → offered run.trace = []) ∧
        ∀ rows, listing = .ok rows →
          let selected := rows.reverse
          (∀ row events, ingestor.CancelledAt selected next row events →
            offered run.trace = events) ∧
          ((¬∃ row events, ingestor.CancelledAt selected next row events) →
            ∃ entries events last, ingestor.SettlesAll selected next entries events last ∧
              run.value = some (.ok ⟨(parted entries).1, (parted entries).2,
                ⟨selected.getLast?.map (·.signature) <|> cursor.lastProcessed, true⟩⟩) ∧
              offered run.trace = events) := by
  constructor
  · intro signature world fetched done
    constructor
    · intro error failed
      obtain ⟨value, _, silent⟩ := ingestSignature_of_error failed
      exact ⟨value, silent⟩
    · intro tx had events answers
      obtain ⟨value, _, handed⟩ := ingestSignature_of_ok had
      refine ⟨handed, Scan.pairwise_ordinals ingestor.context tx, _, value, rfl, rfl, rfl, ?_⟩
      exact length_accepted (ingestor.store.length_answers events fetched.world)
  · intro tree cursor world listing next walk
    obtain ⟨enough, ends⟩ := backfill_of_walk walk
    refine ⟨enough, fun pages more => ?_⟩
    intro run
    have result := ends pages more
    cases listing with
    | error failure =>
      obtain ⟨value, silent⟩ := result
      simp [run, value, silent]
    | ok rows =>
      obtain ⟨value, handed⟩ := result
      have cancels : ∀ {row events}, ingestor.CancelledAt rows.reverse next row events →
          run.value = some (.error (.cancelled row.signature)) ∧ offered run.trace = events := by
        intro row events stop
        obtain ⟨stopped, offers⟩ := ingestRows_of_cancelledAt tree stop
        exact ⟨by simp [run, value, stopped, Except.map], handed.trans offers⟩
      have settles : ∀ {entries events last},
          ingestor.SettlesAll rows.reverse next entries events last →
          run.value = some (.ok ⟨(parted entries).1, (parted entries).2,
            cursor.completedThrough (rows.reverse.getLast?.map (·.signature))⟩) ∧
          offered run.trace = events := by
        intro entries events last all
        obtain ⟨done, offers, _⟩ := ingestRows_of_all tree all
        exact ⟨by simp [run, value, done, Except.map], handed.trans offers⟩
      have either := ingestor.settlesAll_or_cancelledAt rows.reverse next
      refine ⟨fun error => ⟨fun fails => Or.inr ?_, ?_⟩, by simp, ?_⟩
      · rcases either with ⟨entries, events, last, all⟩ | ⟨row, events, stop⟩
        · simp [(settles all).1] at fails
        · rw [(cancels stop).1] at fails
          exact ⟨rows, row, events, rfl, stop, (Except.error.inj (Option.some.inj fails)).symm⟩
      · rintro (failed | ⟨_, row, events, same, stop, rfl⟩)
        · cases failed
        · cases same
          exact (cancels stop).1
      · intro _ same
        cases same
        refine ⟨fun row events stop => (cancels stop).2, fun goesOn => ?_⟩
        obtain ⟨entries, events, last, all⟩ := either.resolve_right goesOn
        exact ⟨entries, events, last, all, settles all⟩

/-- A history of two transactions of which the source has the older one, and a store that refuses
mints. -/
def sampleReader : Ingestor Unit where
  context := .standard
  policy := .standard
  source :=
    ⟨fun signature _ =>
        (.ok (if signature = "s" then some (Scan.sampleTransaction true) else none), ()),
      fun _ _ _ => (.ok [⟨"t", 8, none, none⟩, ⟨"s", 7, none, none⟩], ())⟩
  pacing := ⟨fun _ _ => (), fun _ => false⟩
  store :=
    ⟨fun event _ =>
      ((if event.kind = .mint then .error (.missingRole "owner") else .ok .apply, []), ())⟩

/-- The older transaction is reported with one of its two events accepted, and the newer one is
skipped. -/
theorem backfill_accounts_sample :
    ∃ enough, ∀ pages ≥ enough, ∃ report,
      let run := sampleReader.backfill (.replicate 1) .start pages ()
      run.value = some (.ok ⟨[report], [⟨"t", 8, (Error.unavailable "t" 8).message⟩],
        ⟨some "t", true⟩⟩) ∧
      (offered run.trace).map (·.ordinal) = [1, 2] ∧
      report.applied.map (·.1.ordinal) = [2] ∧ report.rejected = 1 := by
  obtain ⟨enough, ends⟩ := (backfill_accounts sampleReader).2 (.replicate 1) .start () _ ()
    (.last rfl (Or.inr (by decide)))
  refine ⟨enough, fun pages more => ?_⟩
  obtain ⟨_, _, listed⟩ := ends pages more
  obtain ⟨_, settled⟩ := listed _ rfl
  have goesOn : ¬∃ row events, sampleReader.CancelledAt
      [⟨"s", 7, none, none⟩, ⟨"t", 8, none, none⟩] () row events := by
    rintro ⟨row, events, earlier, later, entries, last, _, _, cancelled⟩
    have ending := sampleReader.ending_fetch row.signature last
    rw [cancelled] at ending
    cases ending with
    | cancelled world stopped => cases stopped
  obtain ⟨entries, events, last, all, value, handed⟩ := settled goesOn
  have had : (sampleReader.fetch "s" ()).value = .ok (Scan.sampleTransaction true) := rfl
  have hadNot : (sampleReader.fetch "t" ()).value = .error (.unavailable "t" 8) := rfl
  cases all with
  | cons older rest =>
    cases rest with
    | cons newer none =>
      cases none
      cases older with
      | skipped missing => simp [had] at missing
      | reported tx found =>
        obtain rfl := Except.ok.inj (had.symm.trans found)
        cases newer with
        | reported tx found => simp [hadNot] at found
        | skipped =>
          refine ⟨_, value, ?_, ?_, ?_⟩
          · rw [handed]
            decide +kernel
          · decide +kernel
          · decide +kernel

end Ingestor

end LeafLedger
