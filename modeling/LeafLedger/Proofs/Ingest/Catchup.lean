import LeafLedger.Proofs.Ingest.Paging
import LeafLedger.Proofs.Ingest.Settlement
import Mathlib.Data.List.Chain
import Mathlib.Data.List.Nodup

namespace LeafLedger

namespace Cursor

variable {cursor : Cursor} {past now : List HistoryRow}

/-- The cursor behind backfills that worked through a history. It has a place only if some row
succeeded. -/
structure UpTo (cursor : Cursor) (past : List HistoryRow) : Prop where
  newest : cursor.lastProcessed = (past.find? (·.succeeded)).map (·.signature)
  complete : cursor.lastProcessed ≠ none → cursor.genesisReached = true

theorem upTo_start : start.UpTo [] :=
  ⟨rfl, fun named => absurd rfl named⟩

/-- What the cursor selects and what was worked through make up the history, failed rows apart. -/
theorem UpTo.select_append (upTo : cursor.UpTo past) (limit : Nat) (grown : past <:+ now)
    (unique : (now.map (·.signature)).Nodup) :
    ((cursor.initialQuery limit).select now).filter (·.succeeded) ++ past.filter (·.succeeded) =
      now.filter (·.succeeded) := by
  obtain ⟨place, reached⟩ := cursor
  obtain ⟨newest, complete⟩ := upTo
  obtain ⟨new, rfl⟩ := grown
  cases hp : past.find? (·.succeeded) with
  | none =>
    -- Without a place everything is selected again, but what is not new failed.
    have failed : past.filter (·.succeeded) = [] :=
      List.filter_eq_nil_iff.mpr (List.find?_eq_none.mp hp)
    rw [hp] at newest
    cases newest
    have all : (initialQuery ⟨none, reached⟩ limit).select (new ++ past) = new ++ past := by
      cases reached <;> rfl
    rw [all, failed, List.append_nil]
  | some row =>
    obtain ⟨-, recent, back, rfl, failed⟩ := List.find?_eq_some_iff_append.mp hp
    rw [hp] at newest
    cases newest
    cases complete (by simp)
    have selected : (initialQuery ⟨some row.signature, true⟩ limit).select
        (new ++ (recent ++ row :: back)) = new ++ recent := by
      rw [← List.append_assoc] at unique ⊢
      exact HistoryQuery.until_of_split unique
    have old : recent.filter (·.succeeded) = [] := by
      refine List.filter_eq_nil_iff.mpr fun other ho => ?_
      simpa using failed other ho
    simp only [selected, List.filter_append, old, List.append_nil]

/-- The next cursor has worked through the history as the backfill found it. -/
theorem UpTo.completedThrough (upTo : cursor.UpTo past) (limit : Nat) (grown : past <:+ now)
    (unique : (now.map (·.signature)).Nodup) :
    (cursor.completedThrough ((((cursor.initialQuery limit).select now).filter
      (·.succeeded)).head?.map (·.signature))).UpTo now := by
  refine ⟨?_, fun _ => rfl⟩
  have seam := upTo.select_append limit grown unique
  rw [Cursor.completedThrough, upTo.newest, ← List.head?_filter, ← List.head?_filter, ← seam,
    List.head?_append]
  cases (((cursor.initialQuery limit).select now).filter (·.succeeded)).head? <;> rfl

end Cursor

/-- A listing takes up no signature and hands nothing to the store. -/
theorem silent_of_lists {trace : List Effect} (lists : trace.all (·.lists) = true) :
    trace.all (·.isStill) = true ∧ offered trace = [] := by
  induction trace with
  | nil => exact ⟨rfl, rfl⟩
  | cons effect trace ih =>
    obtain ⟨here, rest⟩ : effect.lists = true ∧ trace.all (·.lists) := by simpa using lists
    cases effect with
    | fetched | slept | offered => cases here
    | listed | noted => exact ih rest

/-- A backfill from a source that succeeded: who made it, what it started from, how many pages it
could ask for, and what it came to. -/
structure Backfill {σ : Type} (source : Source σ) (tree : Address) where
  ingestor : Ingestor σ
  world : σ
  cursor : Cursor
  pages : Nat
  outcome : BackfillOutcome
  from_source : ingestor.source = source
  success : (ingestor.backfill tree cursor pages world).value = some (.ok outcome)

namespace Backfill

variable {σ : Type} {source : Source σ} {tree : Address} {history : σ → List HistoryRow}

/-- The signatures that a backfill handles, in order. -/
def handled (run : Backfill source tree) : List String :=
  LeafLedger.handled (run.ingestor.backfill tree run.cursor run.pages run.world).trace

/-- The rows that a backfill is to handle, oldest first. -/
def rows (run : Backfill source tree) (history : σ → List HistoryRow) : List HistoryRow :=
  (((run.cursor.initialQuery Source.mostRows).select (history run.world)).filter
    (·.succeeded)).reverse

/-- The outcome of a backfill accounts for rows one after the other, each in the world that the one
before it left behind: by the report on the transaction that was fetched for it, or as skipped if
none could be fetched. The store was handed the events of the reported transactions and no other. -/
def AccountsFor (run : Backfill source tree) (rows : List HistoryRow) : Prop :=
  let listed :=
    run.ingestor.source.listSelected tree run.cursor Source.mostRows run.pages run.world
  ∃ entries events last, run.ingestor.SettlesAll rows listed.world entries events last ∧
    Ingestor.parted entries = (run.outcome.reports, run.outcome.skipped) ∧
    offered (run.ingestor.backfill tree run.cursor run.pages run.world).trace = events

/-- A backfill goes on from the cursor of an earlier one, over a history that has only grown. -/
def Continues (history : σ → List HistoryRow) (earlier later : Backfill source tree) : Prop :=
  later.cursor = earlier.outcome.cursor ∧ history earlier.world <:+ history later.world

theorem handles_rows (shows : source.Shows tree history) (run : Backfill source tree) :
    run.handled = (run.rows history).map (·.signature) ∧ run.AccountsFor (run.rows history) ∧
      run.outcome.cursor =
        run.cursor.completedThrough ((run.rows history).getLast?.map (·.signature)) := by
  obtain ⟨selected, listed, ends, moved, traced⟩ := Ingestor.backfill_of_success run.success
  have shown : run.ingestor.source.Shows tree history := by
    rw [run.from_source]
    exact shows
  obtain rfl : selected = run.rows history := shown.listSelected listed
  obtain ⟨still, silent⟩ := silent_of_lists (run.ingestor.source.lists_listSelected tree run.cursor
    Source.mostRows run.pages run.world)
  obtain ⟨entries, events, last, settled, parted⟩ := Ingestor.settlesAll_of_success ends
  obtain ⟨_, handed, taken⟩ := Ingestor.ingestRows_of_all tree settled
  refine ⟨?_, ⟨entries, events, last, settled, parted, ?_⟩, moved⟩
  · rw [handled, traced, handled_append_of_still still, handled_cons_noted, taken]
  · rw [traced, offered_append, silent, offered_cons_noted, handed]
    rfl

/-- One backfill: it handles what succeeded since the history that was worked through, and it has
worked through the history as it found it. -/
theorem advances (shows : source.Shows tree history) (run : Backfill source tree)
    {past : List HistoryRow} (upTo : run.cursor.UpTo past) (grown : past <:+ history run.world) :
    (past.filter (·.succeeded)).reverse.map (·.signature) ++ run.handled =
        ((history run.world).filter (·.succeeded)).reverse.map (·.signature) ∧
      run.outcome.cursor.UpTo (history run.world) := by
  obtain ⟨inOrder, -, moved⟩ := run.handles_rows shows
  have unique := shows.unique run.world
  constructor
  · rw [inOrder, rows, ← List.map_append, ← List.reverse_append,
      upTo.select_append Source.mostRows grown unique]
  · rw [moved, rows, List.getLast?_reverse]
    exact upTo.completedThrough Source.mostRows grown unique

theorem flatMap_handled (shows : source.Shows tree history) {run : Backfill source tree}
    {runs : List (Backfill source tree)} {past : List HistoryRow} (upTo : run.cursor.UpTo past)
    (grown : past <:+ history run.world) (follows : (run :: runs).IsChain (Continues history))
    {last : Backfill source tree} (ends : (run :: runs).getLast? = some last) :
    (past.filter (·.succeeded)).reverse.map (·.signature) ++ (run :: runs).flatMap (·.handled) =
      ((history last.world).filter (·.succeeded)).reverse.map (·.signature) := by
  obtain ⟨here, next⟩ := run.advances shows upTo grown
  -- Along the runs, `past` is the history that the runs so far have worked through.
  induction runs generalizing run past with
  | nil =>
    cases ends
    simpa using here
  | cons later runs ih =>
    obtain ⟨⟨goesOn, grows⟩, rest⟩ := List.isChain_cons_cons.mp follows
    rw [← goesOn] at next
    obtain ⟨there, after⟩ := later.advances shows next grows
    rw [List.flatMap_cons, ← List.append_assoc, here]
    exact ih next grows rest ends there after

/-- Backfills of a growing history, the first from the start and each other from the cursor of the
one before, handle exactly the rows that succeeded of the history that the last of them found,
oldest first and each once. What a backfill handles are the rows that it selected, and its outcome
accounts for each of them by one entry. -/
theorem handled_eq_history (shows : source.Shows tree history) {runs : List (Backfill source tree)}
    (first : ∀ run ∈ runs.head?, run.cursor = .start)
    (follows : runs.IsChain (Continues history)) {last : Backfill source tree}
    (ends : runs.getLast? = some last) :
    runs.flatMap (·.handled) =
        ((history last.world).filter (·.succeeded)).reverse.map (·.signature) ∧
      (runs.flatMap (·.handled)).Nodup ∧
      (∀ row ∈ history last.world, row.succeeded = false →
        row.signature ∉ runs.flatMap (·.handled)) ∧
      ∀ run ∈ runs, run.handled = (run.rows history).map (·.signature) ∧
        run.AccountsFor (run.rows history) := by
  have all : runs.flatMap (·.handled) =
      ((history last.world).filter (·.succeeded)).reverse.map (·.signature) := by
    cases runs with
    | nil => cases ends
    | cons run runs =>
      have upTo : run.cursor.UpTo [] := by
        rw [first run rfl]
        exact Cursor.upTo_start
      exact flatMap_handled shows upTo (List.nil_suffix) follows ends
  have unique := shows.unique last.world
  refine ⟨all, ?_, ?_, ?_⟩
  · rw [all, List.map_reverse, List.nodup_reverse]
    exact unique.sublist (List.filter_sublist.map _)
  · intro row hr failed handled
    rw [all, List.mem_map] at handled
    obtain ⟨other, ho, same⟩ := handled
    rw [List.mem_reverse, List.mem_filter] at ho
    have : other = row := List.inj_on_of_nodup_map unique ho.1 hr same
    rw [this, failed] at ho
    exact Bool.noConfusion ho.2
  · intro run _
    obtain ⟨inOrder, accounts, -⟩ := run.handles_rows shows
    exact ⟨inOrder, accounts⟩

/-- The rows of the sample history as they came in, newest first. The first and the last transaction
but one of them failed. -/
def sampleLog : List HistoryRow :=
  [⟨"e", 5, some .null, none⟩, ⟨"d", 4, none, none⟩, ⟨"c", 3, none, none⟩,
    ⟨"b", 2, some .null, none⟩, ⟨"a", 1, none, none⟩]

/-- The sample history after so many pages were asked for. -/
def sampleHistory (pages : Nat) : List HistoryRow :=
  sampleLog.drop (3 - pages)

/-- A mint and a transfer in the transaction of a signature. -/
def sampleBody (signature : String) : Transaction :=
  { Scan.sampleTransaction true with signature }

/-- A source whose world counts the pages that were asked for. One transaction is not to be had. -/
def sampleSource : Source Nat where
  fetch signature pages :=
    (.ok (if signature = "c" then none else some (sampleBody signature)), pages)
  list _ query pages := (.ok (query.page (sampleHistory pages)), pages + 1)

def sampleIngestor : Ingestor Nat where
  context := .standard
  policy := ⟨2, .ofMillis 0, .ofMillis 0⟩
  source := sampleSource
  pacing := ⟨fun _ pages => pages, fun _ => false⟩
  store :=
    ⟨fun event pages =>
      ((if event.kind = .mint then .ok .apply else .error (.missingRole "owner"), []), pages)⟩

/-- A first backfill, of which the newest row failed. -/
def sampleFirst : Backfill sampleSource (.replicate 2) where
  ingestor := sampleIngestor
  world := 0
  cursor := .start
  pages := 1
  outcome := ⟨[sampleIngestor.report (sampleBody "a") 1], [], ⟨some "a", true⟩⟩
  from_source := rfl
  success := by decide +kernel

/-- A second one, that does not get the transaction of the only row that is left. -/
def sampleSecond : Backfill sampleSource (.replicate 2) where
  ingestor := sampleIngestor
  world := 1
  cursor := ⟨some "a", true⟩
  pages := 1
  outcome :=
    ⟨[], [⟨"c", 3, (Error.unavailable "c" 2).message⟩], ⟨some "c", true⟩⟩
  from_source := rfl
  success := by decide +kernel

def sampleThird : Backfill sampleSource (.replicate 2) where
  ingestor := sampleIngestor
  world := 3
  cursor := ⟨some "c", true⟩
  pages := 1
  outcome := ⟨[sampleIngestor.report (sampleBody "d") 4], [], ⟨some "d", true⟩⟩
  from_source := rfl
  success := by decide +kernel

theorem suffix_sampleHistory {earlier later : Nat} (h : earlier ≤ later) :
    sampleHistory earlier <:+ sampleHistory later := by
  have more : 3 - earlier = (3 - later) + (3 - earlier - (3 - later)) := by omega
  rw [sampleHistory, more, ← List.drop_drop]
  exact List.drop_suffix _ _

theorem shows_sampleSource : sampleSource.Shows (.replicate 2) sampleHistory where
  unique pages := by
    refine List.Nodup.sublist ((List.drop_sublist _ _).map _) ?_
    decide
  grows _ pages := suffix_sampleHistory (Nat.le_succ pages)
  page _ _ _ answered := (Except.ok.inj answered).symm

/-- What could be had is reported with its mint accepted and its transfer refused, and the
transaction that was not to be had is skipped. -/
theorem handled_eq_history_sample :
    let runs := [sampleFirst, sampleSecond, sampleThird]
    runs.flatMap (·.handled) = ["a", "c", "d"] ∧ "e" ∉ runs.flatMap (·.handled) ∧
      (∀ run ∈ runs, run.AccountsFor (run.rows sampleHistory)) ∧
      runs.map (fun run => run.outcome.reports.map fun report =>
        (report.signature, report.applied.map (·.1.kind), report.rejected)) =
          [[("a", [.mint], 1)], [], [("d", [.mint], 1)]] ∧
      runs.map (fun run => run.outcome.skipped.map (·.signature)) = [[], ["c"], []] := by
  intro runs
  have first : ∀ run ∈ runs.head?, run.cursor = .start := by
    rintro _ ⟨⟩
    rfl
  have follows : runs.IsChain (Continues sampleHistory) := by
    refine .cons_cons ⟨rfl, ?_⟩ (.cons_cons ⟨rfl, ?_⟩ (.singleton _))
    · exact suffix_sampleHistory (Nat.zero_le 1)
    · exact suffix_sampleHistory (by decide : 1 ≤ 3)
  obtain ⟨all, -, failed, accounts⟩ := handled_eq_history shows_sampleSource first follows rfl
  refine ⟨all.trans (by decide), failed ⟨"e", 5, some .null, none⟩ (.head _) rfl,
    fun run hr => (accounts run hr).2, ?_, ?_⟩ <;> decide +kernel

end Backfill

end LeafLedger
