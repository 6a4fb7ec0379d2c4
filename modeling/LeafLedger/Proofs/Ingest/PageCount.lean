import LeafLedger.Proofs.Ingest.Catchup

namespace LeafLedger

/-- The query of a step that asks for a page. -/
def Effect.query? : Effect → Option HistoryQuery
  | listed _ query => some query
  | fetched _ | slept _ | offered _ | noted _ => none

/-- The queries that were made in a trace, in order. -/
def queries (trace : List Effect) : List HistoryQuery :=
  trace.filterMap (·.query?)

@[simp] theorem queries_nil : queries [] = [] :=
  rfl

@[simp] theorem queries_cons_listed (tree : Address) (query : HistoryQuery) (trace : List Effect) :
    queries (.listed tree query :: trace) = query :: queries trace :=
  rfl

@[simp] theorem queries_cons_noted (notice : Notice) (trace : List Effect) :
    queries (.noted notice :: trace) = queries trace :=
  rfl

@[simp] theorem Cursor.limit_initialQuery (cursor : Cursor) (limit : Nat) :
    (cursor.initialQuery limit).limit = limit := by
  unfold initialQuery
  split <;> rfl

theorem Source.pageSize_pos (asked : Nat) : 0 < pageSize asked :=
  Nat.le_max_left 1 _

namespace HistoryQuery

variable {query : HistoryQuery} {history : List HistoryRow}

theorem length_page (query : HistoryQuery) (history : List HistoryRow) :
    (query.page history).length = min query.limit (query.select history).length :=
  List.length_take

/-- A page that is not full has room for all that is selected. -/
theorem length_select_div (short : (query.page history).length < query.limit) :
    (query.select history).length / query.limit = 0 := by
  rw [length_page] at short
  exact Nat.div_eq_of_lt (by omega)

end HistoryQuery

namespace Source

variable {σ : Type} {source : Source σ} {tree : Address} {history : σ → List HistoryRow}

/-- A walk gets to its end unless it runs out of pages, and asks once for each full page and once
more on the way. -/
theorem Shows.queries_listPages (shows : source.Shows tree history)
    (answers : ∀ query world, ∃ rows, (source.list tree query world).1 = .ok rows)
    (found : List HistoryRow) (pages : Nat) {query : HistoryQuery} (room : 0 < query.limit)
    (world : σ) :
    let full := (query.select (history world)).length / query.limit
    let walk := source.listPages tree found pages query world
    (queries walk.trace).length = min pages (full + 1) ∧
      if full < pages then ∃ rows, walk.value = some (.ok rows) else walk.value = none := by
  intro full walk
  -- Each full page leaves over one full page less than there were when it was asked for.
  induction pages generalizing found query world with
  | zero => exact ⟨(Nat.zero_min _).symm, rfl⟩
  | succ pages ih =>
    obtain ⟨page, answered⟩ := answers query world
    have paged := shows.page query world page answered
    simp only [walk, listPages_succ, answered]
    split
    next empty =>
      have none_left : full = 0 := by
        refine HistoryQuery.length_select_div ?_
        rw [← paged, List.getLast?_eq_none_iff.mp empty]
        exact room
      rw [none_left, if_pos (Nat.succ_pos pages)]
      exact ⟨by simp, found, rfl⟩
    next oldest last =>
      split
      next short =>
        have none_left : full = 0 := HistoryQuery.length_select_div (by rwa [← paged])
        rw [none_left, if_pos (Nat.succ_pos pages)]
        exact ⟨by simp, _, rfl⟩
      next whole =>
        rw [paged] at last
        have left := HistoryQuery.select_next (shows.unique _) (shows.grows query world) last
        have enough : query.limit ≤ (query.select (history world)).length := by
          rw [paged, HistoryQuery.length_page] at whole
          omega
        have one_less : full = ((query.select (history world)).length - query.limit) /
            query.limit + 1 := Nat.div_eq_sub_div room enough
        obtain ⟨count, ends⟩ := @ih (found ++ page.filter (·.succeeded))
          { query with olderThan := some oldest.signature } room (source.list tree query world).2
        rw [left, List.length_drop] at count ends
        refine ⟨?_, ?_⟩
        · simp only [List.cons_append, List.nil_append, queries_cons_listed, queries_cons_noted,
            List.length_cons, count]
          omega
        · rw [one_less]
          simpa only [Nat.add_lt_add_iff_right] using ends

/-- From a source that always answers, a listing asks once for each full page of the rows that its
cursor selects when it begins, and once more. With so many pages it answers, and with those rows,
oldest first and without the failed ones; with fewer it does not. -/
theorem Shows.listSelected_of_answers (shows : source.Shows tree history)
    (answers : ∀ query world, ∃ rows, (source.list tree query world).1 = .ok rows)
    (cursor : Cursor) (asked pages : Nat) (world : σ) :
    let size := pageSize asked
    let selected := (cursor.initialQuery size).select (history world)
    let listing := source.listSelected tree cursor asked pages world
    (queries listing.trace).length = min pages (selected.length / size + 1) ∧
      listing.value =
        if selected.length / size < pages then some (.ok (selected.filter (·.succeeded)).reverse)
        else none := by
  intro size selected listing
  have limit : (cursor.initialQuery size).limit = size := cursor.limit_initialQuery size
  have room : 0 < (cursor.initialQuery size).limit := by
    rw [limit]
    exact pageSize_pos asked
  obtain ⟨count, ends⟩ := shows.queries_listPages answers [] pages room world
  rw [limit] at count ends
  have walked := listSelected_eq source tree cursor asked pages world
  refine ⟨by rw [← count]; simp only [listing, walked]; rfl, ?_⟩
  by_cases enough : selected.length / size < pages
  · rw [if_pos enough] at ends ⊢
    obtain ⟨rows, found⟩ := ends
    have answer : listing.value = some (.ok rows.reverse) := by
      simp only [listing, walked]
      rw [found]
      rfl
    rw [answer, shows.listSelected answer]
  · rw [if_neg enough] at ends ⊢
    simp only [listing, walked]
    rw [ends]
    rfl

/-- Pages of no rows are pages of one row, and the row that comes in after the first of them is not
listed. -/
theorem listSelected_of_answers_sample :
    let listing := Backfill.sampleSource.listSelected (.replicate 2) .start 0 4 1
    (queries listing.trace).length = 4 ∧
      listing.value = some (.ok [⟨"a", 1, none, none⟩, ⟨"c", 3, none, none⟩]) :=
  Backfill.shows_sampleSource.listSelected_of_answers (fun _ _ => ⟨_, rfl⟩) .start 0 4 1

end Source

end LeafLedger
