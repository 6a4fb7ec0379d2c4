import LeafLedger.Proofs.Ingest.Attempts
import Mathlib.Data.List.TakeWhile

namespace LeafLedger

/-- Whether a step is one of a listing. -/
def Effect.lists : Effect → Bool
  | listed .. | noted _ => true
  | fetched _ | slept _ | offered _ => false

namespace HistoryQuery

/-- The rows behind the row of a signature. -/
def behind (signature : String) (rows : List HistoryRow) : List HistoryRow :=
  (rows.dropWhile (·.signature != signature)).drop 1

/-- The rows that a query starts from. -/
def older (query : HistoryQuery) (history : List HistoryRow) : List HistoryRow :=
  match query.olderThan with
  | none => history
  | some signature => behind signature history

/-- A query stops at the row of one signature, if it names one. -/
def goesOnAt (query : HistoryQuery) (row : HistoryRow) : Bool :=
  match query.newerThan with
  | none => true
  | some signature => row.signature != signature

theorem select_eq (query : HistoryQuery) (history : List HistoryRow) :
    query.select history = (query.older history).takeWhile query.goesOnAt := by
  unfold select older behind goesOnAt
  cases query.newerThan with
  | none => exact (List.takeWhile_eq_self_iff.mpr fun _ _ => rfl).symm
  | some signature => rfl

section Split

variable {front back : List HistoryRow} {row : HistoryRow}

theorem bne_of_mem_front (unique : ((front ++ row :: back).map (·.signature)).Nodup) :
    ∀ other ∈ front, (other.signature != row.signature) = true := by
  intro other ho
  rw [List.map_append, List.nodup_append] at unique
  exact bne_iff_ne.mpr (unique.2.2 _ (List.mem_map_of_mem ho) _ (by simp))

theorem behind_of_split (unique : ((front ++ row :: back).map (·.signature)).Nodup) :
    behind row.signature (front ++ row :: back) = back := by
  rw [behind, List.dropWhile_append_of_pos (bne_of_mem_front unique)]
  simp

theorem until_of_split (unique : ((front ++ row :: back).map (·.signature)).Nodup) :
    (front ++ row :: back).takeWhile (·.signature != row.signature) = front := by
  rw [List.takeWhile_append_of_pos (bne_of_mem_front unique)]
  simp

end Split

theorem older_suffix (query : HistoryQuery) (history : List HistoryRow) :
    query.older history <:+ history := by
  unfold older
  split
  next => exact List.suffix_rfl
  next => exact (List.drop_suffix _ _).trans (List.dropWhile_suffix _)

/-- The query for the next page selects what the page left over, even if rows came in meanwhile. -/
theorem select_next {query : HistoryQuery} {history now : List HistoryRow} {oldest : HistoryRow}
    (unique : (now.map (·.signature)).Nodup) (grown : history <:+ now)
    (last : (query.page history).getLast? = some oldest) :
    { query with olderThan := some oldest.signature }.select now =
      (query.select history).drop query.limit := by
  obtain ⟨init, paged⟩ := List.getLast?_eq_some_iff.mp last
  -- The page is a front part of the rows that the query starts from.
  have selected : query.page history <+: query.older history := by
    refine (List.take_prefix _ _).trans ?_
    rw [select_eq]
    exact List.takeWhile_prefix _
  obtain ⟨back, older⟩ := selected
  obtain ⟨new, now_eq⟩ := (query.older_suffix history).trans grown
  rw [← older, paged] at now_eq
  have behind_oldest : behind oldest.signature now = back := by
    have split : now = (new ++ init) ++ oldest :: back := by simp [← now_eq]
    rw [split] at unique ⊢
    exact behind_of_split unique
  have inside : ∀ row ∈ query.page history, query.goesOnAt row = true := by
    intro row hr
    have hs := List.mem_of_mem_take hr
    rw [select_eq] at hs
    exact List.mem_takeWhile_imp hs
  have whole : query.page history ++ back.takeWhile query.goesOnAt =
      query.page history ++ (query.select history).drop query.limit := by
    rw [← List.takeWhile_append_of_pos inside, older, ← select_eq, page, List.take_append_drop]
  rw [select_eq]
  change (behind oldest.signature now).takeWhile query.goesOnAt = _
  rw [behind_oldest]
  exact List.append_cancel_left whole

end HistoryQuery

namespace Source

variable {σ : Type} {source : Source σ} {tree : Address} {history : σ → List HistoryRow}

/-- A source that shows a history without repeated signatures, to which asking for pages adds rows
at the head only. It may fail to answer. -/
structure Shows (source : Source σ) (tree : Address) (history : σ → List HistoryRow) : Prop where
  unique : ∀ world, ((history world).map (·.signature)).Nodup
  grows : ∀ query world, history world <:+ history (source.list tree query world).2
  page : ∀ query world rows, (source.list tree query world).1 = .ok rows →
    rows = query.page (history world)

/-- A walk that ends finds the rows that its first query selected when it began. -/
theorem Shows.listPages (shows : source.Shows tree history) {found rows : List HistoryRow}
    {pages : Nat} {query : HistoryQuery} {world : σ} (room : query.limit ≠ 0)
    (ends : (source.listPages tree found pages query world).value = some (.ok rows)) :
    rows = found ++ (query.select (history world)).filter (·.succeeded) := by
  -- What is left to find is told by the history at the moment, which may be larger at each page.
  induction pages generalizing found query world with
  | zero => cases ends
  | succ pages ih =>
    rw [listPages_succ] at ends
    simp only at ends
    split at ends
    next => cases ends
    next page answered =>
      have paged := shows.page query world page answered
      have parts : page ++ (query.select (history world)).drop query.limit =
          query.select (history world) := by
        rw [paged, HistoryQuery.page, List.take_append_drop]
      split at ends
      next empty =>
        cases ends
        rw [List.getLast?_eq_none_iff.mp empty] at paged
        rw [List.take_eq_nil_iff.mp paged.symm |>.resolve_left room]
        simp
      next oldest last =>
        split at ends
        next short =>
          cases ends
          have nothing : (query.select (history world)).drop query.limit = [] := by
            rw [paged, HistoryQuery.page, List.length_take] at short
            exact List.drop_eq_nil_of_le (by omega)
          rw [nothing, List.append_nil] at parts
          rw [parts]
        next =>
          rw [paged] at last
          have rest := @ih _ { query with olderThan := some oldest.signature } _ room ends
          rw [HistoryQuery.select_next (shows.unique _) (shows.grows query world) last] at rest
          rw [rest, ← parts, List.filter_append, List.append_assoc, parts]

/-- What a cursor selects is found oldest row first, without the failed ones. -/
theorem Shows.listSelected (shows : source.Shows tree history) {cursor : Cursor} {asked pages : Nat}
    {world : σ} {rows : List HistoryRow}
    (ends : (source.listSelected tree cursor asked pages world).value = some (.ok rows)) :
    rows = (((cursor.initialQuery (pageSize asked)).select (history world)).filter
      (·.succeeded)).reverse := by
  have room : (cursor.initialQuery (pageSize asked)).limit ≠ 0 := by
    have size : pageSize asked ≠ 0 := Nat.ne_of_gt (Nat.le_max_left 1 _)
    unfold Cursor.initialQuery
    split <;> exact size
  rw [listSelected_eq] at ends
  rcases found : (source.listPages tree [] pages (cursor.initialQuery (pageSize asked)) world).value
    with _ | _ | newestFirst
  · simp [found] at ends
  · simp [found, Except.map] at ends
  · simp only [found, Option.map_some, Except.map, Option.some.injEq, Except.ok.injEq] at ends
    rw [← ends, shows.listPages room found, List.nil_append]

/-- A walk asks for pages and notes what it got. -/
theorem lists_listPages (source : Source σ) (tree : Address) (found : List HistoryRow) (pages : Nat)
    (query : HistoryQuery) (world : σ) :
    (source.listPages tree found pages query world).trace.all (·.lists) = true := by
  induction pages generalizing found query world with
  | zero => rfl
  | succ pages ih =>
    simp only [listPages_succ]
    split
    next => rfl
    next =>
      split
      next => rfl
      next =>
        split
        next => rfl
        next =>
          rw [List.all_append, ih]
          rfl

theorem lists_listSelected (source : Source σ) (tree : Address) (cursor : Cursor)
    (size pages : Nat) (world : σ) :
    (source.listSelected tree cursor size pages world).trace.all (·.lists) = true := by
  rw [listSelected_eq]
  exact lists_listPages source tree [] pages _ world

/-- What asking for a page does not change is the same after all pages. -/
theorem view_listPages {β : Type} (view : σ → β)
    (list : ∀ query world, view (source.list tree query world).2 = view world)
    (found : List HistoryRow) (pages : Nat) (query : HistoryQuery) (world : σ) :
    view (source.listPages tree found pages query world).world = view world := by
  induction pages generalizing found query world with
  | zero => rfl
  | succ pages ih =>
    simp only [listPages_succ]
    split
    next => exact list query world
    next =>
      split
      next => exact list query world
      next =>
        split
        next => exact list query world
        next => exact (ih _ _ _).trans (list query world)

end Source

end LeafLedger
