import LeafLedger.Proofs.Ingest.Paging
import LeafLedger.Proofs.Ingest.Redelivery

namespace LeafLedger

variable {σ : Type}

/-- A source whose answers never change, and that does not touch the ledger. -/
structure Source.Steady (source : Source σ) (ledger : σ → Ledger)
    (fetched : String → Except Error (Option Transaction))
    (listed : Address → HistoryQuery → Except Error (List HistoryRow)) : Prop where
  fetch : ∀ signature world, (source.fetch signature world).1 = fetched signature
  list : ∀ tree query world, (source.list tree query world).1 = listed tree query
  keepsFetch : ∀ signature world, ledger (source.fetch signature world).2 = ledger world
  keepsList : ∀ tree query world, ledger (source.list tree query world).2 = ledger world

/-- Waiting does not touch the ledger. -/
def Pacing.Spares (pacing : Pacing σ) (ledger : σ → Ledger) : Prop :=
  ∀ delay world, ledger (pacing.sleep delay world) = ledger world

namespace Ledger

/-- The ledger after transactions were ingested one after the other. -/
def ingestAll (context : ScanContext) (ledger : Ledger) (txs : List Transaction) : Ledger :=
  ledger.deliver (txs.flatMap fun tx => (tx.scan context).events)

theorem ingestAll_append (context : ScanContext) (ledger : Ledger)
    (earlier later : List Transaction) :
    ledger.ingestAll context (earlier ++ later) =
      (ledger.ingestAll context earlier).ingestAll context later := by
  rw [ingestAll, List.flatMap_append, deliver_append]
  rfl

/-- Transactions that were ingested before add nothing to what follows them. -/
theorem ingestAll_again {context : ScanContext} {txs again later : List Transaction}
    (consistent : ∀ a ∈ txs, ∀ b ∈ txs, a.signature = b.signature → a = b) (known : again ⊆ txs) :
    (empty.ingestAll context txs).ingestAll context (again ++ later) =
      (empty.ingestAll context txs).ingestAll context later := by
  rw [ingestAll_append]
  congr 1
  refine deliver_of_absorbs ?_
  intro event he
  obtain ⟨tx, ht, found⟩ := List.mem_flatMap.mp he
  exact absorbs_of_delivered consistent (known ht) found

end Ledger

namespace Source

variable {source : Source σ} {ledger : σ → Ledger}
variable {fetched : String → Except Error (Option Transaction)}
variable {listed : Address → HistoryQuery → Except Error (List HistoryRow)}

/-- The transactions that a source has for rows, by its answers. -/
def transactionsOf (fetched : String → Except Error (Option Transaction)) (rows : List HistoryRow) :
    List Transaction :=
  rows.filterMap fun row => (fetched row.signature).toOption.join

theorem transactionsOf_cons (row : HistoryRow) (rows : List HistoryRow) :
    transactionsOf fetched (row :: rows) =
      (fetched row.signature).toOption.join.toList ++ transactionsOf fetched rows := by
  rw [transactionsOf, List.filterMap_cons]
  cases (fetched row.signature).toOption.join <;> rfl

theorem transactionsOf_append (earlier later : List HistoryRow) :
    transactionsOf fetched (earlier ++ later) =
      transactionsOf fetched earlier ++ transactionsOf fetched later :=
  List.filterMap_append

theorem exists_answer_of_mem_transactionsOf {rows : List HistoryRow} {tx : Transaction}
    (h : tx ∈ transactionsOf fetched rows) : ∃ signature, fetched signature = .ok (some tx) := by
  obtain ⟨row, _, answer⟩ := List.mem_filterMap.mp h
  refine ⟨row.signature, ?_⟩
  rcases hf : fetched row.signature with _ | _ | other
  · simp [hf, Except.toOption] at answer
  · simp [hf, Except.toOption] at answer
  · simpa [hf, Except.toOption] using answer

/-- A steady source lists the same rows at any time. -/
theorem Steady.listPages_eq (steady : source.Steady ledger fetched listed) (tree : Address)
    (found : List HistoryRow) (pages : Nat) (query : HistoryQuery) (world other : σ) :
    (source.listPages tree found pages query world).value =
      (source.listPages tree found pages query other).value := by
  induction pages generalizing found query world other with
  | zero => rfl
  | succ pages ih =>
    simp only [listPages_succ, steady.list]
    split
    next => rfl
    next =>
      split
      next => rfl
      next =>
        split
        next => rfl
        next => exact ih _ _ _ _

theorem Steady.listSelected (steady : source.Steady ledger fetched listed) (tree : Address)
    (cursor : Cursor) (asked pages : Nat) (world other : σ) :
    (source.listSelected tree cursor asked pages world).value =
        (source.listSelected tree cursor asked pages other).value ∧
      ledger (source.listSelected tree cursor asked pages world).world = ledger world := by
  have value := steady.listPages_eq tree [] pages (cursor.initialQuery (pageSize asked)) world other
  have kept := view_listPages ledger (steady.keepsList tree) [] pages
    (cursor.initialQuery (pageSize asked)) world
  simp only [listSelected_eq, value, kept, and_self]

end Source

namespace Ingestor

open Source (transactionsOf transactionsOf_cons)

variable {ingestor : Ingestor σ} {ledger : σ → Ledger}
variable {fetched : String → Except Error (Option Transaction)}
variable {listed : Address → HistoryQuery → Except Error (List HistoryRow)}

/-- A signature is given up on cancellation before anything is ingested, or its transaction is
ingested if the source has it. -/
theorem ingestSignature_steady (keeps : ingestor.store.Keeps ledger)
    (steady : ingestor.source.Steady ledger fetched listed) (spares : ingestor.pacing.Spares ledger)
    (signature : String) (world : σ) :
    let done := ingestor.ingestSignature signature world
    (done.value = .error (.cancelled signature) ∧ ledger done.world = ledger world ∧
      ∃ stopped, ingestor.pacing.cancelled stopped = true) ∨
    (((∃ report, done.value = .ok report) ∨
        done.value = .error (.unavailable signature ingestor.policy.attempts)) ∧
      ledger done.world = (ledger world).ingestAll ingestor.context
        (fetched signature).toOption.join.toList) := by
  intro done
  have kept : ledger (ingestor.source.fetchPatiently ingestor.pacing ingestor.policy signature
      world).world = ledger world :=
    Source.view_fetchAttempts ledger (steady.keepsFetch signature) spares _ world
  have ending := Source.ending_fetchAttempts ingestor.source ingestor.pacing ingestor.policy
    signature ingestor.policy.attempts world
  have step : done = _ := ingestSignature_eq ingestor signature world
  rw [← Source.fetchPatiently] at ending
  generalize ingestor.source.fetchPatiently ingestor.pacing ingestor.policy signature world =
    fetching at kept ending step
  obtain ⟨value, trace, next⟩ := fetching
  rw [step]
  cases ending with
  | cancelled stopped h => exact Or.inl ⟨rfl, kept, stopped, h⟩
  | unavailable h =>
    obtain ⟨other, missing⟩ := h (Source.attempts_ne_zero ingestor.policy)
    rw [steady.fetch] at missing
    have none : (fetched signature).toOption.join = none := by
      rcases hf : fetched signature with _ | _ | tx
      · rfl
      · rfl
      · exact absurd hf (missing tx)
    refine Or.inr ⟨Or.inr rfl, ?_⟩
    rw [none]
    exact kept
  | found tx other h =>
    rw [steady.fetch] at h
    refine Or.inr ⟨Or.inl ⟨_, rfl⟩, ?_⟩
    have ingested := ledger_ingest keeps tx next
    rw [kept] at ingested
    simpa [h, Ledger.ingestAll, Except.toOption] using ingested

/-- Rows are all accounted for, or cancellation ends the run behind the first ones. In either case
the transactions of the rows that were reached are ingested as a whole. -/
theorem ingestRows_steady (keeps : ingestor.store.Keeps ledger)
    (steady : ingestor.source.Steady ledger fetched listed) (spares : ingestor.pacing.Spares ledger)
    (tree : Address) (rows : List HistoryRow) (world : σ) :
    let done := ingestor.ingestRows tree rows world
    ∃ reached rest, rows = reached ++ rest ∧
      ledger done.world =
        (ledger world).ingestAll ingestor.context (transactionsOf fetched reached) ∧
      (((∃ account, done.value = .ok account) ∧ rest = []) ∨
        ((∃ signature, done.value = .error (.cancelled signature)) ∧
          ∃ stopped, ingestor.pacing.cancelled stopped = true)) := by
  induction rows generalizing world with
  | nil => exact ⟨[], [], rfl, rfl, Or.inl ⟨⟨_, rfl⟩, rfl⟩⟩
  | cons row rows ih =>
    intro done
    have step : done = _ := ingestRows_cons ingestor tree row rows world
    have one := ingestSignature_steady keeps steady spares row.signature world
    generalize ingestor.ingestSignature row.signature world = first at one step
    obtain ⟨value, trace, next⟩ := first
    rcases one with ⟨rfl, kept, stopped⟩ | ⟨ended, ingested⟩
    · rw [step]
      exact ⟨[], row :: rows, rfl, kept, Or.inr ⟨⟨_, rfl⟩, stopped⟩⟩
    · obtain ⟨reached, rest, split, later, outcome⟩ := ih next
      have whole : ledger (ingestor.ingestRows tree rows next).world =
          (ledger world).ingestAll ingestor.context (transactionsOf fetched (row :: reached)) := by
        rw [later, ingested, transactionsOf_cons, Ledger.ingestAll_append]
      refine ⟨row :: reached, rest, by rw [split, List.cons_append], ?_⟩
      -- With a report or without one, the run goes on over a ledger that has this transaction.
      rcases ended with ⟨report, rfl⟩ | rfl
      all_goals
        rw [step]
        refine ⟨whole, ?_⟩
        rcases outcome with ⟨⟨account, hv⟩, all⟩ | ⟨⟨signature, hv⟩, stopped⟩
        · exact Or.inl ⟨⟨_, by simp only [hv]; rfl⟩, all⟩
        · exact Or.inr ⟨⟨signature, by simp only [hv]; rfl⟩, stopped⟩

/-- A backfill that lists its rows ingests their transactions up to where it is cancelled. -/
theorem backfill_steady (keeps : ingestor.store.Keeps ledger)
    (steady : ingestor.source.Steady ledger fetched listed) (spares : ingestor.pacing.Spares ledger)
    {tree : Address} {cursor : Cursor} {pages : Nat} {world : σ} {rows : List HistoryRow}
    (lists : (ingestor.source.listSelected tree cursor Source.mostRows pages world).value =
      some (.ok rows)) :
    let run := ingestor.backfill tree cursor pages world
    ∃ reached rest, rows = reached ++ rest ∧
      ledger run.world =
        (ledger world).ingestAll ingestor.context (transactionsOf fetched reached) ∧
      (((∃ done, run.value = some (.ok done) ∧
          done.cursor = cursor.completedThrough (rows.getLast?.map (·.signature))) ∧ rest = []) ∨
        ((∃ signature, run.value = some (.error (.cancelled signature))) ∧
          ∃ stopped, ingestor.pacing.cancelled stopped = true)) := by
  intro run
  have step : run = _ := backfill_eq ingestor tree cursor pages world
  have kept := (steady.listSelected tree cursor Source.mostRows pages world world).2
  obtain ⟨reached, rest, split, ingested, outcome⟩ := ingestRows_steady keeps steady spares tree
    rows (ingestor.source.listSelected tree cursor Source.mostRows pages world).world
  rw [kept] at ingested
  simp only [lists] at step
  rw [step]
  refine ⟨reached, rest, split, ingested, ?_⟩
  rcases outcome with ⟨⟨account, hv⟩, all⟩ | ⟨⟨signature, hv⟩, stopped⟩
  · exact Or.inl ⟨⟨_, by simp only [hv]; rfl, rfl⟩, all⟩
  · exact Or.inr ⟨⟨signature, by simp only [hv]; rfl⟩, stopped⟩

end Ingestor

end LeafLedger
