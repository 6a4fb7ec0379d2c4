import LeafLedger.Proofs.Ingest.SteadySource
import Mathlib.Logic.Relation

namespace LeafLedger

namespace Ingestor

open Source (transactionsOf)

variable {σ : Type} {ingestor : Ingestor σ} {ledger : σ → Ledger}
variable {fetched : String → Except Error (Option Transaction)}
variable {listed : Address → HistoryQuery → Except Error (List HistoryRow)}

/-- The ingestor with another pacing: another token, or other delays. -/
def paced (ingestor : Ingestor σ) (pacing : Pacing σ) : Ingestor σ :=
  { ingestor with pacing }

/-- A run of a backfill that was cancelled, at whatever pace it went, and a world with the ledger
that it left behind. -/
def Interrupted (ingestor : Ingestor σ) (ledger : σ → Ledger) (tree : Address) (cursor : Cursor)
    (pages : Nat) (world next : σ) : Prop :=
  ∃ pacing : Pacing σ, pacing.Spares ledger ∧
    let run := (ingestor.paced pacing).backfill tree cursor pages world
    (∃ signature, run.value = some (.error (.cancelled signature))) ∧
      ledger next = ledger run.world

/-- Interrupted runs ingest nothing that a full run does not ingest again in its place. -/
theorem ingestAll_of_interrupted (keeps : ingestor.store.Keeps ledger)
    (steady : ingestor.source.Steady ledger fetched listed) {tree : Address} {cursor : Cursor}
    {pages : Nat} {world cut : σ} {rows : List HistoryRow} {txs : List Transaction}
    (lists : (ingestor.source.listSelected tree cursor Source.mostRows pages world).value =
      some (.ok rows))
    (consistent : ∀ a b, (a ∈ txs ∨ ∃ signature, fetched signature = .ok (some a)) →
      (b ∈ txs ∨ ∃ signature, fetched signature = .ok (some b)) → a.signature = b.signature → a = b)
    (reached : ledger world = Ledger.empty.ingestAll ingestor.context txs)
    (interrupted :
      Relation.ReflTransGen (ingestor.Interrupted ledger tree cursor pages) world cut) :
    (ledger cut).ingestAll ingestor.context (transactionsOf fetched rows) =
      (ledger world).ingestAll ingestor.context (transactionsOf fetched rows) := by
  -- Carried along: the ledger is still one of whole transactions, all of them known.
  suffices h : (∃ more, (∀ tx ∈ more, ∃ signature, fetched signature = .ok (some tx)) ∧
      ledger cut = Ledger.empty.ingestAll ingestor.context (txs ++ more)) ∧
      (ledger cut).ingestAll ingestor.context (transactionsOf fetched rows) =
        (ledger world).ingestAll ingestor.context (transactionsOf fetched rows) from h.2
  induction interrupted with
  | refl => exact ⟨⟨[], by simp, by simpa using reached⟩, rfl⟩
  | @tail before cut _ last ih =>
    obtain ⟨⟨more, answered, known⟩, same⟩ := ih
    obtain ⟨pacing, spares, _, left⟩ := last
    have listsHere :=
      (steady.listSelected tree cursor Source.mostRows pages before world).1.trans lists
    obtain ⟨front, rest, split, ingested, _⟩ :=
      @backfill_steady σ (ingestor.paced pacing) ledger fetched listed keeps steady spares tree
        cursor pages before rows listsHere
    have added : ledger cut = (ledger before).ingestAll ingestor.context
        (transactionsOf fetched front) := left.trans ingested
    have whole : ledger cut = Ledger.empty.ingestAll ingestor.context
        (txs ++ (more ++ transactionsOf fetched front)) := by
      rw [added, known, ← Ledger.ingestAll_append, List.append_assoc]
    have all : ∀ tx ∈ more ++ transactionsOf fetched front,
        ∃ signature, fetched signature = .ok (some tx) := by
      intro tx ht
      rcases List.mem_append.mp ht with ht | ht
      · exact answered tx ht
      · exact Source.exists_answer_of_mem_transactionsOf ht
    refine ⟨⟨_, all, whole⟩, ?_⟩
    rw [← same, split, Source.transactionsOf_append]
    have again : (ledger cut).ingestAll ingestor.context
          (transactionsOf fetched front ++ transactionsOf fetched rest) =
        (ledger cut).ingestAll ingestor.context (transactionsOf fetched rest) := by
      rw [whole]
      refine Ledger.ingestAll_again ?_ (by simp)
      intro a ha b hb
      exact consistent a b ((List.mem_append.mp ha).imp_right (all a))
        ((List.mem_append.mp hb).imp_right (all b))
    rw [again, added, Ledger.ingestAll_append]

/-- However often a backfill was cancelled, running it once more from the same cursor succeeds
unless it is cancelled again, and then the ledger and the returned cursor are those of a run that
nothing interrupted. -/
theorem rerun_eq_uninterrupted (keeps : ingestor.store.Keeps ledger)
    (steady : ingestor.source.Steady ledger fetched listed) {start : σ}
    (fresh : ledger start = .empty) {txs : List Transaction}
    (consistent : ∀ a b, (a ∈ txs ∨ ∃ signature, fetched signature = .ok (some a)) →
      (b ∈ txs ∨ ∃ signature, fetched signature = .ok (some b)) → a.signature = b.signature → a = b)
    {tree : Address} {cursor : Cursor} {pages : Nat} {pacing : Pacing σ}
    (spares : pacing.Spares ledger) {outcome : BackfillOutcome}
    (succeeds : ((ingestor.paced pacing).backfill tree cursor pages
      (ingestor.reached start txs)).value = some (.ok outcome))
    {cut : σ} (interrupted : Relation.ReflTransGen (ingestor.Interrupted ledger tree cursor pages)
      (ingestor.reached start txs) cut)
    {again : Pacing σ} (sparesAgain : again.Spares ledger) :
    let uninterrupted := (ingestor.paced pacing).backfill tree cursor pages
      (ingestor.reached start txs)
    let rerun := (ingestor.paced again).backfill tree cursor pages cut
    ((∀ world, again.cancelled world = false) → ∃ done, rerun.value = some (.ok done)) ∧
    ∀ done, rerun.value = some (.ok done) →
      ledger rerun.world = ledger uninterrupted.world ∧ done.cursor = outcome.cursor := by
  intro uninterrupted rerun
  have reached : ledger (ingestor.reached start txs) =
      Ledger.empty.ingestAll ingestor.context txs := by
    rw [ledger_reached keeps, fresh]
    rfl
  obtain ⟨rows, lists, -⟩ := backfill_of_success succeeds
  have listsAgain := (steady.listSelected tree cursor Source.mostRows pages cut
    (ingestor.reached start txs)).1.trans lists
  have same := ingestAll_of_interrupted keeps steady lists consistent reached interrupted
  obtain ⟨_, _, split, direct, ended⟩ := @backfill_steady σ (ingestor.paced pacing) ledger fetched
    listed keeps steady spares tree cursor pages _ rows lists
  obtain ⟨_, _, splitAgain, ingested, endedAgain⟩ := @backfill_steady σ (ingestor.paced again)
    ledger fetched listed keeps steady sparesAgain tree cursor pages cut rows listsAgain
  constructor
  · intro calm
    rcases endedAgain with ⟨⟨done, hv, _⟩, _⟩ | ⟨_, stopped, h⟩
    · exact ⟨done, hv⟩
    · exact absurd (h.symm.trans (calm stopped)) (by simp)
  · intro done hv
    rcases ended with ⟨⟨_, hd, moved⟩, rfl⟩ | ⟨⟨signature, hd⟩, _⟩
    · rcases endedAgain with ⟨⟨_, ha, movedAgain⟩, rfl⟩ | ⟨⟨signature, ha⟩, _⟩
      · rw [List.append_nil] at split splitAgain
        subst split
        subst splitAgain
        cases succeeds.symm.trans hd
        cases hv.symm.trans ha
        exact ⟨ingested.trans (same.trans direct.symm), movedAgain.trans moved.symm⟩
      · cases hv.symm.trans ha
    · cases succeeds.symm.trans hd

/-- The transactions of the sample source by their signatures. -/
def sampleBody (signature : String) : Transaction :=
  { Scan.sampleTransaction true with
    signature
    slot := if signature = "s" then 1 else if signature = "t" then 2 else 3 }

/-- What the sample source has: one signature of its history is not to be had. -/
def sampleAnswers (signature : String) : Except Error (Option Transaction) :=
  .ok (if signature = "u" then none else some (sampleBody signature))

def sampleRows : List HistoryRow :=
  [⟨"t", 2, none, none⟩, ⟨"u", 1, none, none⟩, ⟨"s", 1, none, none⟩]

/-- A token that is set once so many fetches were made. -/
def cancelledAfter (fetches : Nat) : Pacing (Ledger × Nat) :=
  ⟨fun _ world => world, fun world => fetches ≤ world.2⟩

/-- A token that is never set. -/
def unhurried : Pacing (Ledger × Nat) :=
  ⟨fun _ world => world, fun _ => false⟩

def ledgerOf (world : Ledger × Nat) : Ledger :=
  world.1

/-- An ingestor whose world is a ledger and the number of fetches. -/
def sampleBackfiller : Ingestor (Ledger × Nat) where
  context := .standard
  policy := ⟨2, .ofMillis 0, .ofMillis 0⟩
  source := ⟨fun signature world => (sampleAnswers signature, (world.1, world.2 + 1)),
    fun _ _ world => (.ok sampleRows, world)⟩
  pacing := unhurried
  store := ⟨fun event world =>
    ((Ledger.store.apply event world.1).1, (Ledger.store.apply event world.1).2, world.2)⟩

theorem consistent_sampleAnswers (a b : Transaction)
    (ha : a ∈ [sampleBody "k"] ∨ ∃ signature, sampleAnswers signature = .ok (some a))
    (hb : b ∈ [sampleBody "k"] ∨ ∃ signature, sampleAnswers signature = .ok (some b))
    (same : a.signature = b.signature) : a = b := by
  have own : ∀ tx, (tx ∈ [sampleBody "k"] ∨ ∃ signature, sampleAnswers signature = .ok (some tx)) →
      tx = sampleBody tx.signature := by
    rintro tx (h | ⟨signature, h⟩)
    · rw [List.mem_singleton.mp h]
      rfl
    · unfold sampleAnswers at h
      split at h
      next => cases h
      next =>
        cases h
        rfl
  rw [own a ha, own b hb, same]

/-- A backfill over a ledger that knows a transaction of a later slot is cancelled between the two
attempts at its second row, and run again. -/
theorem rerun_eq_uninterrupted_sample :
    let world := sampleBackfiller.reached (.empty, 0) [sampleBody "k"]
    let cut := (sampleBackfiller.paced (cancelledAfter 2)).backfill (.replicate 2) .start 1 world
    let rerun := (sampleBackfiller.paced unhurried).backfill (.replicate 2) .start 1 cut.world
    let direct := (sampleBackfiller.paced unhurried).backfill (.replicate 2) .start 1 world
    cut.value = some (.error (.cancelled "u")) ∧
    ∃ done, rerun.value = some (.ok done) ∧ done.cursor = ⟨some "t", true⟩ ∧
      ledgerOf rerun.world = ledgerOf direct.world := by
  intro world cut rerun direct
  have keeps : sampleBackfiller.store.Keeps ledgerOf :=
    ⟨fun event world => Ledger.keeps_store.answer event world.1,
      fun event world => Ledger.keeps_store.next event world.1⟩
  have steady : sampleBackfiller.source.Steady ledgerOf sampleAnswers (fun _ _ => .ok sampleRows) :=
    ⟨fun _ _ => rfl, fun _ _ _ => rfl, fun _ _ => rfl, fun _ _ _ => rfl⟩
  have stops : cut.value = some (.error (.cancelled "u")) := by decide +kernel
  have ends : direct.value.map (·.map (·.cursor)) = some (.ok ⟨some "t", true⟩) := by
    decide +kernel
  obtain ⟨outcome, succeeds, cursor⟩ : ∃ outcome, direct.value = some (.ok outcome) ∧
      outcome.cursor = ⟨some "t", true⟩ := by
    rcases hv : direct.value with _ | _ | outcome
    · simp [hv] at ends
    · simp [hv, Except.map] at ends
    · simp only [hv, Option.map_some, Except.map, Option.some.injEq, Except.ok.injEq] at ends
      exact ⟨outcome, rfl, ends⟩
  have interrupted :
      sampleBackfiller.Interrupted ledgerOf (.replicate 2) .start 1 world cut.world :=
    ⟨cancelledAfter 2, fun _ _ => rfl, ⟨"u", stops⟩, rfl⟩
  have spares : unhurried.Spares ledgerOf := fun _ _ => rfl
  obtain ⟨finishes, agrees⟩ := rerun_eq_uninterrupted keeps steady rfl consistent_sampleAnswers
    spares succeeds (.single interrupted) spares
  obtain ⟨done, hd⟩ := finishes fun _ => rfl
  obtain ⟨same, moved⟩ := agrees done hd
  exact ⟨stops, done, hd, moved.trans cursor, same⟩

end Ingestor

end LeafLedger
