import LeafLedger.Proofs.Sequence.Journal
import Mathlib.Data.List.Chain

namespace LeafLedger

/-- Whether a place is in the transaction with a slot and a signature. -/
def Sequence.isIn (place : Sequence) (slot : UInt64) (signature : String) : Bool :=
  place.slot == slot && place.signature == signature

theorem Sequence.isIn_iff {place : Sequence} {slot : UInt64} {signature : String} :
    place.isIn slot signature ↔ place.slot = slot ∧ place.signature = signature := by
  simp [isIn]

theorem Watermark.ordinal_lt_of_decide_apply {mark : Watermark} {last incoming : Sequence}
    (hl : mark.last = some last) (known : (last.signature, last.ordinal) ∈ mark.appliedInSlot)
    (applied : mark.decide incoming = .apply) (slot : last.slot = incoming.slot)
    (signature : last.signature = incoming.signature) : last.ordinal < incoming.ordinal := by
  rw [decide_of_slot_eq hl slot.symm] at applied
  split at applied
  next => cases applied
  next fresh =>
    split at applied
    next => cases applied
    next ahead =>
      have hne : last.ordinal ≠ incoming.ordinal := by
        intro same
        rw [signature, same] at known
        exact fresh known
      have hle : ¬incoming.ordinal < last.ordinal := by
        simpa [Sequence.overtakenBy, signature] using ahead
      omega

namespace Journal

/-- The ordinals of the places of a transaction, in the order in which they were applied. -/
def ordinals (journal : Journal) (slot : UInt64) (signature : String) : List Nat :=
  (journal.applied.filter (·.isIn slot signature)).map (·.ordinal)

theorem ordinals_pairwise_iff {journal : Journal} {slot : UInt64} {signature : String} :
    (journal.ordinals slot signature).Pairwise (· < ·) ↔
      journal.applied.Pairwise fun a b =>
        a.isIn slot signature → b.isIn slot signature → a.ordinal < b.ordinal := by
  rw [ordinals, List.pairwise_map, List.pairwise_filter]

/-- Of two places that were applied one right after the other, the order is kept. -/
theorem isChain_applied (offers : List Sequence) :
    (run offers).applied.IsChain fun a b =>
      a.slot = b.slot → a.signature = b.signature → a.ordinal < b.ordinal := by
  induction offers using List.reverseRecOn with
  | nil => exact List.IsChain.nil
  | append_singleton offers incoming ih =>
    have faithful := faithful_run offers
    rw [run_concat]
    by_cases hd : (run offers).mark.decide incoming = .apply
    · rw [offer_of_apply hd]
      refine List.isChain_append.mpr ⟨ih, List.isChain_singleton _, ?_⟩
      intro last hl next hn slot signature
      have eq : next = incoming := by simpa using hn.symm
      subst eq
      have hlast := faithful.last.trans hl
      have known := (faithful.positions last.signature last.ordinal).mpr
        ⟨last, hl, List.mem_of_getLast? hl⟩
      exact Watermark.ordinal_lt_of_decide_apply hlast known hd slot signature
    · rw [offer_of_not_apply hd]
      exact ih

/-- Places of a transaction are in order if neighbours are, and if each one that comes after another
transaction is ahead of none before it. -/
theorem pairwise_of_returns {slot : UInt64} {signature : String} {places : List Sequence}
    (chain : places.IsChain fun a b =>
      a.slot = b.slot → a.signature = b.signature → a.ordinal < b.ordinal)
    (returns : ∀ earlier previous incoming since,
      places = earlier ++ previous :: incoming :: since →
      incoming.isIn slot signature → ¬previous.isIn slot signature →
      ∀ place ∈ earlier, place.isIn slot signature → place.ordinal < incoming.ordinal) :
    places.Pairwise fun a b =>
      a.isIn slot signature → b.isIn slot signature → a.ordinal < b.ordinal := by
  induction places using List.reverseRecOn with
  | nil => exact List.Pairwise.nil
  | append_singleton front incoming ih =>
    obtain ⟨before, _, link⟩ := List.isChain_append.mp chain
    have sorted := ih before fun earlier previous next since split =>
      returns earlier previous next (since ++ [incoming]) (by simp [split])
    refine List.pairwise_append.mpr ⟨sorted, List.pairwise_singleton _ _, ?_⟩
    intro place hp next hn hin hnext
    rw [List.mem_singleton.mp hn] at hnext ⊢
    rcases List.eq_nil_or_concat front with rfl | ⟨earlier, previous, rfl⟩
    · cases hp
    · rw [List.concat_eq_append] at hp sorted link returns
      by_cases same : previous.isIn slot signature
      · obtain ⟨hslot, hsignature⟩ := Sequence.isIn_iff.mp same
        obtain ⟨nslot, nsignature⟩ := Sequence.isIn_iff.mp hnext
        have hlt := link previous (by simp) incoming (by simp) (hslot.trans nslot.symm)
          (hsignature.trans nsignature.symm)
        rcases List.mem_append.mp hp with he | he
        · have hle := (List.pairwise_append.mp sorted).2.2 place he previous (by simp) hin same
          omega
        · rw [List.mem_singleton.mp he]
          exact hlt
      · rcases List.mem_append.mp hp with he | he
        · exact returns earlier previous incoming [] (by simp) hnext same place he hin
        · rw [List.mem_singleton.mp he] at hin
          exact absurd hin same

/-- The places of a transaction are applied in their order exactly if none of them is applied right
after a place of another transaction while a later one of its own was applied before. -/
theorem ordinals_increase_iff (offers : List Sequence) (slot : UInt64) (signature : String) :
    ((run offers).ordinals slot signature).Pairwise (· < ·) ↔
      ∀ earlier previous incoming since,
        (run offers).applied = earlier ++ previous :: incoming :: since →
        incoming.isIn slot signature → ¬previous.isIn slot signature →
        ∀ place ∈ earlier, place.isIn slot signature → place.ordinal < incoming.ordinal := by
  rw [ordinals_pairwise_iff]
  constructor
  · intro sorted earlier previous incoming since split hnext _ place hp hin
    rw [split] at sorted
    exact (List.pairwise_append.mp sorted).2.2 place hp incoming (by simp) hin hnext
  · exact pairwise_of_returns (isChain_applied offers)

/-- One place of another transaction in between, and the earlier instruction is applied after the
later one. -/
theorem ordinals_decrease_interleaved :
    let journal := run [⟨1, "a", 1⟩, ⟨1, "b", 0⟩, ⟨1, "a", 0⟩]
    journal.ordinals 1 "a" = [1, 0] ∧ ¬(journal.ordinals 1 "a").Pairwise (· < ·) := by
  decide

end Journal

end LeafLedger
