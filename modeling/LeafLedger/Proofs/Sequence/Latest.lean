import LeafLedger.Proofs.Sequence.Journal

namespace LeafLedger

namespace Sequence

/-- Whether a place is no later than another, signatures aside. -/
def upTo (a b : Sequence) : Prop :=
  a.slot < b.slot ∨ a.slot = b.slot ∧ a.ordinal ≤ b.ordinal

theorem upTo_iff {a b : Sequence} :
    a.upTo b ↔ a.slot.toNat < b.slot.toNat ∨
      a.slot.toNat = b.slot.toNat ∧ a.ordinal ≤ b.ordinal := by
  simp only [upTo, UInt64.lt_iff_toNat_lt, ← UInt64.toNat_inj]

theorem upTo_refl (a : Sequence) : a.upTo a :=
  Or.inr ⟨rfl, Nat.le_refl _⟩

theorem upTo_trans {a b c : Sequence} (hab : a.upTo b) (hbc : b.upTo c) : a.upTo c := by
  rw [upTo_iff] at *
  omega

theorem upTo_of_not_upTo {a b : Sequence} (h : ¬a.upTo b) : b.upTo a := by
  rw [upTo_iff] at *
  omega

theorem eq_of_upTo {a b : Sequence} (hab : a.upTo b) (hba : b.upTo a)
    (signer : a.slot = b.slot → a.signature = b.signature) : a = b := by
  rw [upTo_iff] at hab hba
  have slot : a.slot = b.slot := UInt64.toNat_inj.mp (by omega)
  have ordinal : a.ordinal = b.ordinal := by omega
  have signature := signer slot
  cases a
  cases b
  simp_all

theorem before_of_upTo {a b : Sequence} (hab : a.upTo b) (hne : a ≠ b)
    (signer : a.slot = b.slot → a.signature = b.signature) : a.before b = true := by
  have hba : ¬b.upTo a := fun hba => hne (eq_of_upTo hab hba signer)
  rcases hab with older | ⟨slot, ordinal⟩
  · simp [before, older]
  · have signature := signer slot
    have less : a.ordinal < b.ordinal := by
      rw [upTo_iff] at hba
      have := UInt64.toNat_inj.mpr slot
      omega
    simp [before, slot, signature, less]

end Sequence

namespace Journal

theorem mem_of_mem_applied {offers : List Sequence} {place : Sequence}
    (h : place ∈ (run offers).applied) : place ∈ offers := by
  induction offers using List.reverseRecOn with
  | nil => simp [run, empty] at h
  | append_singleton offers incoming ih =>
    rw [run_concat] at h
    rw [List.mem_append]
    by_cases hd : (run offers).mark.decide incoming = .apply
    · rw [offer_of_apply hd] at h
      exact (List.mem_append.mp h).imp_left ih
    · rw [offer_of_not_apply hd] at h
      exact Or.inl (ih h)

theorem mem_of_decide_ignoreDuplicate {offers : List Sequence} {incoming : Sequence}
    (h : (run offers).mark.decide incoming = .ignoreDuplicate) : incoming ∈ offers := by
  obtain ⟨earlier, since, split, _⟩ :=
    ((faithful_run offers).decide_eq_ignoreDuplicate_iff incoming).mp h
  exact mem_of_mem_applied (by simp [split])

/-- A later place than the last one is applied. -/
theorem decide_of_not_upTo {offers : List Sequence} {last incoming : Sequence}
    (hl : (run offers).mark.last = some last) (latest : ∀ place ∈ offers, place.upTo last)
    (later : ¬incoming.upTo last) : (run offers).mark.decide incoming = .apply := by
  have fresh : incoming ∉ offers := fun h => later (latest incoming h)
  by_cases same : incoming.slot = last.slot
  · have unknown : (incoming.signature, incoming.ordinal) ∉ (run offers).mark.appliedInSlot := by
      intro known
      have duplicate := (Watermark.decide_eq_ignoreDuplicate_iff hl).mpr ⟨same, known⟩
      exact fresh (mem_of_decide_ignoreDuplicate duplicate)
    have ahead : incoming.overtakenBy last = false := by
      rw [Sequence.upTo_iff, same] at later
      simp only [Sequence.overtakenBy, Bool.and_eq_false_iff, decide_eq_false_iff_not]
      omega
    simp [Watermark.decide_of_slot_eq hl same, unknown, ahead]
  · have newer : last.slot < incoming.slot := by
      rw [Sequence.upTo_iff] at later
      rw [UInt64.lt_iff_toNat_lt]
      have := mt UInt64.toNat_inj.mp same
      omega
    exact Watermark.decide_of_lt_slot hl newer

/-- A place that is no later than the last one is not applied, if their slot holds one
transaction. -/
theorem decide_of_upTo {offers : List Sequence} {last incoming : Sequence}
    (hl : (run offers).mark.last = some last) (sooner : incoming.upTo last)
    (signer : incoming.slot = last.slot → incoming.signature = last.signature) :
    (run offers).mark.decide incoming ≠ .apply := by
  have faithful := faithful_run offers
  rcases sooner with older | ⟨same, ordinal⟩
  · simp [Watermark.decide_of_slot_lt hl older]
  · rcases Nat.lt_or_eq_of_le ordinal with less | eq
    · have behind : incoming.overtakenBy last = true := by
        simp [Sequence.overtakenBy, signer same, less]
      rw [Watermark.decide_of_slot_eq hl same, behind]
      split <;> simp
    · have known : (incoming.signature, incoming.ordinal) ∈ (run offers).mark.appliedInSlot := by
        rw [faithful.last] at hl
        rw [signer same, eq]
        exact (faithful.positions _ _).mpr ⟨last, hl, List.mem_of_getLast? hl⟩
      simp [(Watermark.decide_eq_ignoreDuplicate_iff hl).mpr ⟨same, known⟩]

/-- The last place is the latest one offered, in whatever order the offers came. -/
theorem last_run {offers : List Sequence} (hne : offers ≠ [])
    (signers : ∀ a ∈ offers, ∀ b ∈ offers, a.slot = b.slot → a.signature = b.signature) :
    ∃ last ∈ offers, (run offers).mark.last = some last ∧ ∀ place ∈ offers, place.upTo last := by
  induction offers using List.reverseRecOn with
  | nil => exact absurd rfl hne
  | append_singleton offers incoming ih =>
    rw [run_concat]
    by_cases first : offers = []
    · subst first
      exact ⟨incoming, by simp, rfl, by simp [Sequence.upTo_refl]⟩
    · obtain ⟨last, hm, hl, latest⟩ := ih first
        (fun a ha b hb => signers a (by simp [ha]) b (by simp [hb]))
      by_cases later : incoming.upTo last
      · have kept := decide_of_upTo hl later (signers incoming (by simp) last (by simp [hm]))
        rw [offer_of_not_apply kept]
        refine ⟨last, by simp [hm], hl, ?_⟩
        intro place hp
        rcases List.mem_append.mp hp with hp | hp
        · exact latest place hp
        · rw [List.mem_singleton.mp hp]
          exact later
      · rw [offer_of_apply (decide_of_not_upTo hl latest later)]
        refine ⟨incoming, by simp, rfl, ?_⟩
        intro place hp
        rcases List.mem_append.mp hp with hp | hp
        · exact Sequence.upTo_trans (latest place hp) (Sequence.upTo_of_not_upTo later)
        · rw [List.mem_singleton.mp hp]
          exact Sequence.upTo_refl incoming

end Journal

end LeafLedger
