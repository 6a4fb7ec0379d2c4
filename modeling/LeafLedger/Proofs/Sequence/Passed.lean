import LeafLedger.Proofs.Sequence.Watermark

namespace LeafLedger

namespace Watermark

/-- A place is passed in the slots before the last one, and in its slot once it was applied. -/
def Passed (mark : Watermark) (place : Sequence) : Prop :=
  ∃ last, mark.last = some last ∧ place.slot ≤ last.slot ∧
    (place.slot = last.slot → (place.signature, place.ordinal) ∈ mark.appliedInSlot)

/-- All that is remembered of the transaction of a place lies before the place. -/
structure Awaits (mark : Watermark) (place : Sequence) : Prop where
  last : ∀ last, mark.last = some last → last.signature = place.signature →
    last.ordinal < place.ordinal
  positions : ∀ position ∈ mark.appliedInSlot, position.1 = place.signature →
    position.2 < place.ordinal

variable {mark : Watermark} {place other : Sequence}

theorem Passed.decide_ne_apply (passed : mark.Passed place) : mark.decide place ≠ .apply := by
  obtain ⟨last, hl, le, known⟩ := passed
  by_cases same : place.slot = last.slot
  · rw [decide_of_slot_eq hl same, if_pos (known same)]
    simp
  · rw [decide_of_slot_lt hl (UInt64.lt_of_le_of_ne le same)]
    simp

theorem passed_record (mark : Watermark) (place : Sequence) : (mark.record place).Passed place :=
  ⟨place, rfl, UInt64.le_refl _, fun _ =>
    (mem_appliedInSlot_record mark place _).mpr (Or.inl rfl)⟩

/-- A place that was passed stays passed. -/
theorem Passed.offer (passed : mark.Passed place) (other : Sequence) :
    (mark.offer other).2.Passed place := by
  by_cases applied : mark.decide other = .apply
  · obtain ⟨last, hl, le, known⟩ := passed
    have upper := slot_le_of_decide_apply hl applied
    rw [offer_of_apply applied]
    refine ⟨other, rfl, UInt64.le_trans le upper, ?_⟩
    intro same
    have slot : last.slot = other.slot := UInt64.le_antisymm upper (same ▸ le)
    refine (mem_appliedInSlot_record mark other _).mpr (Or.inr ⟨?_, known (same.trans slot.symm)⟩)
    intro last' hl'
    rw [hl] at hl'
    exact Option.some.inj hl' ▸ slot
  · rwa [offer_of_not_apply applied]

theorem awaits_empty (place : Sequence) : empty.Awaits place where
  last _ h := by cases h
  positions _ h := by cases h

/-- An awaited place is applied, unless its slot is over. -/
theorem Awaits.decide_cases (awaits : mark.Awaits place) :
    mark.decide place = .apply ∨ ∃ last, mark.last = some last ∧ place.slot < last.slot := by
  cases hl : mark.last with
  | none => exact Or.inl (decide_of_last_none hl place)
  | some last =>
    by_cases same : place.slot = last.slot
    · have fresh : (place.signature, place.ordinal) ∉ mark.appliedInSlot := fun known =>
        absurd (awaits.positions _ known rfl) (Nat.lt_irrefl _)
      have ahead : place.overtakenBy last = false := by
        simp only [Sequence.overtakenBy, Bool.and_eq_false_imp, beq_iff_eq, decide_eq_false_iff_not]
        intro own
        have before := awaits.last last hl own.symm
        omega
      rw [decide_of_slot_eq hl same, if_neg fresh, ahead]
      exact Or.inl rfl
    · rcases UInt64.lt_or_lt_of_ne same with older | newer
      · exact Or.inr ⟨last, rfl, older⟩
      · exact Or.inl (decide_of_lt_slot hl newer)

/-- An awaited place is passed once it was offered. -/
theorem Awaits.passed_offer (awaits : mark.Awaits place) : (mark.offer place).2.Passed place := by
  rcases awaits.decide_cases with applied | ⟨last, hl, older⟩
  · rw [offer_of_apply applied]
    exact passed_record mark place
  · have stale := decide_of_slot_lt hl older
    rw [offer_of_not_apply (by simp [stale])]
    exact ⟨last, hl, UInt64.le_of_lt older, fun same => absurd older (same ▸ UInt64.lt_irrefl _)⟩

/-- A place is awaited until it, or one behind it in its transaction, is offered. -/
theorem Awaits.offer (awaits : mark.Awaits place)
    (before : other.signature = place.signature → other.ordinal < place.ordinal) :
    (mark.offer other).2.Awaits place := by
  by_cases applied : mark.decide other = .apply
  · rw [offer_of_apply applied]
    refine ⟨?_, ?_⟩
    · rintro last ⟨⟩
      exact before
    · intro position known
      rcases (mem_appliedInSlot_record mark other position).mp known with rfl | ⟨_, kept⟩
      · exact before
      · exact awaits.positions position kept
  · rwa [offer_of_not_apply applied]

/-- All that is remembered lies in other transactions and in no later slot. -/
structure Behind (mark : Watermark) (place : Sequence) : Prop where
  slot : ∀ last, mark.last = some last → last.slot ≤ place.slot
  last : ∀ last, mark.last = some last → last.signature ≠ place.signature
  positions : ∀ position ∈ mark.appliedInSlot, position.1 ≠ place.signature

theorem behind_empty (place : Sequence) : empty.Behind place where
  slot _ h := by cases h
  last _ h := by cases h
  positions _ h := by cases h

theorem Behind.awaits (behind : mark.Behind place) : mark.Awaits place where
  last last hl same := absurd same (behind.last last hl)
  positions position known same := absurd same (behind.positions position known)

theorem decide_of_behind (behind : mark.Behind place) : mark.decide place = .apply := by
  rcases behind.awaits.decide_cases with apply | ⟨last, hl, older⟩
  · exact apply
  · exact absurd (behind.slot last hl) (UInt64.not_le.mpr older)

theorem Behind.record {applied : Sequence} (behind : mark.Behind place)
    (slot : applied.slot ≤ place.slot) (signature : applied.signature ≠ place.signature) :
    (mark.record applied).Behind place := by
  refine ⟨?_, ?_, ?_⟩
  · rintro last ⟨⟩
    exact slot
  · rintro last ⟨⟩
    exact signature
  · intro position known
    rcases (mem_appliedInSlot_record mark applied position).mp known with rfl | ⟨_, kept⟩
    · exact signature
    · exact behind.positions position kept

end Watermark

end LeafLedger
