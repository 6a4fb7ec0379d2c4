import LeafLedger.Sequence

namespace LeafLedger

namespace Watermark

theorem decide_of_last_none {mark : Watermark} (fresh : mark.last = none) (incoming : Sequence) :
    mark.decide incoming = .apply := by
  simp [decide, fresh]

theorem decide_of_slot_lt {mark : Watermark} {last incoming : Sequence}
    (hl : mark.last = some last) (older : incoming.slot < last.slot) :
    mark.decide incoming = .ignoreStale := by
  simp [decide, hl, older]

theorem decide_of_lt_slot {mark : Watermark} {last incoming : Sequence}
    (hl : mark.last = some last) (newer : last.slot < incoming.slot) :
    mark.decide incoming = .apply := by
  simp [decide, hl, newer, UInt64.lt_asymm newer]

/-- Within the slot of the last place the remembered positions decide first. -/
theorem decide_of_slot_eq {mark : Watermark} {last incoming : Sequence}
    (hl : mark.last = some last) (same : incoming.slot = last.slot) :
    mark.decide incoming =
      if (incoming.signature, incoming.ordinal) ∈ mark.appliedInSlot then .ignoreDuplicate
      else if incoming.overtakenBy last then .ignoreStale
      else .apply := by
  simp [decide, hl, same, UInt64.lt_irrefl]

theorem slot_le_of_decide_apply {mark : Watermark} {last incoming : Sequence}
    (hl : mark.last = some last) (applied : mark.decide incoming = .apply) :
    last.slot ≤ incoming.slot := by
  refine UInt64.not_lt.mp ?_
  intro older
  have stale := decide_of_slot_lt hl older
  rw [stale] at applied
  cases applied

theorem decide_eq_ignoreDuplicate_iff {mark : Watermark} {last incoming : Sequence}
    (hl : mark.last = some last) :
    mark.decide incoming = .ignoreDuplicate ↔
      incoming.slot = last.slot ∧ (incoming.signature, incoming.ordinal) ∈ mark.appliedInSlot := by
  by_cases same : incoming.slot = last.slot
  · rw [decide_of_slot_eq hl same]
    by_cases hm : (incoming.signature, incoming.ordinal) ∈ mark.appliedInSlot
    · simp [hm, same]
    · by_cases ho : incoming.overtakenBy last <;> simp [hm, ho]
  · rcases UInt64.lt_or_lt_of_ne same with older | newer
    · simp [decide_of_slot_lt hl older, same]
    · simp [decide_of_lt_slot hl newer, same]

theorem decide_cases (mark : Watermark) (incoming : Sequence) :
    mark.decide incoming = .apply ∨ mark.decide incoming = .ignoreStale ∨
      mark.decide incoming = .ignoreDuplicate := by
  unfold decide
  repeat' split
  all_goals simp

theorem offer_of_apply {mark : Watermark} {incoming : Sequence}
    (applied : mark.decide incoming = .apply) :
    (mark.offer incoming).2 = mark.record incoming := by
  simp [offer, applied]

theorem offer_of_not_apply {mark : Watermark} {incoming : Sequence}
    (ignored : mark.decide incoming ≠ .apply) : (mark.offer incoming).2 = mark := by
  rcases decide_cases mark incoming with apply | stale | duplicate
  · exact absurd apply ignored
  · simp [offer, stale]
  · simp [offer, duplicate]

/-- The last place after an offer is the offered one or the one before. -/
theorem last_offer_cases (mark : Watermark) (incoming : Sequence) :
    (mark.offer incoming).2.last = some incoming ∨ (mark.offer incoming).2.last = mark.last := by
  by_cases applied : mark.decide incoming = .apply
  · exact Or.inl (by rw [offer_of_apply applied]; rfl)
  · exact Or.inr (by rw [offer_of_not_apply applied])

@[simp] theorem last_record (mark : Watermark) (applied : Sequence) :
    (mark.record applied).last = some applied :=
  rfl

/-- The position of an applied place joins the remembered ones, unless its slot starts over. -/
theorem mem_appliedInSlot_record (mark : Watermark) (applied : Sequence)
    (position : String × Nat) :
    position ∈ (mark.record applied).appliedInSlot ↔
      position = (applied.signature, applied.ordinal) ∨
        (∀ last ∈ mark.last, last.slot = applied.slot) ∧ position ∈ mark.appliedInSlot := by
  cases hl : mark.last with
  | none => simp [record, hl]
  | some last => by_cases same : last.slot = applied.slot <;> simp [record, hl, same]

end Watermark

end LeafLedger
