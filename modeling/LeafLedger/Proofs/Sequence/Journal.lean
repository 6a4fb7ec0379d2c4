import LeafLedger.Proofs.Sequence.Watermark
import Mathlib.Data.List.Induction
import Mathlib.Data.List.Nodup

namespace LeafLedger

/-- A watermark with all places that were applied under it, the first one first. -/
structure Journal where
  mark : Watermark
  applied : List Sequence

namespace Journal

/-- Nothing offered yet. -/
def empty : Journal :=
  ⟨.empty, []⟩

/-- Offers a place to the watermark, and enters it if it is applied. -/
def offer (journal : Journal) (incoming : Sequence) : Journal :=
  match journal.mark.offer incoming with
  | (.apply, mark) => ⟨mark, journal.applied ++ [incoming]⟩
  | (_, mark) => ⟨mark, journal.applied⟩

/-- The journal after places were offered one after the other. -/
def run (offers : List Sequence) : Journal :=
  offers.foldl offer empty

theorem run_concat (offers : List Sequence) (incoming : Sequence) :
    run (offers ++ [incoming]) = (run offers).offer incoming := by
  simp [run, List.foldl_append]

theorem offer_of_apply {journal : Journal} {incoming : Sequence}
    (h : journal.mark.decide incoming = .apply) :
    journal.offer incoming = ⟨journal.mark.record incoming, journal.applied ++ [incoming]⟩ := by
  simp [offer, Watermark.offer, h]

theorem offer_of_not_apply {journal : Journal} {incoming : Sequence}
    (h : journal.mark.decide incoming ≠ .apply) : journal.offer incoming = journal := by
  cases hd : journal.mark.decide incoming with
  | apply => exact absurd hd h
  | ignoreStale | ignoreDuplicate | ignoreUnidentified => simp [offer, Watermark.offer, hd]

@[simp] theorem mark_offer (journal : Journal) (incoming : Sequence) :
    (journal.offer incoming).mark = (journal.mark.offer incoming).2 := by
  unfold offer
  split <;> simp_all

/-- The watermark tells of the applied places what is left of them: the last one, and the positions
in its slot. -/
structure Faithful (journal : Journal) : Prop where
  slots : journal.applied.Pairwise fun a b => a.slot ≤ b.slot
  nodup : journal.applied.Nodup
  last : journal.mark.last = journal.applied.getLast?
  positions : ∀ signature ordinal, (signature, ordinal) ∈ journal.mark.appliedInSlot ↔
    ∃ place ∈ journal.applied.getLast?, ⟨place.slot, signature, ordinal⟩ ∈ journal.applied

theorem faithful_empty : empty.Faithful where
  slots := List.Pairwise.nil
  nodup := List.nodup_nil
  last := rfl
  positions := by simp [empty, Watermark.empty]

theorem exists_last_of_mem {journal : Journal} {place : Sequence}
    (hp : place ∈ journal.applied) : ∃ last, journal.applied.getLast? = some last :=
  Option.isSome_iff_exists.mp (List.getLast?_isSome.mpr (List.ne_nil_of_mem hp))

/-- No applied place has a higher slot than the last one. -/
theorem Faithful.slot_le_last {journal : Journal} (faithful : journal.Faithful)
    {last place : Sequence} (hl : journal.applied.getLast? = some last)
    (hp : place ∈ journal.applied) : place.slot ≤ last.slot := by
  obtain ⟨earlier, split⟩ := List.getLast?_eq_some_iff.mp hl
  have sorted := faithful.slots
  rw [split] at hp sorted
  rcases List.mem_append.mp hp with hp | hp
  · exact (List.pairwise_append.mp sorted).2.2 place hp last (by simp)
  · have eq : place = last := by simpa using hp
    subst eq
    exact UInt64.le_refl _

/-- A place that was applied before is never applied again. -/
theorem Faithful.not_mem_of_decide_apply {journal : Journal} (faithful : journal.Faithful)
    {incoming : Sequence} (h : journal.mark.decide incoming = .apply) :
    incoming ∉ journal.applied := by
  intro hm
  cases hl : journal.applied.getLast? with
  | none => simp [List.getLast?_eq_none_iff.mp hl] at hm
  | some last =>
    have hlast := faithful.last.trans hl
    have upper := faithful.slot_le_last hl hm
    have lower := Watermark.slot_le_of_decide_apply hlast h
    have same : incoming.slot = last.slot := UInt64.le_antisymm upper lower
    have known : (incoming.signature, incoming.ordinal) ∈ journal.mark.appliedInSlot := by
      apply (faithful.positions _ _).mpr
      exact ⟨last, hl, by rw [← same]; exact hm⟩
    have duplicate := (Watermark.decide_eq_ignoreDuplicate_iff hlast).mpr ⟨same, known⟩
    rw [duplicate] at h
    cases h

/-- No applied place has a higher slot than one that is applied next. -/
theorem Faithful.slot_le_of_decide_apply {journal : Journal} (faithful : journal.Faithful)
    {incoming place : Sequence} (h : journal.mark.decide incoming = .apply)
    (hp : place ∈ journal.applied) : place.slot ≤ incoming.slot := by
  obtain ⟨last, hl⟩ := exists_last_of_mem hp
  have lower := Watermark.slot_le_of_decide_apply (faithful.last.trans hl) h
  exact UInt64.le_trans (faithful.slot_le_last hl hp) lower

theorem Faithful.positions_offer {journal : Journal} (faithful : journal.Faithful)
    {incoming : Sequence} (h : journal.mark.decide incoming = .apply) (signature : String)
    (ordinal : Nat) :
    (signature, ordinal) ∈ (journal.mark.record incoming).appliedInSlot ↔
      ⟨incoming.slot, signature, ordinal⟩ ∈ journal.applied ++ [incoming] := by
  rw [Watermark.mem_appliedInSlot_record, List.mem_append, faithful.positions, faithful.last]
  constructor
  · intro hh
    rcases hh with same | ⟨slots, last, hl, hm⟩
    · obtain ⟨rfl, rfl⟩ := Prod.mk.inj same
      simp
    · left
      rw [← slots last hl]
      exact hm
  · intro hh
    rcases hh with hm | hm
    · right
      obtain ⟨last, hl⟩ := exists_last_of_mem hm
      have upper := faithful.slot_le_last hl hm
      have lower := faithful.slot_le_of_decide_apply h (List.mem_of_getLast? hl)
      have same : last.slot = incoming.slot := UInt64.le_antisymm lower upper
      refine ⟨?_, last, hl, by rw [same]; exact hm⟩
      intro other ho
      have eq : last = other := Option.some.inj (hl.symm.trans ho)
      rw [← eq]
      exact same
    · left
      have eq : (⟨incoming.slot, signature, ordinal⟩ : Sequence) = incoming := by simpa using hm
      rw [← eq]

theorem Faithful.offer {journal : Journal} (faithful : journal.Faithful) (incoming : Sequence) :
    (journal.offer incoming).Faithful := by
  by_cases h : journal.mark.decide incoming = .apply
  · rw [offer_of_apply h]
    refine ⟨?_, ?_, ?_, ?_⟩
    · refine List.pairwise_append.mpr ⟨faithful.slots, List.pairwise_singleton _ _, ?_⟩
      intro place hp next hn
      rw [List.mem_singleton.mp hn]
      exact faithful.slot_le_of_decide_apply h hp
    · simpa using List.Nodup.concat (faithful.not_mem_of_decide_apply h) faithful.nodup
    · simp
    · intro signature ordinal
      rw [faithful.positions_offer h]
      simp
  · rw [offer_of_not_apply h]
    exact faithful

theorem faithful_run (offers : List Sequence) : (run offers).Faithful := by
  induction offers using List.reverseRecOn with
  | nil => exact faithful_empty
  | append_singleton offers incoming ih =>
    rw [run_concat]
    exact ih.offer incoming

/-- A place is a duplicate exactly if it stands in the history and no higher slot came after it. -/
theorem Faithful.decide_eq_ignoreDuplicate_iff {journal : Journal} (faithful : journal.Faithful)
    (incoming : Sequence) :
    journal.mark.decide incoming = .ignoreDuplicate ↔
      ∃ earlier since, journal.applied = earlier ++ incoming :: since ∧
        ∀ place ∈ since, ¬incoming.slot < place.slot := by
  cases hl : journal.applied.getLast? with
  | none =>
    have none : journal.applied = [] := List.getLast?_eq_none_iff.mp hl
    simp [Watermark.decide_of_last_none (faithful.last.trans hl), none]
  | some last =>
    rw [Watermark.decide_eq_ignoreDuplicate_iff (faithful.last.trans hl), faithful.positions]
    constructor
    · intro hh
      obtain ⟨same, other, ho, hm⟩ := hh
      have eq : last = other := Option.some.inj (hl.symm.trans ho)
      rw [← eq, ← same] at hm
      obtain ⟨earlier, since, split⟩ := List.append_of_mem hm
      refine ⟨earlier, since, split, ?_⟩
      intro place hp
      rw [same]
      exact UInt64.not_lt.mpr (faithful.slot_le_last hl (by simp [split, hp]))
    · intro hh
      obtain ⟨earlier, since, split, lower⟩ := hh
      have hm : incoming ∈ journal.applied := by simp [split]
      have same : incoming.slot = last.slot := by
        refine UInt64.le_antisymm (faithful.slot_le_last hl hm) ?_
        have hlast : last ∈ incoming :: since := by
          rw [split, List.getLast?_append_cons] at hl
          exact List.mem_of_getLast? hl
        rcases List.mem_cons.mp hlast with rfl | hs
        · exact UInt64.le_refl _
        · exact UInt64.not_lt.mp (lower last hs)
      exact ⟨same, last, hl, by rw [← same]; exact hm⟩

/-- A place below some applied slot is stale, and one above all of them is applied. -/
theorem Faithful.decide_of_slots {journal : Journal} (faithful : journal.Faithful)
    (incoming : Sequence) :
    ((∃ place ∈ journal.applied, incoming.slot < place.slot) →
      journal.mark.decide incoming = .ignoreStale) ∧
    ((∀ place ∈ journal.applied, place.slot < incoming.slot) →
      journal.mark.decide incoming = .apply) := by
  constructor
  · intro hh
    obtain ⟨place, hp, older⟩ := hh
    obtain ⟨last, hl⟩ := exists_last_of_mem hp
    have upper := faithful.slot_le_last hl hp
    exact Watermark.decide_of_slot_lt (faithful.last.trans hl) (UInt64.lt_of_lt_of_le older upper)
  · intro newer
    cases hl : journal.applied.getLast? with
    | none => exact Watermark.decide_of_last_none (faithful.last.trans hl) incoming
    | some last =>
      exact Watermark.decide_of_lt_slot (faithful.last.trans hl)
        (newer last (List.mem_of_getLast? hl))

/-- After any offers the applied slots never went down and no place was applied twice. The watermark
holds the last applied place and exactly the positions applied in its slot, and what it decides next
is what the whole history says. -/
theorem decides_as_history (offers : List Sequence) (incoming : Sequence) :
    let applied := (run offers).applied
    let mark := (run offers).mark
    (applied.Pairwise fun a b => a.slot ≤ b.slot) ∧
    applied.Nodup ∧
    mark.last = applied.getLast? ∧
    (∀ signature ordinal, (signature, ordinal) ∈ mark.appliedInSlot ↔
      ∃ last ∈ applied.getLast?, ∃ place ∈ applied, place.slot = last.slot ∧
        place.signature = signature ∧ place.ordinal = ordinal) ∧
    ((∃ place ∈ applied, incoming.slot < place.slot) → mark.decide incoming = .ignoreStale) ∧
    ((∀ place ∈ applied, place.slot < incoming.slot) → mark.decide incoming = .apply) ∧
    (mark.decide incoming = .ignoreDuplicate ↔
      ∃ earlier since, applied = earlier ++ incoming :: since ∧
        ∀ place ∈ since, ¬incoming.slot < place.slot) := by
  intro applied mark
  have faithful := faithful_run offers
  obtain ⟨stale, apply⟩ := faithful.decide_of_slots incoming
  refine ⟨faithful.slots, faithful.nodup, faithful.last, ?_, stale, apply,
    faithful.decide_eq_ignoreDuplicate_iff incoming⟩
  intro signature ordinal
  refine (faithful.positions signature ordinal).trans ?_
  constructor
  · intro hh
    obtain ⟨last, hl, hm⟩ := hh
    exact ⟨last, hl, _, hm, rfl, rfl, rfl⟩
  · intro hh
    obtain ⟨last, hl, place, hp, slot, rfl, rfl⟩ := hh
    refine ⟨last, hl, ?_⟩
    rw [← slot]
    exact hp

end Journal

end LeafLedger
