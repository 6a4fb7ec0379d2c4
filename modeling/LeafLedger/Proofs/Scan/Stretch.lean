import LeafLedger.Proofs.Scan.Forward

namespace LeafLedger

/-- Two transactions that differ at most in what they run: they have the same keys, slot and
signature. -/
structure Transaction.SameFrame (tx other : Transaction) : Prop where
  table : KeyTable.ofTransaction tx = KeyTable.ofTransaction other
  slot : tx.slot = other.slot
  signature : tx.signature = other.signature

theorem Instruction.event?_of_sameFrame {tx other : Transaction} (frame : tx.SameFrame other)
    (context : ScanContext) (leaf : Option LeafSchema) (i : Instruction) :
    i.event? context tx leaf = i.event? context other leaf := by
  simp only [event?, frame.table, frame.slot, frame.signature]

namespace Scan

variable {context : ScanContext} {tx : Transaction}

/-- The events of a stretch of instructions, given those that run after it. -/
def eventsBefore (context : ScanContext) (tx : Transaction) (later : List Instruction) :
    List Instruction → List Event
  | [] => []
  | i :: rest =>
    (i.event? context tx (leafAhead context i.position (rest ++ later))).toList ++
      eventsBefore context tx later rest

theorem events_eq_eventsBefore (context : ScanContext) (tx : Transaction) :
    (tx.scan context).events =
      eventsBefore context tx [] (tx.execution (.ofTransaction tx)).instructions := by
  have walk : ∀ instructions : List Instruction,
      (∀ i ∈ instructions, i.origin = .top ∨ i.origin = .nested i.position) →
      (instructions.foldr (Walk.visit context (.ofTransaction tx) tx) .start).events =
        eventsBefore context tx [] instructions := by
    intro instructions nested
    induction instructions with
    | nil => rfl
    | cons i rest ih =>
      have inner : ∀ j ∈ rest, j.origin = .top ∨ j.origin = .nested j.position :=
        fun j hj => nested j (List.mem_cons_of_mem i hj)
      rw [List.foldr_cons, visit_events, pending_walk, leaf?_held i.position inner, ih inner,
        eventsBefore, List.append_nil]
  exact walk _ fun i hi => Execution.parent_eq_position hi

theorem eventsBefore_append (later front back : List Instruction) :
    eventsBefore context tx later (front ++ back) =
      eventsBefore context tx (back ++ later) front ++ eventsBefore context tx later back := by
  induction front with
  | nil => rfl
  | cons i front ih => simp only [List.cons_append, eventsBefore, ih, List.append_assoc]

theorem eventsBefore_of_sameFrame {other : Transaction} (frame : tx.SameFrame other)
    (later stretch : List Instruction) :
    eventsBefore context tx later stretch = eventsBefore context other later stretch := by
  induction stretch with
  | nil => rfl
  | cons i rest ih => simp only [eventsBefore, Instruction.event?_of_sameFrame frame, ih]

/-- A landmark in front decides, and if there is none then what runs later does. -/
theorem leafAhead_append (position : Nat) (front later : List Instruction) :
    leafAhead context position (front ++ later) =
      if front.any (·.isLandmark context) then leafAhead context position front
      else leafAhead context position later := by
  unfold leafAhead
  rw [List.find?_append]
  cases hf : front.find? (·.isLandmark context) with
  | none =>
    have quiet : front.any (·.isLandmark context) = false := by
      simpa [List.find?_eq_none] using hf
    simp [quiet]
  | some i =>
    have found : front.any (·.isLandmark context) = true :=
      List.any_eq_true.mpr ⟨i, List.mem_of_find?_eq_some hf, List.find?_some hf⟩
    simp [found]

/-- Continuations that offer the same leaf to the positions of a stretch lead to the same events. -/
theorem eventsBefore_congr {later other stretch : List Instruction}
    (same : ∀ i ∈ stretch,
      leafAhead context i.position later = leafAhead context i.position other) :
    eventsBefore context tx later stretch = eventsBefore context tx other stretch := by
  induction stretch with
  | nil => rfl
  | cons i rest ih =>
    have here := same i (by simp)
    simp only [eventsBefore, leafAhead_append, here, ih fun j hj => same j (by simp [hj])]

end Scan

end LeafLedger
