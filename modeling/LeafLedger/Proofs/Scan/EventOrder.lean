import LeafLedger.Proofs.Scan.Forward

namespace LeafLedger

namespace Scan

variable {context : ScanContext} {tx : Transaction} {event : Event}

theorem events_eq_filterMap (context : ScanContext) (tx : Transaction) :
    (tx.scan context).events =
      (tx.execution (.ofTransaction tx)).instructions.zipIdx.filterMap
        (eventAt? context tx (tx.execution (.ofTransaction tx)).instructions) :=
  events_walk [] _ fun _ hi => Execution.parent_eq_position hi

/-- The instruction behind an event of a scan, with the leaf that is ahead of it. -/
theorem exists_records_of_mem_events (found : event ∈ (tx.scan context).events) :
    ∃ (i : Instruction) (n : Nat),
      (tx.execution (.ofTransaction tx)).instructions[n]? = some i ∧
      i.Records context tx (leafAhead context i.position
        ((tx.execution (.ofTransaction tx)).instructions.drop (n + 1))) event := by
  rw [events_eq_filterMap] at found
  obtain ⟨⟨i, n⟩, hm, he⟩ := List.mem_filterMap.mp found
  exact ⟨i, n, List.mem_zipIdx_iff_getElem?.mp hm, Instruction.event?_eq_some_iff.mp he⟩

theorem signature_of_mem_events (found : event ∈ (tx.scan context).events) :
    event.signature = tx.signature := by
  obtain ⟨_, _, _, records⟩ := exists_records_of_mem_events found
  exact records.signature

theorem pairwise_ordinals (context : ScanContext) (tx : Transaction) :
    (tx.scan context).events.Pairwise fun a b => a.ordinal < b.ordinal := by
  have counted : (tx.execution (.ofTransaction tx)).instructions.zipIdx.Pairwise
      fun a b => a.1.ordinal < b.1.ordinal := by
    have sorted := (Execution.pairwise_instructions tx (.ofTransaction tx)).imp And.left
    rw [← List.zipIdx_map_fst 0 (tx.execution _).instructions, List.pairwise_map] at sorted
    exact sorted
  rw [events_eq_filterMap]
  refine List.pairwise_filterMap.mpr (counted.imp ?_)
  intro a b less i hi j hj
  have earlier := (Instruction.event?_eq_some_iff.mp hi).ordinal
  have later := (Instruction.event?_eq_some_iff.mp hj).ordinal
  rwa [earlier, later]

end Scan

end LeafLedger
