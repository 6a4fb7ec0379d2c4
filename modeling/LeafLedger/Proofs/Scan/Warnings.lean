import LeafLedger.Proofs.Instruction.Emission
import LeafLedger.Proofs.Scan.Forward
import LeafLedger.Proofs.Transaction.Turns

namespace LeafLedger

namespace Notice

/-- The ordinal of the instruction that a notice is about, if it is about one. -/
def ordinal? : Notice → Option Nat
  | unresolvableProgram _ ordinal _ | malformedEmission _ ordinal _ | noEvent ordinal _
  | foreignLeaf _ ordinal _ _ _ | unidentifiedMint _ ordinal | leafIdDisagrees _ ordinal _ _
  | skippedInstruction _ ordinal _ _ | notStored _ ordinal | rejectedEvent _ ordinal _ _ =>
    some ordinal
  | _ => none

/-- The ordinals in the warnings of a wording, in the order in which the warnings were given. -/
def warned (wording : String) (notices : List Notice) : List Nat :=
  notices.filterMap fun notice =>
    if notice.level = .warn ∧ notice.message = wording then notice.ordinal? else none

theorem warned_append (wording : String) (front back : List Notice) :
    warned wording (front ++ back) = warned wording front ++ warned wording back :=
  List.filterMap_append

theorem warned_eq_nil {wording : String} {notices : List Notice}
    (other : ∀ notice ∈ notices, notice.level = .warn → notice.message ≠ wording) :
    warned wording notices = [] := by
  refine List.filterMap_eq_nil_iff.mpr fun notice hn => if_neg ?_
  rintro ⟨warns, same⟩
  exact other notice hn warns same

end Notice

open Notice (warned warned_append)

namespace Instruction

variable {context : ScanContext} {tx : Transaction} {leaf : Option LeafSchema} {i : Instruction}

/-- Whether an instruction of the target program records a change. -/
def isChange (context : ScanContext) (i : Instruction) : Bool :=
  decide (context.role? i.program = some .target) && (Kind.ofPayload i.data).event?.isSome

/-- Whether an instruction of a log wrapper begins like the announcement of a leaf and is none. -/
def isGarbled (context : ScanContext) (i : Instruction) : Bool :=
  decide (context.role? i.program = some .logWrapper) && LeafSchema.tag.isPrefixOf i.data &&
    (LeafSchema.ofEmission i.data).toOption.isNone

theorem isChange_of_event? {event : Event} (found : i.event? context tx leaf = some event) :
    i.isChange context = true ∧ event.ordinal = i.ordinal := by
  have records := event?_eq_some_iff.mp found
  have change := records.kind
  rw [records.instruction] at change
  exact ⟨by simp [isChange, records.target, change], records.ordinal⟩

end Instruction

namespace Scan

variable {context : ScanContext} {tx : Transaction}

theorem warned_remarks {wording : String}
    (other : wording ≠ "leaf schema id disagrees with derived asset id, using derived")
    (event : Event) : warned wording (remarks event) = [] := by
  refine Notice.warned_eq_nil fun notice hn warns => ?_
  unfold remarks at hn
  split at hn
  next =>
    rw [List.mem_singleton.mp hn] at warns
    cases warns
  next =>
    split at hn
    next => cases hn
    next =>
      rw [List.mem_singleton.mp hn]
      exact other.symm
  next => cases hn

/-- Taking a leaf is remarked on only if the leaf belongs elsewhere. -/
theorem exists_notices_taken (walk : Walk) (tx : Transaction) (i : Instruction)
    (kind : EventKind) :
    ∃ said, (walk.taken tx i kind).1.notices = walk.notices ++ said ∧ ∀ notice ∈ said,
      notice.message = "leaf schema belongs to another instruction, mint left unidentified" := by
  unfold Walk.taken
  cases kind.needsLeafSchema with
  | false => exact ⟨[], (List.append_nil _).symm, fun _ hn => nomatch hn⟩
  | true =>
    unfold Walk.takeLeaf PendingLeaf.take
    cases walk.pending.claim i.position with
    | nothing | matched => exact ⟨[], (List.append_nil _).symm, fun _ hn => nomatch hn⟩
    | foreign schema nestedUnder =>
      refine ⟨_, rfl, fun notice hn => ?_⟩
      rw [List.mem_singleton.mp hn]
      rfl

/-- What a step of the walk says: it skips a change without an event, and refuses what is garbled.
About unknown programs it says nothing. -/
structure Reports (context : ScanContext) (tx : Transaction) (leaf : Option LeafSchema)
    (i : Instruction) (said : List Notice) : Prop where
  skipped : warned "skipping instruction" said =
    if i.isChange context && (i.event? context tx leaf).isNone then [i.ordinal] else []
  malformed : warned "skipping malformed leaf schema emission" said =
    if i.isGarbled context then [i.ordinal] else []
  unresolved : warned "skipping instruction with unresolvable program id" said = []

theorem visitTarget_reports (tx : Transaction) (i : Instruction) (walk : Walk)
    (target : context.role? i.program = some .target) :
    ∃ said, (walk.visitTarget context (.ofTransaction tx) tx i).notices = walk.notices ++ said ∧
      Reports context tx (walk.pending.leaf? i.position) i said := by
  have sound : i.isGarbled context = false := by simp [Instruction.isGarbled, target]
  cases hk : (Kind.ofPayload i.data).event? with
  | none =>
    refine ⟨[.noEvent i.ordinal (Kind.ofPayload i.data)], ?_, ?_, ?_, rfl⟩
    · simp [Walk.visitTarget, hk, Walk.note]
    · simp [warned, Notice.level, Instruction.isChange, hk]
    · simp [warned, Notice.level, sound]
  | some kind =>
    have change : i.isChange context = true := by simp [Instruction.isChange, target, hk]
    obtain ⟨front, taken, foreign⟩ := exists_notices_taken walk tx i kind
    have quiet : ∀ wording, wording ≠ _ → warned wording front = [] := fun wording other =>
      Notice.warned_eq_nil fun notice hn _ => (foreign notice hn).trans_ne other.symm
    rw [visitTarget_of_event? context _ tx walk hk, taken_snd]
    have outcome := toOption_event tx (walk.pending.leaf? i.position) target hk
    cases result : event context (.ofTransaction tx) tx i (Kind.ofPayload i.data) kind
        (kind.carried (walk.pending.leaf? i.position)) with
    | error error =>
      rw [result] at outcome
      refine ⟨front ++ [.skippedInstruction tx.signature i.ordinal (Kind.ofPayload i.data) error],
        ?_, ?_, ?_, ?_⟩
      · simp [Walk.enter, Walk.note, taken]
      · rw [warned_append, quiet _ (by decide), ← outcome]
        simp [change, warned, Notice.level, Notice.message, Notice.ordinal?, Except.toOption]
      · rw [warned_append, quiet _ (by decide), sound]
        rfl
      · rw [warned_append, quiet _ (by decide)]
        rfl
    | ok event =>
      rw [result] at outcome
      refine ⟨front ++ remarks event, ?_, ?_, ?_, ?_⟩
      · simp [Walk.enter, taken]
      · rw [warned_append, quiet _ (by decide), warned_remarks (by decide), ← outcome]
        simp [Except.toOption]
      · rw [warned_append, quiet _ (by decide), warned_remarks (by decide), sound]
        rfl
      · rw [warned_append, quiet _ (by decide), warned_remarks (by decide)]
        rfl

theorem visitLogWrapper_reports (tx : Transaction) (i : Instruction) (walk : Walk)
    (leaf : Option LeafSchema) (wrapper : context.role? i.program = some .logWrapper) :
    ∃ said, (walk.visitLogWrapper tx i).notices = walk.notices ++ said ∧
      Reports context tx leaf i said := by
  have still : i.isChange context = false := by simp [Instruction.isChange, wrapper]
  cases read : LeafSchema.ofEmission i.data with
  | ok schema =>
    have sound : i.isGarbled context = false := by
      simp [Instruction.isGarbled, read, Except.toOption]
    refine ⟨[], ?_, ?_, ?_, rfl⟩
    · cases schema <;> simp [Walk.visitLogWrapper, read]
    · simp [warned, still]
    · simp [warned, sound]
  | error error =>
    have begins : LeafSchema.tag <+: i.data := by
      by_contra other
      cases read.symm.trans (LeafSchema.ofEmission_eq_none_iff.mpr other)
    have garbled : i.isGarbled context = true := by
      simp [Instruction.isGarbled, wrapper, read, Except.toOption, begins]
    refine ⟨[.malformedEmission tx.signature i.ordinal error], ?_, ?_, ?_, rfl⟩
    · simp [Walk.visitLogWrapper, read, Walk.note]
    · rw [still]
      rfl
    · rw [garbled]
      rfl

theorem visit_reports (context : ScanContext) (tx : Transaction) (i : Instruction) (walk : Walk) :
    ∃ said, (walk.visit context (.ofTransaction tx) tx i).notices = walk.notices ++ said ∧
      Reports context tx (walk.pending.leaf? i.position) i said := by
  unfold Walk.visit
  cases known : context.role? i.program with
  | none =>
    refine ⟨[], (List.append_nil _).symm, ?_, ?_, rfl⟩
    · simp [warned, Instruction.isChange, known]
    · simp [warned, Instruction.isGarbled, known]
  | some role =>
    cases role with
    | target => exact visitTarget_reports tx i walk known
    | logWrapper => exact visitLogWrapper_reports tx i walk _ known

/-- What a walk has found and skipped so far. -/
def Walk.accounted (walk : Walk) : List Nat :=
  walk.events.map (·.ordinal) ++ warned "skipping instruction" walk.notices

/-- A step accounts for its instruction exactly if that is a change. -/
theorem accounted_visit (context : ScanContext) (tx : Transaction) (i : Instruction)
    (walk : Walk) :
    (walk.visit context (.ofTransaction tx) tx i).accounted.Perm
      ((if i.isChange context then [i.ordinal] else []) ++ walk.accounted) := by
  obtain ⟨said, grown, reports⟩ := visit_reports context tx i walk
  unfold Walk.accounted
  rw [visit_events, grown, warned_append, reports.skipped]
  cases found : i.event? context tx (walk.pending.leaf? i.position) with
  | some event =>
    obtain ⟨change, own⟩ := Instruction.isChange_of_event? found
    simp [change, own]
  | none =>
    cases i.isChange context with
    | false => simp
    | true =>
      rw [← List.append_assoc]
      exact List.perm_append_comm

theorem accounted_walk (context : ScanContext) (tx : Transaction)
    (instructions : List Instruction) :
    (instructions.foldr (Walk.visit context (.ofTransaction tx) tx) .start).accounted.Perm
      ((instructions.filter (·.isChange context)).map (·.ordinal)) := by
  induction instructions with
  | nil => exact List.Perm.refl _
  | cons i rest ih =>
    refine (accounted_visit context tx i _).trans ?_
    rw [List.filter_cons]
    cases i.isChange context with
    | false => exact ih
    | true => exact ih.cons _

/-- The walk meets what is garbled from the back. -/
theorem malformed_walk (context : ScanContext) (tx : Transaction)
    (instructions : List Instruction) :
    warned "skipping malformed leaf schema emission"
        (instructions.foldr (Walk.visit context (.ofTransaction tx) tx) .start).notices =
      ((instructions.filter (·.isGarbled context)).map (·.ordinal)).reverse := by
  induction instructions with
  | nil => rfl
  | cons i rest ih =>
    obtain ⟨said, grown, reports⟩ := visit_reports context tx i
      (rest.foldr (Walk.visit context (.ofTransaction tx) tx) .start)
    rw [List.foldr_cons, grown, warned_append, ih, reports.malformed, List.filter_cons]
    cases i.isGarbled context <;> simp

theorem unresolved_walk (context : ScanContext) (tx : Transaction)
    (instructions : List Instruction) :
    warned "skipping instruction with unresolvable program id"
        (instructions.foldr (Walk.visit context (.ofTransaction tx) tx) .start).notices = [] := by
  induction instructions with
  | nil => rfl
  | cons i rest ih =>
    obtain ⟨said, grown, reports⟩ := visit_reports context tx i
      (rest.foldr (Walk.visit context (.ofTransaction tx) tx) .start)
    rw [List.foldr_cons, grown, warned_append, ih, reports.unresolved, List.append_nil]

end Scan

namespace Execution

variable {table : KeyTable} {signature : String}

/-- What an execution holds and what it leaves out. -/
def accounted (execution : Execution) : List Nat :=
  warned "skipping instruction with unresolvable program id" execution.notices ++
    execution.instructions.map (·.ordinal)

theorem accounted_prepend (table : KeyTable) (signature : String) (position : Nat)
    (later : Execution) (ordinal : Nat) (tree : List (Origin × RawInstruction)) :
    (prepend table signature position later ordinal tree).accounted.Perm
      (List.range' ordinal tree.length ++ later.accounted) := by
  induction tree generalizing ordinal with
  | nil => exact List.Perm.refl _
  | cons entry tree ih =>
    obtain ⟨origin, raw⟩ := entry
    rw [List.length_cons, List.range'_succ, List.cons_append]
    refine List.Perm.trans ?_ ((ih (ordinal + 1)).cons ordinal)
    cases hk : table.get? raw.programIndex.toNat with
    | none =>
      simp only [prepend, KeyTable.resolve_of_get?_none hk]
      exact List.Perm.refl _
    | some program =>
      simp only [prepend, KeyTable.resolve_of_get? hk]
      exact List.perm_middle

theorem accounted_ofInstructions (table : KeyTable) (signature : String) (inner : List InnerGroup)
    (position ordinal : Nat) (tops : List RawInstruction) :
    (ofInstructions table signature inner position ordinal tops).accounted.Perm
      (List.range' ordinal ((tops.zipIdx position).flatMap fun (top, position) =>
        callTree inner position top).length) := by
  induction tops generalizing position ordinal with
  | nil => exact List.Perm.refl _
  | cons top tops ih =>
    refine (accounted_prepend table signature position _ ordinal _).trans ?_
    rw [List.zipIdx_cons, List.flatMap_cons, List.length_append, ← List.range'_append_1]
    exact (ih _ _).append_left _

theorem message_of_mem_prepend {position : Nat} {later : Execution} {ordinal : Nat}
    {tree : List (Origin × RawInstruction)} {notice : Notice}
    (h : notice ∈ (prepend table signature position later ordinal tree).notices) :
    notice.message = "skipping instruction with unresolvable program id" ∨
      notice ∈ later.notices := by
  induction tree generalizing ordinal with
  | nil => exact Or.inr h
  | cons entry tree ih =>
    obtain ⟨origin, raw⟩ := entry
    cases hk : table.get? raw.programIndex.toNat with
    | none =>
      simp only [prepend, KeyTable.resolve_of_get?_none hk] at h
      rcases List.mem_cons.mp h with rfl | h
      · exact Or.inl rfl
      · exact ih h
    | some program =>
      simp only [prepend, KeyTable.resolve_of_get? hk] at h
      exact ih h

theorem message_of_mem_ofInstructions {inner : List InnerGroup} {position ordinal : Nat}
    {tops : List RawInstruction} {notice : Notice}
    (h : notice ∈ (ofInstructions table signature inner position ordinal tops).notices) :
    notice.message = "skipping instruction with unresolvable program id" := by
  induction tops generalizing position ordinal with
  | nil => cases h
  | cons top tops ih =>
    rcases message_of_mem_prepend h with own | later
    · exact own
    · exact ih later

end Execution

theorem Transaction.length_turns (tx : Transaction) :
    tx.turns.length = (tx.instructions.zipIdx.flatMap fun (top, position) =>
      Execution.callTree tx.inner position top).length := by
  have trees : ∀ entry : RawInstruction × Nat,
      (Turn.callTree tx.inner entry.2 entry.1).length =
        (Execution.callTree tx.inner entry.2 entry.1).length := by
    intro entry
    rw [← Turn.map_callTree, List.length_map]
  simp only [turns, List.length_flatMap, trees]

namespace Scan

theorem warned_notices (context : ScanContext) (tx : Transaction) (wording : String) :
    warned wording (tx.scan context).notices =
      warned wording (tx.execution (.ofTransaction tx)).notices ++
        warned wording ((tx.execution (.ofTransaction tx)).instructions.foldr
          (Walk.visit context (.ofTransaction tx) tx) .start).notices := by
  have quiet : ∀ events, warned wording [.scanComplete events] = [] := fun _ => rfl
  simp only [Transaction.scan, warned_append, quiet, List.append_nil]

theorem warned_execution {wording : String} (tx : Transaction)
    (other : wording ≠ "skipping instruction with unresolvable program id") :
    warned wording (tx.execution (.ofTransaction tx)).notices = [] :=
  Notice.warned_eq_nil fun _ hn _ =>
    (Execution.message_of_mem_ofInstructions hn).trans_ne other.symm

/-- Every change has an event or is reported as skipped, and nothing else does; every instruction
that has its turn is in the execution order or its program is reported as unknown; and an emission
is reported as malformed if it has the tag of an announced leaf and cannot be read. No ordinal is
accounted for twice. -/
theorem ordinals_accounted (context : ScanContext) (tx : Transaction) :
    let instructions := (tx.execution (.ofTransaction tx)).instructions
    let events := (tx.scan context).events
    let notices := (tx.scan context).notices
    let changes := instructions.filter (·.isChange context)
    let garbled := instructions.filter (·.isGarbled context)
    instructions.Pairwise (·.ordinal < ·.ordinal) ∧
    (events.map (·.ordinal) ++ warned "skipping instruction" notices).Perm
      (changes.map (·.ordinal)) ∧
    (warned "skipping instruction with unresolvable program id" notices ++
      instructions.map (·.ordinal)).Perm (List.range tx.turns.length) ∧
    (warned "skipping malformed leaf schema emission" notices).Perm
      (garbled.map (·.ordinal)) := by
  intro instructions events notices changes garbled
  refine ⟨?_, ?_, ?_, ?_⟩
  · exact (Execution.pairwise_instructions tx (.ofTransaction tx)).imp And.left
  · rw [warned_notices, warned_execution tx (by decide), List.nil_append]
    exact accounted_walk context tx instructions
  · rw [warned_notices, unresolved_walk, List.append_nil, tx.length_turns, List.range_eq_range']
    exact Execution.accounted_ofInstructions _ _ _ 0 0 _
  · rw [warned_notices, warned_execution tx (by decide), malformed_walk]
    exact List.reverse_perm _

end Scan

end LeafLedger
