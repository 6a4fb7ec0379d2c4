import LeafLedger.Scan
import LeafLedger.Proofs.Transaction.Layout

namespace LeafLedger

/-- The leaf that an event carries of the one that a mint in its place would get. -/
def EventKind.carried (kind : EventKind) (leaf : Option LeafSchema) : Option LeafSchema :=
  match kind with
  | mint => leaf
  | transfer | burn => none

namespace Instruction

/-- The leaf that an instruction of a log wrapper announces. -/
def announced? (context : ScanContext) (i : Instruction) : Option LeafSchema :=
  if context.role? i.program = some .logWrapper then
    match LeafSchema.ofEmission i.data with
    | .ok schema => schema
    | .error _ => none
  else none

theorem announced?_eq_some_iff {context : ScanContext} {i : Instruction} {schema : LeafSchema} :
    i.announced? context = some schema ↔ context.role? i.program = some .logWrapper ∧
      LeafSchema.ofEmission i.data = .ok (some schema) := by
  unfold announced?
  by_cases wrapper : context.role? i.program = some .logWrapper
  · cases LeafSchema.ofEmission i.data <;> simp [wrapper]
  · simp [wrapper]

theorem announced?_eq_none {context : ScanContext} {i : Instruction}
    (mute : context.role? i.program = some .logWrapper →
      ∀ schema, LeafSchema.ofEmission i.data ≠ .ok (some schema)) :
    i.announced? context = none := by
  rw [Option.eq_none_iff_forall_ne_some]
  intro schema announced
  obtain ⟨wrapper, emission⟩ := announced?_eq_some_iff.mp announced
  exact mute wrapper schema emission

/-- Whether an instruction of the target program is a mint. -/
def isMint (context : ScanContext) (i : Instruction) : Bool :=
  decide (context.role? i.program = some .target) && (Kind.ofPayload i.data).isMint

/-- Whether an instruction settles which leaf the mints before it get. -/
def isLandmark (context : ScanContext) (i : Instruction) : Bool :=
  (i.announced? context).isSome || i.isMint context

/-- The event of an instruction, if it is of the target program and records a change, its accounts
resolve, its arguments can be read and its tree is named. Only a mint carries a leaf. -/
def event? (context : ScanContext) (tx : Transaction) (leaf : Option LeafSchema)
    (i : Instruction) : Option Event :=
  let instruction := Kind.ofPayload i.data
  match context.role? i.program, instruction.event? with
  | some .target, some kind =>
    match RoleMap.resolve instruction i.accounts (.ofTransaction tx) context.target,
        Payload.ofData instruction i.data with
    | .ok roles, .ok payload =>
      let leafSchema := kind.carried leaf
      let leafIndex := Scan.leafIndex? payload leafSchema
      (roles.get? .merkleTree).map fun merkleTree =>
        { kind
          instruction
          assetId := leafIndex.map (Asset.id context.target merkleTree)
          merkleTree
          leafIndex
          roles
          leafSchema
          payload
          slot := tx.slot
          signature := tx.signature
          ordinal := i.ordinal }
    | _, _ => none
  | _, _ => none

/-- An event that tells what an instruction did, given the leaf that a mint in its place gets. -/
structure Records (context : ScanContext) (tx : Transaction) (leaf : Option LeafSchema)
    (i : Instruction) (event : Event) : Prop where
  target : context.role? i.program = some .target
  instruction : event.instruction = Kind.ofPayload i.data
  kind : event.instruction.event? = some event.kind
  roles : RoleMap.resolve event.instruction i.accounts (.ofTransaction tx) context.target =
    .ok event.roles
  payload : Payload.ofData event.instruction i.data = .ok event.payload
  merkleTree : event.roles.get? .merkleTree = some event.merkleTree
  leafSchema : event.leafSchema = event.kind.carried leaf
  leafIndex : event.leafIndex = Scan.leafIndex? event.payload event.leafSchema
  assetId : event.assetId = event.leafIndex.map (Asset.id context.target event.merkleTree)
  slot : event.slot = tx.slot
  signature : event.signature = tx.signature
  ordinal : event.ordinal = i.ordinal

theorem event?_eq_some_iff {context : ScanContext} {tx : Transaction} {leaf : Option LeafSchema}
    {i : Instruction} {event : Event} :
    i.event? context tx leaf = some event ↔ i.Records context tx leaf event := by
  constructor
  · intro h
    simp only [Instruction.event?] at h
    split at h
    next kind target hk =>
      split at h
      next roles payload hr hp =>
        obtain ⟨tree, ht, rfl⟩ := Option.map_eq_some_iff.mp h
        exact ⟨target, rfl, hk, hr, hp, ht, rfl, rfl, rfl, rfl, rfl, rfl⟩
      next => cases h
    next => cases h
  · intro h
    simp only [Instruction.event?, ← h.instruction]
    simp only [h.target, h.kind, h.roles, h.payload, h.merkleTree, Option.map_some,
      ← h.leafSchema, ← h.leafIndex, ← h.assetId, ← h.slot, ← h.signature, ← h.ordinal]

theorem event?_of_role?_ne {context : ScanContext} {i : Instruction}
    (foreign : context.role? i.program ≠ some .target) (tx : Transaction)
    (leaf : Option LeafSchema) : i.event? context tx leaf = none := by
  rw [Option.eq_none_iff_forall_ne_some]
  intro event found
  exact foreign (event?_eq_some_iff.mp found).target

/-- Whether there is an event hangs on the instruction alone and not on the leaf. -/
theorem exists_event?_iff {context : ScanContext} {tx : Transaction} {leaf : Option LeafSchema}
    {i : Instruction} :
    (∃ event, i.event? context tx leaf = some event) ↔
      context.role? i.program = some .target ∧
      (∃ kind, (Kind.ofPayload i.data).event? = some kind) ∧
      (∃ roles tree, RoleMap.resolve (Kind.ofPayload i.data) i.accounts (.ofTransaction tx)
        context.target = .ok roles ∧ roles.get? .merkleTree = some tree) ∧
      ∃ payload, Payload.ofData (Kind.ofPayload i.data) i.data = .ok payload := by
  constructor
  · intro hh
    obtain ⟨event, h⟩ := hh
    have records := event?_eq_some_iff.mp h
    have instruction := records.instruction
    refine ⟨records.target, ⟨event.kind, ?_⟩, ⟨event.roles, event.merkleTree, ?_, ?_⟩,
      event.payload, ?_⟩
    · rw [← instruction]
      exact records.kind
    · rw [← instruction]
      exact records.roles
    · exact records.merkleTree
    · rw [← instruction]
      exact records.payload
  · intro hh
    obtain ⟨target, ⟨kind, hk⟩, ⟨roles, tree, hr, ht⟩, payload, hp⟩ := hh
    simp only [event?, target, hk, hr, hp, ht, Option.map_some]
    exact ⟨_, rfl⟩

end Instruction

namespace Scan

/-- The leaf of a mint under a top-level position, by the instructions that run after it. -/
def leafAhead (context : ScanContext) (position : Nat) (later : List Instruction) :
    Option LeafSchema :=
  match later.find? (·.isLandmark context) with
  | none => none
  | some i => if i.origin = .top ∨ i.position = position then i.announced? context else none

/-- The event of an instruction at its index in the execution order. -/
def eventAt? (context : ScanContext) (tx : Transaction) (instructions : List Instruction)
    (entry : Instruction × Nat) : Option Event :=
  entry.1.event? context tx
    (leafAhead context entry.1.position (instructions.drop (entry.2 + 1)))

/-- The leaf that is held after a walk over instructions: that of the first landmark. -/
def held (context : ScanContext) (later : List Instruction) : PendingLeaf :=
  match later.find? (·.isLandmark context) with
  | none => .empty
  | some i =>
    match i.announced? context with
    | some schema => .holding schema i.origin.parent?
    | none => .empty

end Scan

/-- The leaf that a mint under a top-level position takes. -/
def PendingLeaf.leaf? (pending : PendingLeaf) (position : Nat) : Option LeafSchema :=
  match pending.claim position with
  | .matched schema => some schema
  | .nothing | .foreign .. => none

theorem Kind.needsLeafSchema_event? {instruction : Kind} {kind : EventKind}
    (h : instruction.event? = some kind) : kind.needsLeafSchema = instruction.isMint := by
  cases instruction <;> cases h <;> rfl

theorem Kind.isMint_of_event?_none {instruction : Kind} (h : instruction.event? = none) :
    instruction.isMint = false := by
  cases instruction <;> first | rfl | cases h

namespace Scan

theorem takeLeaf_fst_pending (walk : Walk) (tx : Transaction) (i : Instruction) :
    (walk.takeLeaf tx i).1.pending = .empty := by
  unfold Walk.takeLeaf PendingLeaf.take
  cases walk.pending.claim i.position <;> rfl

theorem takeLeaf_fst_events (walk : Walk) (tx : Transaction) (i : Instruction) :
    (walk.takeLeaf tx i).1.events = walk.events := by
  unfold Walk.takeLeaf PendingLeaf.take
  cases walk.pending.claim i.position <;> rfl

theorem takeLeaf_snd (walk : Walk) (tx : Transaction) (i : Instruction) :
    (walk.takeLeaf tx i).2 = walk.pending.leaf? i.position := by
  unfold Walk.takeLeaf PendingLeaf.take PendingLeaf.leaf?
  cases walk.pending.claim i.position <;> rfl

theorem toOption_event {context : ScanContext} {i : Instruction} {kind : EventKind}
    (tx : Transaction) (leaf : Option LeafSchema)
    (target : context.role? i.program = some .target)
    (hk : (Kind.ofPayload i.data).event? = some kind) :
    (event context (.ofTransaction tx) tx i (Kind.ofPayload i.data) kind
      (kind.carried leaf)).toOption = i.event? context tx leaf := by
  simp only [Instruction.event?, target, hk, event]
  cases RoleMap.resolve (Kind.ofPayload i.data) i.accounts (.ofTransaction tx)
      context.target with
  | error error => rfl
  | ok roles =>
    cases Payload.ofData (Kind.ofPayload i.data) i.data with
    | error error => rfl
    | ok payload =>
      cases ht : roles.get? .merkleTree with
      | none => simp [RoleMap.require, ht, bind, Except.bind, Except.toOption]
      | some tree =>
        simp [RoleMap.require, ht, bind, Except.bind, pure, Except.pure, Except.toOption]

/-- The walk and the leaf with which an event of a kind is made. -/
def Walk.taken (walk : Walk) (tx : Transaction) (i : Instruction) (kind : EventKind) :
    Walk × Option LeafSchema :=
  if kind.needsLeafSchema then walk.takeLeaf tx i else (walk, none)

theorem taken_fst_events (walk : Walk) (tx : Transaction) (i : Instruction) (kind : EventKind) :
    (walk.taken tx i kind).1.events = walk.events := by
  cases kind <;> simp [Walk.taken, EventKind.needsLeafSchema, takeLeaf_fst_events]

theorem taken_fst_pending (walk : Walk) (tx : Transaction) (i : Instruction) (kind : EventKind) :
    (walk.taken tx i kind).1.pending =
      if kind.needsLeafSchema then .empty else walk.pending := by
  cases kind <;> simp [Walk.taken, EventKind.needsLeafSchema, takeLeaf_fst_pending]

theorem taken_snd (walk : Walk) (tx : Transaction) (i : Instruction) (kind : EventKind) :
    (walk.taken tx i kind).2 = kind.carried (walk.pending.leaf? i.position) := by
  cases kind <;> simp [Walk.taken, EventKind.needsLeafSchema, EventKind.carried, takeLeaf_snd]

/-- The walk after an event was made, or failed to be made. -/
def Walk.enter (walk : Walk) (tx : Transaction) (i : Instruction) : Except Error Event → Walk
  | .ok event =>
    { walk with events := event :: walk.events, notices := walk.notices ++ remarks event }
  | .error error =>
    walk.note (.skippedInstruction tx.signature i.ordinal (Kind.ofPayload i.data) error)

theorem enter_events (walk : Walk) (tx : Transaction) (i : Instruction)
    (result : Except Error Event) :
    (walk.enter tx i result).events = result.toOption.toList ++ walk.events := by
  cases result <;> rfl

theorem enter_pending (walk : Walk) (tx : Transaction) (i : Instruction)
    (result : Except Error Event) : (walk.enter tx i result).pending = walk.pending := by
  cases result <;> rfl

theorem visitTarget_of_event? {i : Instruction} {kind : EventKind} (context : ScanContext)
    (table : KeyTable) (tx : Transaction) (walk : Walk)
    (hk : (Kind.ofPayload i.data).event? = some kind) :
    walk.visitTarget context table tx i =
      (walk.taken tx i kind).1.enter tx i
        (event context table tx i (Kind.ofPayload i.data) kind (walk.taken tx i kind).2) := by
  simp only [Walk.visitTarget, hk]
  rfl

theorem visitTarget_events {context : ScanContext} {i : Instruction} (tx : Transaction)
    (walk : Walk) (target : context.role? i.program = some .target) :
    (walk.visitTarget context (.ofTransaction tx) tx i).events =
      (i.event? context tx (walk.pending.leaf? i.position)).toList ++ walk.events := by
  cases hk : (Kind.ofPayload i.data).event? with
  | none => simp [Walk.visitTarget, Instruction.event?, target, hk, Walk.note]
  | some kind =>
    rw [visitTarget_of_event? context _ tx walk hk, enter_events, taken_snd, taken_fst_events,
      toOption_event tx _ target hk]

theorem visitTarget_pending (context : ScanContext) (table : KeyTable) (tx : Transaction)
    (i : Instruction) (walk : Walk) :
    (walk.visitTarget context table tx i).pending =
      if (Kind.ofPayload i.data).isMint then .empty else walk.pending := by
  cases hk : (Kind.ofPayload i.data).event? with
  | none => simp [Walk.visitTarget, hk, Kind.isMint_of_event?_none hk, Walk.note]
  | some kind =>
    rw [visitTarget_of_event? context table tx walk hk, enter_pending, taken_fst_pending,
      Kind.needsLeafSchema_event? hk]

theorem visitLogWrapper_events (tx : Transaction) (i : Instruction) (walk : Walk) :
    (walk.visitLogWrapper tx i).events = walk.events := by
  unfold Walk.visitLogWrapper
  cases LeafSchema.ofEmission i.data with
  | error error => rfl
  | ok schema => cases schema <;> rfl

theorem visit_events {context : ScanContext} (tx : Transaction) (i : Instruction) (walk : Walk) :
    (walk.visit context (.ofTransaction tx) tx i).events =
      (i.event? context tx (walk.pending.leaf? i.position)).toList ++ walk.events := by
  unfold Walk.visit
  cases hr : context.role? i.program with
  | none => simp [Instruction.event?, hr]
  | some role =>
    cases role with
    | target => exact visitTarget_events tx walk hr
    | logWrapper => simp [Instruction.event?, hr, visitLogWrapper_events]

/-- A landmark decides what is held, everything else leaves it alone. -/
theorem visit_pending (context : ScanContext) (table : KeyTable) (tx : Transaction)
    (i : Instruction) (walk : Walk) :
    (walk.visit context table tx i).pending =
      if i.isLandmark context then
        match i.announced? context with
        | some schema => .holding schema i.origin.parent?
        | none => .empty
      else walk.pending := by
  unfold Walk.visit Instruction.isLandmark Instruction.announced? Instruction.isMint
  cases hr : context.role? i.program with
  | none => simp
  | some role =>
    cases role with
    | target => simp [visitTarget_pending]
    | logWrapper =>
      unfold Walk.visitLogWrapper
      cases LeafSchema.ofEmission i.data with
      | error error => simp [Walk.note]
      | ok schema => cases schema <;> simp [PendingLeaf.observe]

theorem pending_walk (context : ScanContext) (table : KeyTable) (tx : Transaction)
    (later : List Instruction) :
    (later.foldr (Walk.visit context table tx) .start).pending = held context later := by
  induction later with
  | nil => rfl
  | cons i later ih =>
    rw [List.foldr_cons, visit_pending, ih]
    by_cases h : i.isLandmark context <;> simp [held, h]

/-- What is held by nested and top-level announcements alike is within reach of a position exactly
if the forward rule says so. -/
theorem leaf?_held {context : ScanContext} {later : List Instruction} (position : Nat)
    (nested : ∀ i ∈ later, i.origin = .top ∨ i.origin = .nested i.position) :
    (held context later).leaf? position = leafAhead context position later := by
  unfold held leafAhead
  cases hf : later.find? (·.isLandmark context) with
  | none => rfl
  | some i =>
    simp only
    cases ha : i.announced? context with
    | none => simp [PendingLeaf.leaf?, PendingLeaf.claim]
    | some schema =>
      rcases nested i (List.mem_of_find?_eq_some hf) with top | inner
      · simp [PendingLeaf.leaf?, PendingLeaf.claim, top, Origin.parent?]
      · by_cases same : i.position = position <;>
          simp [PendingLeaf.leaf?, PendingLeaf.claim, inner, Origin.parent?, same]

theorem events_walk {context : ScanContext} {tx : Transaction} (before later : List Instruction)
    (nested : ∀ i ∈ later, i.origin = .top ∨ i.origin = .nested i.position) :
    (later.foldr (Walk.visit context (.ofTransaction tx) tx) .start).events =
      (later.zipIdx before.length).filterMap (eventAt? context tx (before ++ later)) := by
  -- Indexes count from the front, while the walk comes from the back: what stands before grows.
  induction later generalizing before with
  | nil => rfl
  | cons i later ih =>
    have rest := ih (before ++ [i]) (fun j hj => nested j (List.mem_cons_of_mem i hj))
    simp only [List.length_append, List.length_singleton, List.append_assoc,
      List.singleton_append] at rest
    have here : eventAt? context tx (before ++ i :: later) (i, before.length) =
        i.event? context tx ((held context later).leaf? i.position) := by
      rw [leaf?_held i.position (fun j hj => nested j (List.mem_cons_of_mem i hj))]
      simp [eventAt?]
    rw [List.foldr_cons, visit_events, pending_walk, rest, ← here, List.zipIdx_cons]
    cases he : eventAt? context tx (before ++ i :: later) (i, before.length) with
    | none => simp [List.filterMap_cons_none he]
    | some event => simp [List.filterMap_cons_some he]

theorem leafAhead_eq_some_iff {context : ScanContext} {instructions : List Instruction}
    {n position : Nat} {schema : LeafSchema} :
    leafAhead context position (instructions.drop (n + 1)) = some schema ↔
      ∃ j emission, n < j ∧ instructions[j]? = some emission ∧
        emission.announced? context = some schema ∧
        (∀ k between, n < k → k < j → instructions[k]? = some between →
          between.isLandmark context = false) ∧
        (emission.origin = .top ∨ emission.position = position) := by
  unfold leafAhead
  constructor
  · intro h
    cases hf : (instructions.drop (n + 1)).find? (·.isLandmark context) with
    | none => simp [hf] at h
    | some emission =>
      simp only [hf] at h
      obtain ⟨_, m, hm, he, first⟩ := List.find?_eq_some_iff_getElem.mp hf
      have entry : instructions[n + 1 + m]? = some emission := by
        rw [← List.getElem?_drop]
        exact List.getElem?_eq_some_iff.mpr ⟨hm, he⟩
      split at h
      next reach =>
        refine ⟨n + 1 + m, emission, by omega, entry, h, ?_, reach⟩
        intro k between hn hk hb
        have hkm : k - (n + 1) < m := by omega
        have same : (instructions.drop (n + 1))[k - (n + 1)]? = some between := by
          rw [List.getElem?_drop, show n + 1 + (k - (n + 1)) = k by omega]
          exact hb
        obtain ⟨_, hv⟩ := List.getElem?_eq_some_iff.mp same
        have := first (k - (n + 1)) hkm
        simpa [hv] using this
      next => simp at h
  · intro hh
    obtain ⟨j, emission, hn, hj, ha, between, reach⟩ := hh
    have entry : (instructions.drop (n + 1))[j - (n + 1)]? = some emission := by
      rw [List.getElem?_drop, show n + 1 + (j - (n + 1)) = j by omega]
      exact hj
    obtain ⟨hm, he⟩ := List.getElem?_eq_some_iff.mp entry
    have found : (instructions.drop (n + 1)).find? (·.isLandmark context) = some emission := by
      refine List.find?_eq_some_iff_getElem.mpr ⟨by simp [Instruction.isLandmark, ha], ?_⟩
      refine ⟨j - (n + 1), hm, he, ?_⟩
      intro m hmj
      have room : m < (instructions.drop (n + 1)).length := by omega
      have value : instructions[n + 1 + m]? = some (instructions.drop (n + 1))[m] := by
        rw [← List.getElem?_drop]
        exact List.getElem?_eq_getElem room
      have quiet := between (n + 1 + m) _ (by omega) (by omega) value
      simpa using quiet
    simp [found, reach, ha]

/-- A scan finds the events of the instructions in execution order: one for each instruction of the
target that records a change and can be read. A mint has the leaf of the first landmark after it if
that announces one at the top or under the position of the mint. -/
theorem events_scan (context : ScanContext) (tx : Transaction) :
    let instructions := (tx.execution (.ofTransaction tx)).instructions
    (tx.scan context).events =
      instructions.zipIdx.filterMap (eventAt? context tx instructions) ∧
    (∀ i n, (∃ event, eventAt? context tx instructions (i, n) = some event) ↔
      context.role? i.program = some .target ∧
      (∃ kind, (Kind.ofPayload i.data).event? = some kind) ∧
      (∃ roles tree, RoleMap.resolve (Kind.ofPayload i.data) i.accounts (.ofTransaction tx)
        context.target = .ok roles ∧ roles.get? .merkleTree = some tree) ∧
      ∃ payload, Payload.ofData (Kind.ofPayload i.data) i.data = .ok payload) ∧
    (∀ i n event, eventAt? context tx instructions (i, n) = some event ↔
      i.Records context tx (leafAhead context i.position (instructions.drop (n + 1))) event) ∧
    ∀ n position schema,
      leafAhead context position (instructions.drop (n + 1)) = some schema ↔
        ∃ j emission, n < j ∧ instructions[j]? = some emission ∧
          emission.announced? context = some schema ∧
          (∀ k between, n < k → k < j → instructions[k]? = some between →
            between.isLandmark context = false) ∧
          (emission.origin = .top ∨ emission.position = position) := by
  intro instructions
  refine ⟨?_, ?_, ?_, fun n position schema => leafAhead_eq_some_iff⟩
  · exact events_walk [] instructions (fun i hi => Execution.parent_eq_position hi)
  · exact fun i n => Instruction.exists_event?_iff
  · exact fun i n event => Instruction.event?_eq_some_iff

end Scan

end LeafLedger
