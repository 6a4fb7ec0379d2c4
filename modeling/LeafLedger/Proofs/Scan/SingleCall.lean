import LeafLedger.Proofs.Instruction.Call
import LeafLedger.Proofs.Scan.Forward

namespace LeafLedger

namespace Execution

/-- Instructions invoked under the first top-level instruction, in their places from an ordinal
on. -/
def placed (table : KeyTable) (ordinal : Nat) (callees : List RawInstruction) :
    List Instruction :=
  ((callees.map (Prod.mk (.nested 0))).zipIdx ordinal).filterMap (place? table 0)

theorem placed_append (table : KeyTable) (ordinal : Nat) (before after : List RawInstruction) :
    placed table ordinal (before ++ after) =
      placed table ordinal before ++ placed table (ordinal + before.length) after := by
  simp [placed, List.zipIdx_append]

theorem placed_cons {table : KeyTable} {callee : RawInstruction} {program : Address}
    (hk : table.get? callee.programIndex.toNat = some program) (ordinal : Nat)
    (callees : List RawInstruction) :
    placed table ordinal (callee :: callees) =
      ⟨program, callee.accounts, callee.data, .nested 0, 0, ordinal⟩ ::
        placed table (ordinal + 1) callees := by
  rw [placed, List.map_cons, List.zipIdx_cons]
  exact List.filterMap_cons_some (by simp [place?, hk])

theorem mem_placed {table : KeyTable} {ordinal : Nat} {callees : List RawInstruction}
    {i : Instruction} (h : i ∈ placed table ordinal callees) :
    ∃ callee ∈ callees, table.get? callee.programIndex.toNat = some i.program ∧
      i.data = callee.data ∧ i.origin = .nested i.position := by
  obtain ⟨⟨⟨origin, callee⟩, n⟩, hm, hp⟩ := List.mem_filterMap.mp h
  obtain ⟨program, hk, rfl⟩ := Option.map_eq_some_iff.mp hp
  obtain ⟨_, hr, eq⟩ := List.mem_map.mp (List.fst_mem_of_mem_zipIdx hm)
  cases eq
  exact ⟨_, hr, hk, rfl, rfl⟩

end Execution

namespace Transaction

/-- The instructions invoked under the first top-level instruction, in order. -/
def callees (tx : Transaction) : List RawInstruction :=
  (tx.inner.filter (·.index.toNat == 0)).flatMap (·.instructions)

/-- The program that an instruction of the transaction runs, if it is known. -/
def programOf? (tx : Transaction) (raw : RawInstruction) : Option Address :=
  (KeyTable.ofTransaction tx).get? raw.programIndex.toNat

/-- The transaction makes one call of the compressed-asset program and no other. -/
structure Carries (tx : Transaction) (kind : Kind) (args : Bytes) (players : Role → Address) :
    Prop where
  top : ∃ raw, tx.instructions = [raw] ∧ raw.IsCall (.ofTransaction tx) kind args players
  callees : ∀ callee ∈ tx.callees, tx.programOf? callee ≠ some Program.compressedAsset

/-- The first leaf that is announced under the top-level instruction. -/
def Announces (tx : Transaction) (schema : LeafSchema) : Prop :=
  ∃ before emission after, tx.callees = before ++ emission :: after ∧
    (∀ callee ∈ before, tx.programOf? callee = some Program.noop →
      ∀ other, LeafSchema.ofEmission callee.data ≠ .ok (some other)) ∧
    tx.programOf? emission = some Program.noop ∧ emission.data = schema.emission

variable {tx : Transaction}

theorem instructions_of_top {raw : RawInstruction} {program : Address}
    (only : tx.instructions = [raw]) (hk : tx.programOf? raw = some program) :
    (tx.execution (.ofTransaction tx)).instructions =
      ⟨program, raw.accounts, raw.data, .top, 0, 0⟩ ::
        Execution.placed (.ofTransaction tx) 1 tx.callees := by
  have tree : Execution.callTree tx.inner 0 raw =
      (.top, raw) :: tx.callees.map (Prod.mk (.nested 0)) := by
    simp [Execution.callTree, callees, List.map_flatMap]
  rw [Execution.instructions_execution_singleton _ only, tree, List.zipIdx_cons]
  have known : (KeyTable.ofTransaction tx).get? raw.programIndex.toNat = some program := hk
  exact List.filterMap_cons_some (by simp [Execution.place?, known])

end Transaction

namespace ScanContext

theorem role?_eq_target_iff {context : ScanContext} {program : Address} :
    context.role? program = some .target ↔ program = context.target := by
  unfold role?
  by_cases target : program = context.target
  · simp [target]
  · rw [if_neg target]
    refine iff_of_false ?_ target
    split <;> simp

theorem role?_eq_logWrapper_iff {context : ScanContext} {program : Address} :
    context.role? program = some .logWrapper ↔
      program ≠ context.target ∧ program ∈ context.logWrappers := by
  unfold role?
  by_cases target : program = context.target
  · simp [target]
  · by_cases wrapper : program ∈ context.logWrappers <;> simp [target, wrapper]

theorem role?_standard_noop : standard.role? Program.noop = some .logWrapper := by
  rw [role?_eq_logWrapper_iff]
  exact ⟨by decide, List.mem_singleton.mpr rfl⟩

end ScanContext

namespace Scan

open ScanContext (role?_eq_target_iff role?_eq_logWrapper_iff role?_standard_noop)

theorem events_of_no_target {context : ScanContext} {tx : Transaction} {later : List Instruction}
    (quiet : ∀ i ∈ later, context.role? i.program ≠ some .target) :
    (later.foldr (Walk.visit context (.ofTransaction tx) tx) .start).events = [] := by
  induction later with
  | nil => rfl
  | cons i later ih =>
    rw [List.foldr_cons, visit_events, Instruction.event?_of_role?_ne (quiet i (by simp)),
      ih fun j hj => quiet j (by simp [hj])]
    rfl

variable {tx : Transaction} {kind : Kind} {args : Bytes} {players : Role → Address}

theorem role?_of_foreign {callees : List RawInstruction}
    (foreign : ∀ callee ∈ callees, tx.programOf? callee ≠ some Program.compressedAsset)
    (ordinal : Nat) : ∀ i ∈ Execution.placed (.ofTransaction tx) ordinal callees,
      ScanContext.standard.role? i.program ≠ some .target := by
  intro i hi target
  obtain ⟨callee, hc, hk, _, _⟩ := Execution.mem_placed hi
  rw [role?_eq_target_iff.mp target] at hk
  exact foreign callee hc hk

/-- Of callees that neither mint nor announce a leaf none settles which leaf a mint gets. -/
theorem find?_landmark_of_silent {callees : List RawInstruction}
    (foreign : ∀ callee ∈ callees, tx.programOf? callee ≠ some Program.compressedAsset)
    (silent : ∀ callee ∈ callees, tx.programOf? callee = some Program.noop →
      ∀ other, LeafSchema.ofEmission callee.data ≠ .ok (some other))
    (ordinal : Nat) :
    (Execution.placed (.ofTransaction tx) ordinal callees).find? (·.isLandmark .standard) =
      none := by
  rw [List.find?_eq_none]
  intro i hi
  have unminted := role?_of_foreign foreign ordinal i hi
  obtain ⟨callee, hc, hk, data, _⟩ := Execution.mem_placed hi
  have unannounced : i.announced? .standard = none := by
    refine Instruction.announced?_eq_none fun wrapper => ?_
    rw [List.mem_singleton.mp (role?_eq_logWrapper_iff.mp wrapper).2] at hk
    rw [data]
    exact silent callee hc hk
  simp [Instruction.isLandmark, Instruction.isMint, unannounced, unminted]

/-- The first announced leaf is the one ahead of the top-level instruction. -/
theorem leafAhead_of_announces {schema : LeafSchema}
    (foreign : ∀ callee ∈ tx.callees, tx.programOf? callee ≠ some Program.compressedAsset)
    (announces : tx.Announces schema) :
    leafAhead .standard 0 (Execution.placed (.ofTransaction tx) 1 tx.callees) = some schema := by
  obtain ⟨before, emission, after, split, silent, wrapper, data⟩ := announces
  have others : ∀ callee ∈ before, tx.programOf? callee ≠ some Program.compressedAsset :=
    fun callee hc => foreign callee (by simp [split, hc])
  have quiet := find?_landmark_of_silent others silent 1
  rw [split, Execution.placed_append, Execution.placed_cons wrapper]
  generalize 1 + before.length = ordinal
  have announced : Instruction.announced? .standard
      ⟨Program.noop, emission.accounts, emission.data, .nested 0, 0, ordinal⟩ = some schema := by
    have read := LeafSchema.ofEmission_emission schema []
    rw [List.append_nil] at read
    simp [Instruction.announced?, role?_standard_noop, data, read]
  have landmark : Instruction.isLandmark .standard
      ⟨Program.noop, emission.accounts, emission.data, .nested 0, 0, ordinal⟩ = true := by
    simp [Instruction.isLandmark, announced]
  rw [leafAhead, List.find?_append, quiet, Option.none_or, List.find?_cons_of_pos landmark]
  simp [announced]

/-- A transaction with one call has at most the event of that call. -/
theorem events_of_carries (carries : tx.Carries kind args players) :
    ∃ raw : RawInstruction, raw.IsCall (.ofTransaction tx) kind args players ∧
      (tx.scan .standard).events =
        (Instruction.event? .standard tx
          (leafAhead .standard 0 (Execution.placed (.ofTransaction tx) 1 tx.callees))
          ⟨Program.compressedAsset, raw.accounts, raw.data, .top, 0, 0⟩).toList := by
  obtain ⟨raw, only, call⟩ := carries.top
  refine ⟨raw, call, ?_⟩
  have order := Transaction.instructions_of_top only call.program
  have nested : ∀ i ∈ Execution.placed (.ofTransaction tx) 1 tx.callees,
      i.origin = .top ∨ i.origin = .nested i.position := by
    intro i hi
    obtain ⟨_, _, _, _, inner⟩ := Execution.mem_placed hi
    exact Or.inr inner
  have quiet : (List.foldr (Walk.visit .standard (.ofTransaction tx) tx) .start
      (Execution.placed (.ofTransaction tx) 1 tx.callees)).events = [] :=
    events_of_no_target (role?_of_foreign carries.callees 1)
  simp only [Transaction.scan, order, List.foldr_cons, visit_events, pending_walk, quiet,
    leaf?_held _ nested, List.append_nil]

/-- What a call records: its arguments, its roles, and for a mint the leaf that is ahead. -/
theorem event?_of_isCall {raw : RawInstruction} {change : EventKind} {payload : Payload}
    (call : raw.IsCall (.ofTransaction tx) kind args players) (leaf : Option LeafSchema)
    (hk : kind.event? = some change) (hp : Payload.ofData kind raw.data = .ok payload)
    (tree : Role.merkleTree.required ∈ kind.roleSchema) :
    ∃ event, Instruction.event? .standard tx leaf
        ⟨Program.compressedAsset, raw.accounts, raw.data, .top, 0, 0⟩ = some event ∧
      event.kind = change ∧ event.payload = payload ∧
      event.leafSchema = change.carried leaf ∧
      event.assetId = (leafIndex? payload (change.carried leaf)).map
        (Asset.id Program.compressedAsset (players .merkleTree)) ∧
      event.slot = tx.slot ∧ event.signature = tx.signature ∧
      ∀ slot ∈ kind.roleSchema, slot.optional = false →
        event.roles.get? slot.role = some (players slot.role) := by
  obtain ⟨roles, resolved, played⟩ := call.resolve Program.compressedAsset
  have target : ScanContext.standard.role? Program.compressedAsset = some .target :=
    role?_eq_target_iff.mpr rfl
  have found : roles.get? .merkleTree = some (players .merkleTree) := played _ tree rfl
  have computed : Instruction.event? .standard tx leaf
      ⟨Program.compressedAsset, raw.accounts, raw.data, .top, 0, 0⟩ =
      some {
        kind := change
        instruction := kind
        assetId := (leafIndex? payload (change.carried leaf)).map
          (Asset.id Program.compressedAsset (players .merkleTree))
        merkleTree := players .merkleTree
        leafIndex := leafIndex? payload (change.carried leaf)
        roles
        leafSchema := change.carried leaf
        payload
        slot := tx.slot
        signature := tx.signature
        ordinal := 0 } := by
    simp only [Instruction.event?, target, call.ofPayload, hk, hp]
    rw [show ScanContext.standard.target = Program.compressedAsset from rfl, resolved]
    simp only [found, Option.map_some]
  exact ⟨_, computed, rfl, rfl, rfl, rfl, rfl, rfl, played⟩

end Scan

end LeafLedger
