import LeafLedger.Instruction.Payload
import LeafLedger.Scan.Context
import LeafLedger.Scan.PendingLeaf
import LeafLedger.Transaction.Execution

namespace LeafLedger

/-- The events of a transaction in execution order, and what was reported while they were found. -/
structure Scan where
  events : List Event
  notices : List Notice
  deriving DecidableEq

namespace Scan

/-- How far a walk has come. -/
structure Walk where
  pending : PendingLeaf
  events : List Event
  notices : List Notice
  deriving DecidableEq

/-- Where every walk begins. -/
def Walk.start : Walk :=
  ⟨.empty, [], []⟩

def Walk.note (walk : Walk) (notice : Notice) : Walk :=
  { walk with notices := walk.notices ++ [notice] }

/-- The leaf position that an event's payload gives: transfers and burns name it, a mint has that of
its leaf. -/
def leafIndex? (payload : Payload) (schema : Option LeafSchema) : Option UInt64 :=
  match payload, schema with
  | .transfer args, _ | .burn args, _ => some args.index.toUInt64
  | .mint _, some schema => some schema.nonce
  | .mint _, none | .unsupported _, _ => none

/-- The event of an instruction of the target program. -/
def event (context : ScanContext) (table : KeyTable) (tx : Transaction) (i : Instruction)
    (instruction : Kind) (kind : EventKind) (schema : Option LeafSchema) : Except Error Event := do
  let roles ← RoleMap.resolve instruction i.accounts table context.target
  let payload ← Payload.ofData instruction i.data
  let merkleTree ← roles.require .merkleTree
  let leafIndex := leafIndex? payload schema
  return {
    kind
    instruction
    assetId := leafIndex.map (Asset.id context.target merkleTree)
    merkleTree
    leafIndex
    roles
    leafSchema := schema
    payload
    slot := tx.slot
    signature := tx.signature
    ordinal := i.ordinal }

/-- What is reported about an event that was found: a mint without a leaf, and a leaf that was
announced with another id than the derived one. -/
def remarks (event : Event) : List Notice :=
  match event.leafSchema, event.assetId with
  | none, none => [.unidentifiedMint event.signature event.ordinal]
  | some schema, some derived =>
    if schema.leafId = derived then []
    else [.leafIdDisagrees event.signature event.ordinal schema.leafId derived]
  | _, _ => []

/-- The leaf that a mint takes from the walk. -/
def Walk.takeLeaf (walk : Walk) (tx : Transaction) (i : Instruction) : Walk × Option LeafSchema :=
  let (pending, claim) := walk.pending.take i.position
  let walk := { walk with pending }
  match claim with
  | .nothing => (walk, none)
  | .matched schema => (walk, some schema)
  | .foreign schema nestedUnder =>
    (walk.note (.foreignLeaf tx.signature i.ordinal i.position nestedUnder schema.leafId), none)

/-- An instruction of the target program. -/
def Walk.visitTarget (context : ScanContext) (table : KeyTable) (tx : Transaction)
    (i : Instruction) (walk : Walk) : Walk :=
  let instruction := Kind.ofPayload i.data
  match instruction.event? with
  | none => walk.note (.noEvent i.ordinal instruction)
  | some kind =>
    let (walk, schema) := if kind.needsLeafSchema then walk.takeLeaf tx i else (walk, none)
    match event context table tx i instruction kind schema with
    | .ok event =>
      { walk with events := event :: walk.events, notices := walk.notices ++ remarks event }
    | .error error =>
      walk.note (.skippedInstruction tx.signature i.ordinal instruction error)

/-- An instruction of a log wrapper. -/
def Walk.visitLogWrapper (tx : Transaction) (i : Instruction) (walk : Walk) : Walk :=
  match LeafSchema.ofEmission i.data with
  | .ok (some schema) =>
    { walk with pending := walk.pending.observe schema i.origin.parent? }
  | .ok none => walk
  | .error error => walk.note (.malformedEmission tx.signature i.ordinal error)

/-- One step of the walk. -/
def Walk.visit (context : ScanContext) (table : KeyTable) (tx : Transaction) (i : Instruction)
    (walk : Walk) : Walk :=
  match context.role? i.program with
  | some .target => walk.visitTarget context table tx i
  | some .logWrapper => walk.visitLogWrapper tx i
  | none => walk

end Scan

/-- The events of a transaction. -/
def Transaction.scan (context : ScanContext) (tx : Transaction) : Scan :=
  let table := KeyTable.ofTransaction tx
  let execution := tx.execution table
  let walk := execution.instructions.foldr (Scan.Walk.visit context table tx) .start
  ⟨walk.events, execution.notices ++ walk.notices ++ [.scanComplete walk.events.length]⟩

end LeafLedger
