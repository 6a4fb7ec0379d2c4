import LeafLedger.Proofs.Scan.SingleCall
import LeafLedger.Store.Record

namespace LeafLedger

open Borsh (encode Lawful)

/-- What a client does to an asset: the asset of a mint stands at the leaf of its nonce. -/
inductive Operation
  | mint (tree owner delegate : Address) (nonce : UInt64) (metadata : Metadata)
  | transfer (tree : Address) (index : UInt32) (newOwner : Address)
  | burn (tree : Address) (index : UInt32)

namespace Operation

/-- The id of the asset that an operation is about. -/
def assetId : Operation → Address
  | mint tree _ _ nonce _ => Asset.id Program.compressedAsset tree nonce
  | transfer tree index _ | burn tree index =>
    Asset.id Program.compressedAsset tree index.toUInt64

/-- Whether an operation is a mint. -/
def isMint : Operation → Bool
  | mint .. => true
  | transfer .. | burn .. => false

/-- What an operation changes, by a program that names a tree authority. -/
def projection (treeAuthority : Option Address) : Operation → Projection
  | mint _ owner delegate nonce metadata => .mint owner delegate nonce metadata treeAuthority
  | transfer _ _ newOwner => .transfer newOwner
  | burn .. => .burn

/-- The transactions that carry out an operation. Tree and new owner are told by the accounts in
their roles, a new leaf by an announcement under the mint, everything else by the arguments. -/
inductive Renders : Operation → Transaction → Prop
  | mint {tx : Transaction} {kind : Kind} {players : Role → Address} {metadata : Metadata}
      {schema : LeafSchema} (mints : kind.isMint = true) (fits : metadata.Fits)
      (carries : tx.Carries kind (encode metadata) players) (announces : tx.Announces schema) :
      Renders
        (.mint (players .merkleTree) schema.owner schema.delegate schema.nonce metadata) tx
  | transfer {tx : Transaction} {players : Role → Address} {args : LeafArgs}
      (carries : tx.Carries .transfer (encode args) players) :
      Renders (.transfer (players .merkleTree) args.index (players .newLeafOwner)) tx
  | burn {tx : Transaction} {players : Role → Address} {args : LeafArgs}
      (carries : tx.Carries .burn (encode args) players) :
      Renders (.burn (players .merkleTree) args.index) tx

/-- The event tells what the operation asked for. -/
structure ToldBy (op : Operation) (event : Event) : Prop where
  assetId : event.assetId = some op.assetId
  projection : ∃ treeAuthority, Projection.ofEvent event = .ok (op.projection treeAuthority)

theorem ofData_of_isMint {tx : Transaction} {kind : Kind} {players : Role → Address}
    {metadata : Metadata} {raw : RawInstruction} (mints : kind.isMint = true)
    (fits : metadata.Fits)
    (call : raw.IsCall (.ofTransaction tx) kind (encode metadata) players) :
    Payload.ofData kind raw.data = .ok (.mint metadata) := by
  have read := call.readArguments fits.reads
  cases kind with
  | mintV1 | mintToCollectionV1 => simp only [Payload.ofData, read, Except.map]
  | _ => cases mints

/-- A transaction that carries out an operation has one event, and it tells the operation. -/
theorem events_of_renders {op : Operation} {tx : Transaction} (renders : op.Renders tx) :
    ∃ event, (tx.scan .standard).events = [event] ∧ op.ToldBy event ∧
      event.slot = tx.slot ∧ event.signature = tx.signature := by
  cases renders with
  | @mint _ kind players metadata schema mints fits carries announces =>
    obtain ⟨raw, call, events⟩ := Scan.events_of_carries carries
    rw [Scan.leafAhead_of_announces carries.callees announces] at events
    have change : kind.event? = some .mint := by
      cases kind <;> first | rfl | cases mints
    have tree : Role.merkleTree.required ∈ kind.roleSchema := by
      cases kind <;> first | decide | cases mints
    obtain ⟨event, found, ek, ep, es, ea, slot, signature, _⟩ :=
      Scan.event?_of_isCall call (some schema) change (ofData_of_isMint mints fits call) tree
    refine ⟨event, by rw [events, found]; rfl, ⟨ea, event.roles.get? .treeConfig, ?_⟩, slot,
      signature⟩
    simp only [Projection.ofEvent, ek, ep, es]
    rfl
  | @transfer _ players args carries =>
    obtain ⟨raw, call, events⟩ := Scan.events_of_carries carries
    have read : Payload.ofData .transfer raw.data = .ok (.transfer args) := by
      simp only [Payload.ofData, call.readArguments (Lawful.reads args), Except.map]
    obtain ⟨event, found, ek, ep, es, ea, slot, signature, played⟩ :=
      Scan.event?_of_isCall call _ rfl read (by decide)
    have owner : event.roles.get? .newLeafOwner = some (players .newLeafOwner) :=
      played Role.newLeafOwner.required (by decide) rfl
    refine ⟨event, by rw [events, found]; rfl, ⟨ea, none, ?_⟩, slot, signature⟩
    simp only [Projection.ofEvent, ek, RoleMap.require, owner]
    rfl
  | @burn _ players args carries =>
    obtain ⟨raw, call, events⟩ := Scan.events_of_carries carries
    have read : Payload.ofData .burn raw.data = .ok (.burn args) := by
      simp only [Payload.ofData, call.readArguments (Lawful.reads args), Except.map]
    obtain ⟨event, found, ek, ep, es, ea, slot, signature, played⟩ :=
      Scan.event?_of_isCall call _ rfl read (by decide)
    refine ⟨event, by rw [events, found]; rfl, ⟨ea, none, ?_⟩, slot, signature⟩
    simp only [Projection.ofEvent, ek]
    rfl

/-- The players of a call of which only the tree and the new owner matter. -/
def castOf (tree newOwner : Address) : Role → Address
  | .merkleTree => tree
  | .newLeafOwner => newOwner
  | .logWrapper => Program.noop
  | _ => .replicate 0

/-- The leaf that a mint announces, as far as it matters. -/
def leafOf (owner delegate : Address) (nonce : UInt64) : LeafSchema where
  leafId := .replicate 0
  owner
  delegate
  nonce
  dataHash := .replicate 0
  creatorHash := .replicate 0
  leafHash := .replicate 0

/-- The arguments that name a leaf, as far as they matter. -/
def argsOf (index : UInt32) : LeafArgs where
  root := .replicate 0
  dataHash := .replicate 0
  creatorHash := .replicate 0
  nonce := index.toUInt64
  index

/-- A transaction of one call, with all keys that it needs in the order of the roles. -/
def transactionOf (signature : String) (slot : UInt64) (kind : Kind) (args : Bytes)
    (players : Role → Address) (callees : List RawInstruction) : Transaction where
  signature
  slot
  accountKeys :=
    Program.compressedAsset :: Program.noop :: kind.roleSchema.map fun slot => players slot.role
  loaded := ⟨[], []⟩
  instructions := [{
    programIndex := 0
    accounts := (List.range kind.roleSchema.length).map fun n => UInt8.ofNat (n + 2)
    data := kind.discriminator?.getD [] ++ args }]
  inner := [⟨0, callees⟩]

/-- A transaction that carries out an operation. -/
def render (signature : String) (slot : UInt64) : Operation → Transaction
  | mint tree owner delegate nonce metadata =>
    transactionOf signature slot .mintV1 (encode metadata) (castOf tree owner)
      [⟨1, [], (leafOf owner delegate nonce).emission⟩]
  | transfer tree index newOwner =>
    transactionOf signature slot .transfer (encode (argsOf index)) (castOf tree newOwner) []
  | burn tree index =>
    transactionOf signature slot .burn (encode (argsOf index)) (castOf tree tree) []

theorem callees_transactionOf (signature : String) (slot : UInt64) (kind : Kind) (args : Bytes)
    (players : Role → Address) (callees : List RawInstruction) :
    (transactionOf signature slot kind args players callees).callees = callees := by
  simp [Transaction.callees, transactionOf]

theorem carries_transactionOf {kind : Kind} {callees : List RawInstruction}
    (change : kind.event?.isSome) (wrapped : ∀ callee ∈ callees, callee.programIndex = 1)
    (signature : String) (slot : UInt64) (args : Bytes) (players : Role → Address) :
    (transactionOf signature slot kind args players callees).Carries kind args players := by
  refine ⟨⟨_, rfl, rfl, ?_, [], ?_⟩, ?_⟩
  · cases kind <;> first | exact ⟨_, rfl, rfl⟩ | cases change
  · cases kind <;> rfl
  · rw [callees_transactionOf]
    intro callee hc target
    rw [Transaction.programOf?, wrapped callee hc] at target
    exact absurd (Option.some.inj target) (by decide)

/-- Every operation whose metadata can be written has a transaction that carries it out. -/
theorem renders_render {op : Operation}
    (fits : ∀ tree owner delegate nonce metadata,
      op = mint tree owner delegate nonce metadata → metadata.Fits)
    (signature : String) (slot : UInt64) : op.Renders (op.render signature slot) := by
  cases op with
  | mint tree owner delegate nonce metadata =>
    have carries : ((mint tree owner delegate nonce metadata).render signature slot).Carries .mintV1
        (encode metadata) (castOf tree owner) :=
      carries_transactionOf rfl (by simp) signature slot _ _
    refine @Renders.mint _ .mintV1 (castOf tree owner) metadata (leafOf owner delegate nonce) rfl
      (fits _ _ _ _ _ rfl) carries ?_
    refine ⟨[], _, [], callees_transactionOf _ _ _ _ _ _, by simp, rfl, rfl⟩
  | transfer tree index newOwner =>
    exact @Renders.transfer _ (castOf tree newOwner) (argsOf index)
      (carries_transactionOf rfl (by simp) signature slot _ _)
  | burn tree index =>
    exact @Renders.burn _ (castOf tree tree) (argsOf index)
      (carries_transactionOf rfl (by simp) signature slot _ _)

end Operation

end LeafLedger
