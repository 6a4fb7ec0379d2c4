import LeafLedger.Event
import LeafLedger.Json.Value

namespace LeafLedger

def Bytes32.toJson (k : Bytes32) : Json :=
  .string k.text

/-- A number of sixty-four bits as JSON. -/
def wordJson (n : UInt64) : Json :=
  .ofNat n.toNat

def Sequence.toJson (s : Sequence) : Json :=
  .object [
    ("slot", wordJson s.slot),
    ("signature", .string s.signature),
    ("ordinal", .ofNat s.ordinal)]

def RoleMap.toJson (roles : RoleMap) : Json :=
  .object [
    ("named", .object (roles.sorted.map fun (role, key) => (role.name, key.toJson))),
    ("remaining", .ofList Bytes32.toJson roles.remaining)]

def LeafSchema.toJson (s : LeafSchema) : Json :=
  .object [
    ("leaf_id", s.leafId.toJson),
    ("owner", s.owner.toJson),
    ("delegate", s.delegate.toJson),
    ("nonce", wordJson s.nonce),
    ("data_hash", s.dataHash.toJson),
    ("creator_hash", s.creatorHash.toJson),
    ("leaf_hash", s.leafHash.toJson)]

def Collection.toJson (c : Collection) : Json :=
  .object [("verified", .bool c.verified), ("key", c.key.toJson)]

def Creator.toJson (c : Creator) : Json :=
  .object [
    ("address", c.address.toJson),
    ("verified", .bool c.verified),
    ("share", .ofNat c.share.toNat)]

def Uses.toJson (u : Uses) : Json :=
  .object [
    ("use_method", .string u.useMethod.name),
    ("remaining", wordJson u.remaining),
    ("total", wordJson u.total)]

/-- The fields of a mint's arguments. -/
def Metadata.jsonFields (m : Metadata) : List (String × Json) :=
  [("name", .string m.name),
   ("symbol", .string m.symbol),
   ("uri", .string m.uri),
   ("seller_fee_basis_points", .ofNat m.sellerFeeBasisPoints.toNat),
   ("primary_sale_happened", .bool m.primarySaleHappened),
   ("is_mutable", .bool m.isMutable),
   ("edition_nonce", .ofOption (fun n => .ofNat n.toNat) m.editionNonce),
   ("token_standard", .ofOption (fun s => .string s.name) m.tokenStandard),
   ("collection", .ofOption Collection.toJson m.collection),
   ("uses", .ofOption Uses.toJson m.uses),
   ("token_program_version", .string m.tokenProgramVersion.name),
   ("creators", .ofList Creator.toJson m.creators)]

/-- The fields of a transfer's or a burn's arguments. -/
def LeafArgs.jsonFields (a : LeafArgs) : List (String × Json) :=
  [("root", a.root.toJson),
   ("data_hash", a.dataHash.toJson),
   ("creator_hash", a.creatorHash.toJson),
   ("nonce", wordJson a.nonce),
   ("index", .ofNat a.index.toNat)]

/-- A payload as JSON: its type and then its fields. -/
def Payload.toJson : Payload → Json
  | .mint metadata => .object (("type", .string "mint") :: metadata.jsonFields)
  | .transfer args => .object (("type", .string "transfer") :: args.jsonFields)
  | .burn args => .object (("type", .string "burn") :: args.jsonFields)
  | .unsupported kind => .object [("type", .string "unsupported"), ("kind", .string kind.name)]

def Event.toJson (e : Event) : Json :=
  .object [
    ("kind", .string e.kind.name),
    ("instruction", .string e.instruction.name),
    ("asset_id", .ofOption Bytes32.toJson e.assetId),
    ("merkle_tree", e.merkleTree.toJson),
    ("leaf_index", .ofOption wordJson e.leafIndex),
    ("roles", e.roles.toJson),
    ("leaf_schema", .ofOption LeafSchema.toJson e.leafSchema),
    ("payload", e.payload.toJson),
    ("slot", wordJson e.slot),
    ("signature", .string e.signature),
    ("ordinal", .ofNat e.ordinal)]

end LeafLedger
