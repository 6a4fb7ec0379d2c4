import LeafLedger.Instruction.Args
import LeafLedger.Text.Quoted

namespace LeafLedger

namespace Description

/-- Values one after the other, with commas. -/
def commas (values : List String) : String :=
  String.intercalate ", " values

def list (values : List String) : String :=
  "[" ++ commas values ++ "]"

/-- A value that may be missing. -/
def option : Option String → String
  | none => "None"
  | some value => "Some(" ++ value ++ ")"

/-- A record with its fields. -/
def record (name : String) (fields : List (String × String)) : String :=
  name ++ " \x7b " ++ commas (fields.map fun field => field.1 ++ ": " ++ field.2) ++ " \x7d"

def hash (h : Hash) : String :=
  list (h.toBytes.map fun b => toString b.toNat)

def bool (b : Bool) : String :=
  if b then "true" else "false"

end Description

open Description

def LeafArgs.description (args : LeafArgs) : String :=
  record "LeafArgs" [
    ("root", hash args.root),
    ("data_hash", hash args.dataHash),
    ("creator_hash", hash args.creatorHash),
    ("nonce", toString args.nonce.toNat),
    ("index", toString args.index.toNat)]

def Collection.description (c : Collection) : String :=
  record "Collection" [("verified", bool c.verified), ("key", c.key.text)]

def Creator.description (c : Creator) : String :=
  record "Creator" [
    ("address", c.address.text),
    ("verified", bool c.verified),
    ("share", toString c.share.toNat)]

def Uses.description (u : Uses) : String :=
  record "Uses" [
    ("use_method", u.useMethod.name),
    ("remaining", toString u.remaining.toNat),
    ("total", toString u.total.toNat)]

def Metadata.description (m : Metadata) : String :=
  record "MetadataArgs" [
    ("name", Quoted.text m.name),
    ("symbol", Quoted.text m.symbol),
    ("uri", Quoted.text m.uri),
    ("seller_fee_basis_points", toString m.sellerFeeBasisPoints.toNat),
    ("primary_sale_happened", bool m.primarySaleHappened),
    ("is_mutable", bool m.isMutable),
    ("edition_nonce", option (m.editionNonce.map fun n => toString n.toNat)),
    ("token_standard", option (m.tokenStandard.map (·.name))),
    ("collection", option (m.collection.map (·.description))),
    ("uses", option (m.uses.map (·.description))),
    ("token_program_version", m.tokenProgramVersion.name),
    ("creators", list (m.creators.map (·.description)))]

def Payload.description : Payload → String
  | .mint metadata => "Mint(" ++ metadata.description ++ ")"
  | .transfer args => "Transfer(" ++ args.description ++ ")"
  | .burn args => "Burn(" ++ args.description ++ ")"
  | .unsupported kind => record "Unsupported" [("kind", kind.title)]

end LeafLedger
