import LeafLedger.Borsh
import LeafLedger.Instruction.Kind

namespace LeafLedger

open Borsh (encode decode)

/-- The arguments of a transfer or a burn: the leaf that is replaced, and where it stands. -/
structure LeafArgs where
  root : Hash
  dataHash : Hash
  creatorHash : Hash
  nonce : UInt64
  index : UInt32
  deriving DecidableEq

/-- What kind of token an asset is. -/
inductive TokenStandard
  | nonFungible
  | fungibleAsset
  | fungible
  | nonFungibleEdition
  deriving DecidableEq

/-- How an asset is used up. -/
inductive UseMethod
  | burn
  | multiple
  | single
  deriving DecidableEq

/-- The token program that an asset was made for. -/
inductive TokenProgramVersion
  | legacy
  | token2022
  deriving DecidableEq

/-- How often an asset may still be used. -/
structure Uses where
  useMethod : UseMethod
  remaining : UInt64
  total : UInt64
  deriving DecidableEq

/-- The collection that an asset claims to belong to. -/
structure Collection where
  verified : Bool
  key : Address
  deriving DecidableEq

/-- A creator with a share of the royalties in per cent. -/
structure Creator where
  address : Address
  verified : Bool
  share : UInt8
  deriving DecidableEq

/-- The arguments of a mint: what the new asset is. -/
structure Metadata where
  name : String
  symbol : String
  uri : String
  sellerFeeBasisPoints : UInt16
  primarySaleHappened : Bool
  isMutable : Bool
  editionNonce : Option UInt8
  tokenStandard : Option TokenStandard
  collection : Option Collection
  uses : Option Uses
  tokenProgramVersion : TokenProgramVersion
  creators : List Creator
  deriving DecidableEq

/-- The arguments of an instruction, as far as its kind has any that are read. -/
inductive Payload
  | mint (metadata : Metadata)
  | transfer (args : LeafArgs)
  | burn (args : LeafArgs)
  | unsupported (kind : Kind)
  deriving DecidableEq

def TokenStandard.name : TokenStandard → String
  | nonFungible => "NonFungible"
  | fungibleAsset => "FungibleAsset"
  | fungible => "Fungible"
  | nonFungibleEdition => "NonFungibleEdition"

def UseMethod.name : UseMethod → String
  | burn => "Burn"
  | multiple => "Multiple"
  | single => "Single"

def TokenProgramVersion.name : TokenProgramVersion → String
  | legacy => "Original"
  | token2022 => "Token2022"

instance : Borsh LeafArgs where
  encode a :=
    encode a.root ++ encode a.dataHash ++ encode a.creatorHash ++ encode a.nonce ++ encode a.index
  decode := return {
    root := ← decode
    dataHash := ← decode
    creatorHash := ← decode
    nonce := ← decode
    index := ← decode }

instance : Borsh TokenStandard :=
  Borsh.ofVariants [.nonFungible, .fungibleAsset, .fungible, .nonFungibleEdition]

instance : Borsh UseMethod :=
  Borsh.ofVariants [.burn, .multiple, .single]

instance : Borsh TokenProgramVersion :=
  Borsh.ofVariants [.legacy, .token2022]

instance : Borsh Uses where
  encode u := encode u.useMethod ++ encode u.remaining ++ encode u.total
  decode := return { useMethod := ← decode, remaining := ← decode, total := ← decode }

instance : Borsh Collection where
  encode c := encode c.verified ++ encode c.key
  decode := return { verified := ← decode, key := ← decode }

instance : Borsh Creator where
  encode c := encode c.address ++ encode c.verified ++ encode c.share
  decode := return { address := ← decode, verified := ← decode, share := ← decode }

instance : Borsh Metadata where
  encode m :=
    encode m.name ++ encode m.symbol ++ encode m.uri ++ encode m.sellerFeeBasisPoints ++
      encode m.primarySaleHappened ++ encode m.isMutable ++ encode m.editionNonce ++
      encode m.tokenStandard ++ encode m.collection ++ encode m.uses ++
      encode m.tokenProgramVersion ++ encode m.creators
  decode := return {
    name := ← decode
    symbol := ← decode
    uri := ← decode
    sellerFeeBasisPoints := ← decode
    primarySaleHappened := ← decode
    isMutable := ← decode
    editionNonce := ← decode
    tokenStandard := ← decode
    collection := ← decode
    uses := ← decode
    tokenProgramVersion := ← decode
    creators := ← decode }

end LeafLedger
