import LeafLedger.Event
import LeafLedger.Json.Value

namespace LeafLedger

/-- What is known about an asset. -/
structure AssetRecord where
  assetId : Address
  merkleTree : Address
  treeAuthority : Option Address
  leafIndex : Option UInt64
  nonce : Option UInt64
  owner : Option Address
  delegate : Option Address
  burnt : Bool
  metadata : Option Metadata
  collection : Option Collection
  creators : List Creator
  royaltyBasisPoints : Option UInt16
  /-- The document behind the metadata's address, once it was fetched. -/
  metadataJson : Option Json
  lastSequence : Option Sequence
  watermark : Watermark

/-- What an event changes, without the place of the event. -/
inductive Projection
  | mint (owner delegate : Address) (nonce : UInt64) (metadata : Metadata)
      (treeAuthority : Option Address)
  | transfer (newOwner : Address)
  | burn
  deriving DecidableEq

/-- What an event changes, if it says enough: a mint needs its leaf, a transfer its new owner. -/
def Projection.ofEvent (event : Event) : Except Error Projection :=
  match event.kind, event.payload, event.leafSchema with
  | .mint, .mint metadata, some schema =>
    .ok (.mint schema.owner schema.delegate schema.nonce metadata (event.roles.get? .treeConfig))
  | .transfer, _, _ => (event.roles.require .newLeafOwner).map .transfer
  | .burn, _, _ => .ok .burn
  | .mint, payload, _ => .error (.unprojectable .mint payload)

namespace AssetRecord

/-- An asset of which nothing is known but its id and its tree. -/
def blank (assetId merkleTree : Address) : AssetRecord where
  assetId
  merkleTree
  treeAuthority := none
  leafIndex := none
  nonce := none
  owner := none
  delegate := none
  burnt := false
  metadata := none
  collection := none
  creators := []
  royaltyBasisPoints := none
  metadataJson := none
  lastSequence := none
  watermark := .empty

/-- Whether the mint of the asset was seen. -/
def isComplete (r : AssetRecord) : Bool :=
  r.metadata.isSome

/-- Takes the leaf index of an event if none is known. -/
def fillLeafIndex (r : AssetRecord) (leafIndex : Option UInt64) : AssetRecord :=
  { r with leafIndex := r.leafIndex <|> leafIndex }

/-- Takes the tree authority of a mint if none is known. -/
def fillTreeAuthority (r : AssetRecord) (treeAuthority : Option Address) : AssetRecord :=
  { r with treeAuthority := r.treeAuthority <|> treeAuthority }

/-- Takes the metadata of a mint, and what follows from it, if none is known. -/
def fillMetadata (r : AssetRecord) (metadata : Metadata) : AssetRecord :=
  if r.metadata.isSome then r
  else
    { r with
      metadata := some metadata
      collection := metadata.collection
      creators := metadata.creators
      royaltyBasisPoints := some metadata.sellerFeeBasisPoints }

/-- Takes from a mint what no other event tells, as far as it is not known. -/
def fillMintData (r : AssetRecord) (metadata : Metadata) (treeAuthority : Option Address) :
    AssetRecord :=
  (r.fillTreeAuthority treeAuthority).fillMetadata metadata

/-- The asset after an event that is in order. A transfer leaves the new owner as the delegate. -/
def project (r : AssetRecord) : Projection → AssetRecord
  | .mint owner delegate nonce metadata treeAuthority =>
    { r with owner := some owner, delegate := some delegate, nonce := some nonce }.fillMintData
      metadata treeAuthority
  | .transfer newOwner => { r with owner := some newOwner, delegate := some newOwner }
  | .burn => { r with burnt := true }

/-- The asset after an event that came too late. Of a mint it keeps what no other event tells. -/
def backfill (r : AssetRecord) : Projection → AssetRecord
  | .mint _ _ nonce metadata treeAuthority =>
    let filled := r.fillMintData metadata treeAuthority
    { filled with nonce := filled.nonce <|> some nonce }
  | .transfer _ | .burn => r

/-- Remembers the place of an applied event. -/
def advance (r : AssetRecord) (sequence : Sequence) : AssetRecord :=
  { r with lastSequence := some sequence, watermark := r.watermark.record sequence }

/-- The asset after an event was decided on. -/
def settle (r : AssetRecord) (decision : Decision) (projection : Projection)
    (sequence : Sequence) : AssetRecord :=
  match decision with
  | .apply => (r.project projection).advance sequence
  | .ignoreStale => r.backfill projection
  | .ignoreDuplicate | .ignoreUnidentified => r

end AssetRecord

end LeafLedger
