import LeafLedger.Event.Json
import LeafLedger.Store.Record

namespace LeafLedger

def Metadata.toJson (m : Metadata) : Json :=
  .object m.jsonFields

/-- What is known about an asset as JSON. What the record remembers to order further events stays
out. -/
def AssetRecord.toJson (r : AssetRecord) : Json :=
  .object [
    ("asset_id", r.assetId.toJson),
    ("merkle_tree", r.merkleTree.toJson),
    ("tree_authority", .ofOption Bytes32.toJson r.treeAuthority),
    ("leaf_index", .ofOption wordJson r.leafIndex),
    ("nonce", .ofOption wordJson r.nonce),
    ("owner", .ofOption Bytes32.toJson r.owner),
    ("delegate", .ofOption Bytes32.toJson r.delegate),
    ("burnt", .bool r.burnt),
    ("metadata", .ofOption Metadata.toJson r.metadata),
    ("collection", .ofOption Collection.toJson r.collection),
    ("creators", .ofList Creator.toJson r.creators),
    ("royalty_basis_points", .ofOption (fun n => .ofNat n.toNat) r.royaltyBasisPoints),
    ("metadata_json", .ofOption id r.metadataJson),
    ("last_sequence", .ofOption Sequence.toJson r.lastSequence)]

end LeafLedger
