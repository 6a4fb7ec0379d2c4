import LeafLedger.Bytes

namespace LeafLedger

/-- The instructions that are told apart. -/
inductive Kind
  | mintV1
  | mintToCollectionV1
  | transfer
  | burn
  | delegate
  | redeem
  | cancelRedeem
  | decompressV1
  | compress
  | createTree
  | setTreeDelegate
  | verifyCreator
  | unverifyCreator
  | verifyCollection
  | unverifyCollection
  | setAndVerifyCollection
  | updateMetadata
  | setDecompressibleState
  | setDecompressableState
  | verifyLeaf
  | unrecognized
  deriving DecidableEq

/-- What an instruction does to an asset. -/
inductive EventKind
  | mint
  | transfer
  | burn
  deriving DecidableEq

namespace EventKind

def all : List EventKind :=
  [mint, transfer, burn]

def name : EventKind → String
  | mint => "mint"
  | transfer => "transfer"
  | burn => "burn"

def ofName? (name : String) : Option EventKind :=
  all.find? (·.name == name)

/-- Whether events of this kind take their leaf from an emission rather than from the arguments of
the instruction. -/
def needsLeafSchema : EventKind → Bool
  | mint => true
  | transfer | burn => false

end EventKind

namespace Kind

def all : List Kind :=
  [mintV1, mintToCollectionV1, transfer, burn, delegate, redeem, cancelRedeem, decompressV1,
    compress, createTree, setTreeDelegate, verifyCreator, unverifyCreator, verifyCollection,
    unverifyCollection, setAndVerifyCollection, updateMetadata, setDecompressibleState,
    setDecompressableState, verifyLeaf, unrecognized]

def name : Kind → String
  | mintV1 => "mint_v1"
  | mintToCollectionV1 => "mint_to_collection_v1"
  | transfer => "transfer"
  | burn => "burn"
  | delegate => "delegate"
  | redeem => "redeem"
  | cancelRedeem => "cancel_redeem"
  | decompressV1 => "decompress_v1"
  | compress => "compress"
  | createTree => "create_tree"
  | setTreeDelegate => "set_tree_delegate"
  | verifyCreator => "verify_creator"
  | unverifyCreator => "unverify_creator"
  | verifyCollection => "verify_collection"
  | unverifyCollection => "unverify_collection"
  | setAndVerifyCollection => "set_and_verify_collection"
  | updateMetadata => "update_metadata"
  | setDecompressibleState => "set_decompressible_state"
  | setDecompressableState => "set_decompressable_state"
  | verifyLeaf => "verify_leaf"
  | unrecognized => "unrecognized"

/-- The name of an instruction in capitalized words, as descriptions of payloads show it. -/
def title (kind : Kind) : String :=
  String.ofList (kind.name.splitOn "_" |>.flatMap fun word =>
    match word.toList with
    | [] => []
    | c :: cs => c.toUpper :: cs)

def ofName? (name : String) : Option Kind :=
  all.find? (·.name == name)

/-- Whether the instruction creates a leaf. -/
def isMint : Kind → Bool
  | mintV1 | mintToCollectionV1 => true
  | _ => false

/-- The change that an instruction records, if it changes the ownership or existence of a leaf. -/
def event? : Kind → Option EventKind
  | mintV1 | mintToCollectionV1 => some .mint
  | transfer => some .transfer
  | burn => some .burn
  | _ => none

/-- The number of bytes that tell instructions apart. -/
def discriminatorLength : Nat :=
  8

/-- The first bytes of each instruction's data. -/
def discriminators : List (Bytes × Kind) :=
  [([0x91, 0x62, 0xc0, 0x76, 0xb8, 0x93, 0x76, 0x68], mintV1),
   ([0x99, 0x12, 0xb2, 0x2f, 0xc5, 0x9e, 0x56, 0x0f], mintToCollectionV1),
   ([0xa3, 0x34, 0xc8, 0xe7, 0x8c, 0x03, 0x45, 0xba], transfer),
   ([0x74, 0x6e, 0x1d, 0x38, 0x6b, 0xdb, 0x2a, 0x5d], burn),
   ([0x5a, 0x93, 0x4b, 0xb2, 0x55, 0x58, 0x04, 0x89], delegate),
   ([0xb8, 0x0c, 0x56, 0x95, 0x46, 0xc4, 0x61, 0xe1], redeem),
   ([0x6f, 0x4c, 0xe8, 0x32, 0x27, 0xaf, 0x30, 0xf2], cancelRedeem),
   ([0x36, 0x55, 0x4c, 0x46, 0xe4, 0xfa, 0xa4, 0x51], decompressV1),
   ([0x52, 0xc1, 0xb0, 0x75, 0xb0, 0x15, 0x73, 0xfd], compress),
   ([0xa5, 0x53, 0x88, 0x8e, 0x59, 0xca, 0x2f, 0xdc], createTree),
   ([0xfd, 0x76, 0x42, 0x25, 0xbe, 0x31, 0x9a, 0x66], setTreeDelegate),
   ([0x34, 0x11, 0x60, 0x84, 0x47, 0x04, 0x55, 0xc2], verifyCreator),
   ([0x6b, 0xb2, 0x39, 0x27, 0x69, 0x73, 0x70, 0x98], unverifyCreator),
   ([0x38, 0x71, 0x65, 0xfd, 0x4f, 0x37, 0x7a, 0xa9], verifyCollection),
   ([0xfa, 0xfb, 0x2a, 0x6a, 0x29, 0x89, 0xba, 0xa8], unverifyCollection),
   ([0xeb, 0xf2, 0x79, 0xd8, 0x9e, 0xea, 0xb4, 0xea], setAndVerifyCollection),
   ([0xaa, 0xb6, 0x2b, 0xef, 0x61, 0x4e, 0xe1, 0xba], updateMetadata),
   ([0x52, 0x68, 0x98, 0x06, 0x95, 0x6f, 0x64, 0x0d], setDecompressibleState),
   ([0x12, 0x87, 0xee, 0xa8, 0xf6, 0xc3, 0x3d, 0x73], setDecompressableState),
   ([0x7c, 0xdc, 0x16, 0xdf, 0x68, 0x0a, 0xfa, 0xe0], verifyLeaf)]

/-- The first bytes of the data of an instruction, if the kind has such bytes. -/
def discriminator? (kind : Kind) : Option Bytes :=
  (discriminators.find? (·.2 == kind)).map (·.1)

/-- The kind of an instruction by its data. Data that is too short or begins like none of them is
unrecognized. -/
def ofPayload (payload : Bytes) : Kind :=
  match payload.window? 0 discriminatorLength with
  | none => unrecognized
  | some front => ((discriminators.find? (·.1 == front)).map (·.2)).getD unrecognized

end Kind

end LeafLedger
