import LeafLedger.Address

namespace LeafLedger

/-- An instruction as it stands in a message. -/
structure RawInstruction where
  programIndex : UInt8
  accounts : List UInt8
  data : Bytes
  deriving DecidableEq

/-- Instructions invoked under the top-level instruction at a position. -/
structure InnerGroup where
  index : UInt8
  instructions : List RawInstruction
  deriving DecidableEq

/-- Keys that a message takes from lookup tables. -/
structure LoadedAddresses where
  writable : List Address
  readonly : List Address
  deriving DecidableEq

/-- A confirmed transaction. -/
structure Transaction where
  signature : String
  slot : UInt64
  accountKeys : List Address
  loaded : LoadedAddresses
  instructions : List RawInstruction
  inner : List InnerGroup
  deriving DecidableEq

end LeafLedger
