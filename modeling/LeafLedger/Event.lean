import LeafLedger.LeafSchema
import LeafLedger.Sequence
import LeafLedger.Transaction.RoleMap

namespace LeafLedger

/-- A change to an asset. The asset id is missing for a mint whose leaf was not announced. -/
structure Event where
  kind : EventKind
  instruction : Kind
  assetId : Option Address
  merkleTree : Address
  leafIndex : Option UInt64
  roles : RoleMap
  leafSchema : Option LeafSchema
  payload : Payload
  slot : UInt64
  signature : String
  ordinal : Nat
  deriving DecidableEq

/-- The place of an event in the order of the chain. -/
def Event.sequence (event : Event) : Sequence :=
  ⟨event.slot, event.signature, event.ordinal⟩

end LeafLedger
