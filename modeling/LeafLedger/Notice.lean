import LeafLedger.Event

namespace LeafLedger

/-- How much a notice matters. -/
inductive Level
  | trace
  | debug
  | info
  | warn
  deriving DecidableEq

def Level.name : Level → String
  | trace => "TRACE"
  | debug => "DEBUG"
  | info => "INFO"
  | warn => "WARN"

/-- What there is to report. -/
inductive Notice
  | unresolvableProgram (signature : String) (ordinal : Nat) (error : Error)
  | malformedEmission (signature : String) (ordinal : Nat) (error : Error)
  | noEvent (ordinal : Nat) (instruction : Kind)
  | foreignLeaf (signature : String) (ordinal position nestedUnder : Nat) (leafId : Address)
  | unidentifiedMint (signature : String) (ordinal : Nat)
  | leafIdDisagrees (signature : String) (ordinal : Nat) (emitted derived : Address)
  | skippedInstruction (signature : String) (ordinal : Nat) (instruction : Kind) (error : Error)
  | scanComplete (events : Nat)
  | notStored (signature : String) (ordinal : Nat)
  | applied (assetId : Address) (kind : EventKind) (slot : UInt64) (decision : Decision)
  | notFoundYet (signature : String) (attempt : Nat)
  | fetchFailed (signature : String) (attempt : Nat) (error : Error)
  | gaveUp (signature : String) (attempts : Nat)
  | historyPage (tree : Address) (rows : Nat) (before : String)
  | backfilling (tree : Address) (count : Nat)
  | skippedTransaction (tree : Address) (signature : String) (slot : UInt64) (error : Error)
  | rejectedEvent (signature : String) (ordinal : Nat) (kind : EventKind) (error : Error)
  | metadataUnavailable (uri signature : String)
  | receiverDropped
  | watching (tree : Address)
  deriving DecidableEq

namespace Notice

/-- The level of a notice. -/
def level : Notice → Level
  | unresolvableProgram .. | malformedEmission .. | foreignLeaf .. | leafIdDisagrees ..
  | skippedInstruction .. | fetchFailed .. | gaveUp .. | skippedTransaction .. | rejectedEvent .. =>
    .warn
  | historyPage .. | backfilling .. | watching .. => .info
  | unidentifiedMint .. | scanComplete .. | notStored .. | applied .. | notFoundYet ..
  | metadataUnavailable .. | receiverDropped => .debug
  | noEvent .. => .trace

def message : Notice → String
  | unresolvableProgram .. => "skipping instruction with unresolvable program id"
  | malformedEmission .. => "skipping malformed leaf schema emission"
  | noEvent .. => "no event for instruction"
  | foreignLeaf .. => "leaf schema belongs to another instruction, mint left unidentified"
  | unidentifiedMint .. => "mint has no leaf schema emission, asset id unknown"
  | leafIdDisagrees .. => "leaf schema id disagrees with derived asset id, using derived"
  | skippedInstruction .. => "skipping instruction"
  | scanComplete .. => "scan complete"
  | notStored .. => "event has no asset id, not stored"
  | applied .. => "applied event"
  | notFoundYet .. => "transaction not found yet"
  | fetchFailed .. => "transaction fetch failed"
  | gaveUp .. => "giving up on transaction"
  | historyPage .. => "backfill page"
  | backfilling .. => "backfilling"
  | skippedTransaction .. => "skipping unavailable transaction"
  | rejectedEvent .. => "store rejected event"
  | metadataUnavailable .. => "metadata unavailable"
  | receiverDropped => "watch receiver dropped"
  | watching .. => "watching tree"

/-- The fields of a notice, its wording apart. -/
def fields : Notice → List (String × String)
  | unresolvableProgram signature ordinal error | malformedEmission signature ordinal error =>
    [("signature", signature), ("ordinal", toString ordinal), ("error", error.message)]
  | noEvent ordinal instruction =>
    [("ordinal", toString ordinal), ("instruction", instruction.name)]
  | foreignLeaf signature ordinal position nestedUnder leafId =>
    [("signature", signature), ("ordinal", toString ordinal), ("position", toString position),
      ("nested_under", toString nestedUnder), ("leaf_id", leafId.text)]
  | unidentifiedMint signature ordinal | notStored signature ordinal =>
    [("signature", signature), ("ordinal", toString ordinal)]
  | leafIdDisagrees signature ordinal emitted derived =>
    [("signature", signature), ("ordinal", toString ordinal), ("emitted", emitted.text),
      ("derived", derived.text)]
  | skippedInstruction signature ordinal instruction error =>
    [("signature", signature), ("ordinal", toString ordinal), ("instruction", instruction.name),
      ("error", error.message)]
  | scanComplete events => [("events", toString events)]
  | applied assetId kind slot decision =>
    [("asset_id", assetId.text), ("kind", kind.name), ("slot", toString slot.toNat),
      ("decision", decision.name)]
  | notFoundYet signature attempt => [("signature", signature), ("attempt", toString attempt)]
  | fetchFailed signature attempt error =>
    [("signature", signature), ("attempt", toString attempt), ("error", error.message)]
  | gaveUp signature attempts => [("signature", signature), ("attempts", toString attempts)]
  | historyPage tree rows before =>
    [("tree", tree.text), ("page", toString rows),
      ("before", Description.option (some (Quoted.text before)))]
  | backfilling tree count => [("tree", tree.text), ("count", toString count)]
  | skippedTransaction tree signature slot error =>
    [("tree", tree.text), ("signature", signature), ("slot", toString slot.toNat),
      ("error", error.message)]
  | rejectedEvent signature ordinal kind error =>
    [("signature", signature), ("ordinal", toString ordinal), ("kind", kind.name),
      ("error", error.message)]
  | metadataUnavailable uri signature => [("uri", uri), ("signature", signature)]
  | receiverDropped => []
  | watching tree => [("tree", tree.text)]

end Notice

end LeafLedger
