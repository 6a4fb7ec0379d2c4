import LeafLedger.Instruction.Description
import LeafLedger.Instruction.Role
import LeafLedger.Json.Fault
import LeafLedger.Text.Numeral

namespace LeafLedger

/-- Why the arguments of an instruction cannot be read. -/
inductive ArgumentFault
  /-- The data, of this length, ends before the arguments begin. -/
  | short (length : Nat)
  | malformed (fault : Borsh.Fault)
  deriving DecidableEq

/-- Why a configuration is refused. -/
inductive ConfigFault
  | unset (key : String)
  | badNumber (key : String) (fault : Numeral.Fault)
  | blankRpcUrl
  | blankWsUrl
  | noTrees
  | badTree (text : String) (fault : Address.Fault)
  | attemptsOutOfRange (most : Nat)
  | delaysReversed
  deriving DecidableEq

/-- What went wrong. -/
inductive Error
  | indexOutOfRange (index length : Nat)
  | malformedArguments (kind : Kind) (fault : ArgumentFault)
  | malformedLeafSchema (fault : Borsh.Fault)
  | unresolvedRole (role : Role) (index : Nat)
  | missingRole (name : String)
  | badAddress (text : String) (fault : Address.Fault)
  | unprojectable (kind : EventKind) (payload : Payload)
  | config (fault : ConfigFault)
  | unavailable (signature : String) (attempts : Nat)
  | cancelled (signature : String)
  | transport (reason : String)
  | json (fault : Json.Fault)
  deriving DecidableEq

def ArgumentFault.message : ArgumentFault → String
  | .short length => toString length ++ " bytes is shorter than the discriminator"
  | .malformed fault => fault.message

def badAddressMessage (text : String) (fault : Address.Fault) : String :=
  "parse error: invalid address " ++ text ++ ": " ++ fault.message

def ConfigFault.message : ConfigFault → String
  | .unset key => key ++ " not set"
  | .badNumber key fault => "invalid " ++ key ++ ": " ++ fault.message
  | .blankRpcUrl => "rpc_url cannot be empty"
  | .blankWsUrl => "ws_url cannot be empty"
  | .noTrees => "at least one tree address is required"
  | .badTree text fault => badAddressMessage text fault
  | .attemptsOutOfRange most => "fetch max_attempts must be between 1-" ++ toString most
  | .delaysReversed => "fetch initial delay must not exceed max delay"

def Error.message : Error → String
  | .indexOutOfRange index length =>
    "account index " ++ toString index ++ " out of range for table of " ++ toString length ++
      " keys"
  | .malformedArguments kind fault => "malformed " ++ kind.name ++ " payload: " ++ fault.message
  | .malformedLeafSchema fault => "malformed leaf_schema_event payload: " ++ fault.message
  | .unresolvedRole role index =>
    "role " ++ role.name ++ " could not be resolved from account index " ++ toString index
  | .missingRole name => "instruction did not supply required role " ++ name
  | .badAddress text fault => badAddressMessage text fault
  | .unprojectable kind payload =>
    "parse error: " ++ kind.name ++ " event cannot be projected from " ++ payload.description
  | .config fault => "config error: " ++ fault.message
  | .unavailable signature attempts =>
    "transaction " ++ signature ++ " unavailable after " ++ toString attempts ++ " attempts"
  | .cancelled signature => "fetch of transaction " ++ signature ++ " cancelled"
  | .transport reason => "transport error: " ++ reason
  | .json fault => "json error: " ++ fault.message

end LeafLedger
