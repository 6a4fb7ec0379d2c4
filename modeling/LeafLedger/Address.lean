import LeafLedger.Text.Base58

namespace LeafLedger

/-- The address of an account or a program. -/
abbrev Address := Bytes32

/-- A hash of thirty-two bytes. -/
abbrev Hash := Bytes32

/-- The base58 text of thirty-two bytes. -/
def Bytes32.text (k : Bytes32) : String :=
  Base58.encode k.toBytes

namespace Address

/-- Why a text names no address. -/
inductive Fault
  | wrongSize
  | notBase58
  deriving DecidableEq

def Fault.message : Fault → String
  | .wrongSize => "String is the wrong size"
  | .notBase58 => "Invalid Base58 string"

/-- The most bytes that the text of an address takes. -/
def maxTextSize : Nat :=
  44

/-- The address that a text names. A text that is too long is refused before it is read. -/
def parse (text : String) : Except Fault Address :=
  if maxTextSize < text.utf8ByteSize then .error .wrongSize
  else
    match Base58.decode text with
    | .error _ => .error .notBase58
    | .ok bs =>
      match Bytes32.ofBytes? bs with
      | some k => .ok k
      | none => .error .wrongSize

end Address

end LeafLedger
