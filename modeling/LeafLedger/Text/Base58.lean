import LeafLedger.Bytes
import LeafLedger.Text.Quoted

namespace LeafLedger.Base58

/-- The fifty-eight digits in order. -/
def alphabet : List Char :=
  "123456789ABCDEFGHJKLMNPQRSTUVWXYZabcdefghijkmnopqrstuvwxyz".toList

/-- Why a text is not base58. -/
inductive Fault
  /-- An ASCII character outside the alphabet, at a byte offset. -/
  | foreign (c : Char) (offset : Nat)
  /-- A character above U+007F, at the offset of its first byte. -/
  | nonAscii (offset : Nat)
  deriving DecidableEq

def Fault.message : Fault → String
  | .foreign c offset =>
    "provided string contained invalid character " ++ Quoted.char c ++ " at byte " ++
      toString offset
  | .nonAscii offset =>
    "provided string contained non-ascii character starting at byte " ++ toString offset

/-- The digits of a number in a base of at least two, least significant first and without
superfluous zeros. -/
def digits (base n : Nat) : List Nat :=
  if n = 0 ∨ base < 2 then [] else n % base :: digits base (n / base)
termination_by n
decreasing_by exact Nat.div_lt_self (by omega) (by omega)

/-- The number with these digits, least significant first. -/
def ofDigits (base : Nat) (ds : List Nat) : Nat :=
  ds.foldr (fun d n => d + base * n) 0

/-- The character of a digit below fifty-eight. -/
def symbol (digit : Nat) : Char :=
  alphabet.getD digit '1'

/-- The digit that a character stands for. -/
def digit? (c : Char) : Option Nat :=
  alphabet.idxOf? c

/-- The base58 text of a byte string. -/
def encode (bs : Bytes) : String :=
  String.ofList (List.replicate (bs.takeWhile (· == 0)).length '1' ++
    ((digits 58 (Bytes.toNatBE bs)).map symbol).reverse)

/-- The digits of a text whose first character stands at byte `offset`. The first character outside
the alphabet decides the fault. -/
def digitsOf (offset : Nat) : List Char → Except Fault (List Nat)
  | [] => .ok []
  | c :: cs =>
    match digit? c with
    | some d => (digitsOf (offset + 1) cs).map (d :: ·)
    | none => .error (if c.toNat < 128 then .foreign c offset else .nonAscii offset)

/-- The byte string that a text spells. -/
def decode (text : String) : Except Fault Bytes :=
  (digitsOf 0 text.toList).map fun ds =>
    List.replicate (ds.takeWhile (· == 0)).length 0 ++
      ((digits 256 (ofDigits 58 ds.reverse)).map UInt8.ofNat).reverse

end LeafLedger.Base58
