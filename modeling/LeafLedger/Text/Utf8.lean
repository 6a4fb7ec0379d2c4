import LeafLedger.Bytes

namespace LeafLedger.Utf8

/-- The first fault of a byte string that is not UTF-8. -/
inductive Fault
  /-- The `width` bytes from `start` on begin no sequence, whatever follows. -/
  | invalid (width start : Nat)
  /-- The string ends inside the sequence that begins at `start`. -/
  | incomplete (start : Nat)
  deriving DecidableEq

def Fault.message : Fault → String
  | .invalid width start =>
    "invalid utf-8 sequence of " ++ toString width ++ " bytes from index " ++ toString start
  | .incomplete start => "incomplete utf-8 byte sequence from index " ++ toString start

/-- The range of an unrestricted continuation byte. -/
def continuation : UInt8 × UInt8 :=
  (0x80, 0xbf)

/-- The ranges of the bytes that have to follow a lead byte of two or more. The second byte excludes
overlong forms, surrogates and everything above U+10FFFF. -/
def tailOf (lead : UInt8) : Option (List (UInt8 × UInt8)) :=
  if 0xc2 ≤ lead ∧ lead ≤ 0xdf then some [continuation]
  else if lead = 0xe0 then some [(0xa0, 0xbf), continuation]
  else if lead = 0xed then some [(0x80, 0x9f), continuation]
  else if 0xe1 ≤ lead ∧ lead ≤ 0xef then some [continuation, continuation]
  else if lead = 0xf0 then some [(0x90, 0xbf), continuation, continuation]
  else if 0xf1 ≤ lead ∧ lead ≤ 0xf3 then some [continuation, continuation, continuation]
  else if lead = 0xf4 then some [(0x80, 0x8f), continuation, continuation]
  else none

/-- Reads on at byte `here`, inside a sequence that began at `start` and still needs bytes in the
given ranges, or between sequences if it needs none. -/
def scan (start here : Nat) : List (UInt8 × UInt8) → Bytes → Option Fault
  | [], [] => none
  | _ :: _, [] => some (.incomplete start)
  | [], b :: bs =>
    if b < 0x80 then scan start (here + 1) [] bs
    else
      match tailOf b with
      | none => some (.invalid 1 here)
      | some ranges => scan here (here + 1) ranges bs
  | (low, high) :: ranges, b :: bs =>
    if low ≤ b ∧ b ≤ high then scan start (here + 1) ranges bs
    else some (.invalid (here - start) start)

/-- The first fault of a byte string, if it has one. -/
def fault? (bs : Bytes) : Option Fault :=
  scan 0 0 [] bs

/-- The UTF-8 bytes of a text. -/
def encode (s : String) : Bytes :=
  s.toUTF8.data.toList

/-- The text that a byte string spells in UTF-8, or its first fault. -/
def decode (bs : Bytes) : Except Fault String :=
  match String.fromUTF8? bs.toByteArray with
  | some s => .ok s
  | none => .error ((fault? bs).getD (.incomplete 0))

end LeafLedger.Utf8
