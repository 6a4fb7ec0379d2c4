import LeafLedger.Address
import LeafLedger.Text.Utf8

namespace LeafLedger

namespace Borsh

/-- Why an input does not begin with a value of a type. -/
inductive Fault
  /-- The input ends inside the value. -/
  | truncated
  | badBool (byte : UInt8)
  | badOption (byte : UInt8)
  | badTag (byte : UInt8)
  | badText (fault : Utf8.Fault)
  deriving DecidableEq

def Fault.message : Fault → String
  | .truncated => "Unexpected length of input"
  | .badBool byte => "Invalid bool representation: " ++ toString byte.toNat
  | .badOption byte =>
    "Invalid Option representation: " ++ toString byte.toNat ++ ". The first byte must be 0 or 1"
  | .badTag byte => "Unexpected variant tag: " ++ toString byte.toNat
  | .badText fault => fault.message

/-- A reader takes a value from the front of its input. -/
abbrev Reader := StateT Bytes (Except Fault)

def fail {α : Type} (fault : Fault) : Reader α :=
  fun _ => .error fault

def take (n : Nat) : Reader Bytes := fun input =>
  if n ≤ input.length then .ok (input.take n, input.drop n) else .error .truncated

end Borsh

/-- A type whose values have a written form. -/
class Borsh (α : Type) where
  /-- The written form of a value. -/
  encode : α → Bytes
  /-- Takes a value from the front of the input. -/
  decode : Borsh.Reader α

namespace Borsh

instance : Borsh UInt8 where
  encode v := [v]
  decode
    | [] => .error .truncated
    | b :: rest => .ok (b, rest)

instance : Borsh UInt16 where
  encode v := Bytes.ofNatLE 2 v.toNat
  decode := return UInt16.ofNat (Bytes.toNatLE (← take 2))

instance : Borsh UInt32 where
  encode v := Bytes.ofNatLE 4 v.toNat
  decode := return UInt32.ofNat (Bytes.toNatLE (← take 4))

instance : Borsh UInt64 where
  encode v := Bytes.ofNatLE 8 v.toNat
  decode := return UInt64.ofNat (Bytes.toNatLE (← take 8))

instance : Borsh Bytes32 where
  encode k := k.toBytes
  decode input :=
    if h : 32 ≤ input.length then
      .ok (⟨input.take 32, by simp [h]⟩, input.drop 32)
    else .error .truncated

instance : Borsh Bool where
  encode b := [if b then 1 else 0]
  decode := do
    let byte : UInt8 ← decode
    if byte = 0 then return false
    else if byte = 1 then return true
    else fail (.badBool byte)

instance {α : Type} [Borsh α] : Borsh (Option α) where
  encode
    | none => [0]
    | some a => 1 :: encode a
  decode := do
    let byte : UInt8 ← decode
    if byte = 0 then return none
    else if byte = 1 then return some (← decode)
    else fail (.badOption byte)

/-- The count in front of a list or a text. -/
def encodeCount (n : Nat) : Bytes :=
  encode (UInt32.ofNat n)

/-- Texts are counted in bytes of UTF-8. The bytes are taken before they are checked. -/
instance : Borsh String where
  encode s := encodeCount (Utf8.encode s).length ++ Utf8.encode s
  decode := do
    let size : UInt32 ← decode
    let bytes ← take size.toNat
    match Utf8.decode bytes with
    | .ok s => return s
    | .error fault => fail (.badText fault)

def decodeMany {α : Type} [Borsh α] : Nat → Reader (List α)
  | 0 => return []
  | n + 1 => do
    let a ← decode
    let as ← decodeMany n
    return a :: as

instance {α : Type} [Borsh α] : Borsh (List α) where
  encode as := encodeCount as.length ++ as.flatMap encode
  decode := do
    let size : UInt32 ← decode
    decodeMany size.toNat

/-- The form of a type with a few named values: the position of the value in their list. -/
@[reducible]
def ofVariants {α : Type} [BEq α] (variants : List α) : Borsh α where
  encode a := [UInt8.ofNat (variants.idxOf a)]
  decode := do
    let tag : UInt8 ← decode
    match variants[tag.toNat]? with
    | some a => return a
    | none => fail (.badTag tag)

end Borsh

end LeafLedger
