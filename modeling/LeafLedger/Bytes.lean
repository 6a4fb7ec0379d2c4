namespace LeafLedger

/-- Octets in the order in which they stand on the wire. -/
abbrev Bytes := List UInt8

namespace Bytes

/-- The `width` lowest base-256 digits of a number, least significant first. -/
def ofNatLE : Nat → Nat → Bytes
  | 0, _ => []
  | width + 1, v => UInt8.ofNat v :: ofNatLE width (v / 256)

/-- The number whose base-256 digits are the bytes, least significant first. -/
def toNatLE : Bytes → Nat
  | [] => 0
  | b :: bs => b.toNat + 256 * toNatLE bs

/-- The `width` lowest base-256 digits of a number, most significant first. -/
def ofNatBE (width v : Nat) : Bytes :=
  (ofNatLE width v).reverse

/-- The number whose base-256 digits are the bytes, most significant first. -/
def toNatBE (bs : Bytes) : Nat :=
  toNatLE bs.reverse

/-- The `width` bytes from `start` on, if the string holds all of them. -/
def window? (bs : Bytes) (start width : Nat) : Option Bytes :=
  if start + width ≤ bs.length then some ((bs.drop start).take width) else none

@[simp] theorem length_ofNatLE (width v : Nat) : (ofNatLE width v).length = width := by
  induction width generalizing v with
  | zero => rfl
  | succ width ih => simp [ofNatLE, ih]

end Bytes

/-- A string of exactly thirty-two bytes. -/
structure Bytes32 where
  toBytes : Bytes
  length_toBytes : toBytes.length = 32
  deriving DecidableEq

namespace Bytes32

/-- The string with these bytes, if there are thirty-two of them. -/
def ofBytes? (bs : Bytes) : Option Bytes32 :=
  if h : bs.length = 32 then some ⟨bs, h⟩ else none

/-- Thirty-two times the same byte. -/
def replicate (b : UInt8) : Bytes32 :=
  ⟨List.replicate 32 b, List.length_replicate⟩

theorem ofBytes?_eq_some_iff {bs : Bytes} {k : Bytes32} :
    ofBytes? bs = some k ↔ k.toBytes = bs := by
  obtain ⟨l, h⟩ := k
  by_cases hb : bs.length = 32
  · simp [ofBytes?, hb, eq_comm]
  · simp only [ofBytes?, hb, dite_false, reduceCtorEq, false_iff]
    rintro rfl
    exact hb h

end Bytes32

end LeafLedger
