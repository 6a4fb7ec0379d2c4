import LeafLedger.Text.Shortest

namespace LeafLedger.Json

/-- A number with a fraction or an exponent, minus zero, or an integer of more than sixty-four bits:
`significand × 10 ^ exponent`, or less than it if `negative`. -/
structure Decimal where
  negative : Bool
  significand : Nat
  exponent : Int
  deriving DecidableEq

/-- A number. -/
inductive Number
  | integer (value : Int)
  | decimal (value : Decimal)
  deriving DecidableEq

namespace Decimal

/-- Adds whole digits to a significand as long as sixty-four bits hold the result. The second number
of the answer counts the digits that were left out. -/
def addWhole (significand : Nat) : List Nat → Nat × Nat
  | [] => (significand, 0)
  | d :: ds =>
    let next := 10 * significand + d
    if next < UInt64.size then addWhole next ds else (significand, ds.length + 1)

/-- Adds digits after the point, likewise. The second number of the answer counts the digits that
were added. -/
def addFraction (significand : Nat) : List Nat → Nat × Nat
  | [] => (significand, 0)
  | d :: ds =>
    let next := 10 * significand + d
    if next < UInt64.size then
      let (significand, added) := addFraction next ds
      (significand, added + 1)
    else (significand, 0)

/-- The decimal with these digits before and after the point, times a power of ten. -/
def ofDigits (negative : Bool) (whole fraction : List Nat) (exponent : Int) : Decimal :=
  let (significand, left) := addWhole 0 whole
  let (significand, added) := addFraction significand fraction
  ⟨negative, significand, exponent + left - added⟩

/-- The greatest power of ten that is a double. -/
def greatestPower : Nat :=
  308

/-- A power of ten as a double. -/
def power (n : Nat) : Float :=
  Float.ofScientific 1 false n

/-- A double divided by a power of ten, in as many steps as the power needs. Three steps bring every
double that starts as a significand down to zero. -/
def divide (x : Float) (n : Nat) : Nat → Float
  | 0 => 0
  | steps + 1 =>
    if n ≤ greatestPower then x / power n
    else divide (x / power greatestPower) (n - greatestPower) steps

/-- The double that a decimal stands for, if it is in range. The significand and each step are
rounded on their own. -/
def toFloat? (d : Decimal) : Option Float :=
  let x := (UInt64.ofNat d.significand).toFloat
  let magnitude :=
    match d.exponent with
    | .ofNat n =>
      if n ≤ greatestPower then some (x * power n)
      else if d.significand = 0 then some x
      else none
    | .negSucc n => some (divide x (n + 1) 3)
  match magnitude with
  | some x => if x.isInf then none else some (if d.negative then -x else x)
  | none => none

/-- The digits of a shortest decimal with a point or an exponent: positional from `1e-5` to below
`1e16`, and with one digit before the point and a signed exponent otherwise. -/
def layout (d : Shortest.Digits) : String :=
  let ds := Nat.toDigits 10 d.digits
  let leading := d.exponent + ds.length - 1
  let zeros (n : Int) : List Char := List.replicate n.toNat '0'
  String.ofList <|
    if -5 ≤ leading ∧ leading < 0 then ['0', '.'] ++ zeros (-leading - 1) ++ ds
    else if 0 ≤ leading ∧ leading < 16 then
      let ds := ds ++ zeros d.exponent
      let fraction := ds.drop (leading.toNat + 1)
      ds.take (leading.toNat + 1) ++ ['.'] ++ if fraction = [] then ['0'] else fraction
    else
      let sign := if leading < 0 then '-' else '+'
      let fraction := if ds.length = 1 then [] else '.' :: ds.drop 1
      ds.take 1 ++ fraction ++ ['e', sign] ++ Nat.toDigits 10 leading.natAbs

/-- A decimal as text: the shortest that stands for the same double. -/
def text (d : Decimal) : String :=
  let x := d.toFloat?.getD 0
  let sign := if d.negative then "-" else ""
  if x == 0 then sign ++ "0.0"
  else sign ++ layout (Shortest.Binary.ofFloat x).shortest

end Decimal

/-- A number as text. -/
def Number.text : Number → String
  | .integer value => toString value
  | .decimal value => value.text

end LeafLedger.Json
