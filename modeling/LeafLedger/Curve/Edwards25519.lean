import LeafLedger.Bytes

namespace LeafLedger.Edwards25519

/-- The least number that takes more than 255 bits. -/
def coordinateBound : Nat :=
  1 <<< 255

/-- The order of the field, `2²⁵⁵ - 19`. -/
def prime : Nat :=
  coordinateBound - 19

/-- The constant `d = -121665 / 121666` of the curve `-x² + y² = 1 + d x² y²`. -/
def d : Nat :=
  37095705934669439343138083508754565189542113879843219016388785533085940283555

/-- Powers in the field, by repeated squaring. -/
def pow (x e : Nat) : Nat :=
  if e = 0 then 1
  else
    let half := pow (x * x % prime) (e / 2)
    if e % 2 = 1 then x * half % prime else half
termination_by e
decreasing_by omega

/-- Euler's criterion, zero counted as a square. -/
def isSquare (x : Nat) : Bool :=
  let r := pow (x % prime) ((prime - 1) / 2)
  r == 0 || r == 1

/-- A string is a compressed point when its low 255 bits, taken little-endian and reduced, are the
second coordinate of a point: `x² = (y² - 1) / (d y² + 1)` has a solution exactly when numerator
times denominator is a square, and the denominator is never zero. -/
def isPoint (k : Bytes32) : Bool :=
  let y := Bytes.toNatLE k.toBytes % coordinateBound % prime
  let y2 := y * y % prime
  isSquare ((y2 + prime - 1) * (d * y2 + 1))

end LeafLedger.Edwards25519
