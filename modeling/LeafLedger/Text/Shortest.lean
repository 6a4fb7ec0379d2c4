namespace LeafLedger.Shortest

/-- A positive number `significand × 2 ^ exponent` with the distance to its neighbours: they are one
unit of the significand away, the lower one half a unit if `narrow`. -/
structure Binary where
  significand : Nat
  exponent : Int
  narrow : Bool

/-- The magnitude of a finite double, by its bits. -/
def Binary.ofFloat (x : Float) : Binary :=
  let bits := x.toBits.toNat
  let fraction := bits % (1 <<< 52)
  let scale := bits >>> 52 % 2048
  if scale = 0 then ⟨fraction, -1074, false⟩
  else ⟨(1 <<< 52) + fraction, (scale : Int) - 1075, fraction == 0 && 1 < scale⟩

/-- A number `digits × 10 ^ exponent`. -/
structure Digits where
  digits : Nat
  exponent : Int
  deriving DecidableEq

/-- How `a × 10 ^ i` compares with `b × 2 ^ j`. -/
def compareScaled (a : Nat) (i : Int) (b : Nat) (j : Int) : Ordering :=
  compare ((a * Nat.pow 10 i.toNat) <<< (-j).toNat) ((b <<< j.toNat) * Nat.pow 10 (-i).toNat)

/-- Whether a decimal rounds to the double. The ends of its interval do so if the significand is
even. -/
def Binary.readsBack (x : Binary) (d : Digits) : Bool :=
  let low := compareScaled d.digits d.exponent
    (4 * x.significand - if x.narrow then 1 else 2) (x.exponent - 2)
  let high := compareScaled d.digits d.exponent (4 * x.significand + 2) (x.exponent - 2)
  let closed := x.significand % 2 == 0
  (low == .gt || closed && low == .eq) && (high == .lt || closed && high == .eq)

/-- The greatest multiple of `10 ^ k` up to the double, in these units. -/
def Binary.floor (x : Binary) (k : Int) : Nat :=
  (x.significand <<< x.exponent.toNat * Nat.pow 10 (-k).toNat) /
    (Nat.pow 10 k.toNat <<< (-x.exponent).toNat)

/-- The exponent of the leading digit. A guess from the binary logarithm, at most one too small, is
mended. -/
def Binary.leading (x : Binary) : Int :=
  let guess := ((x.significand.log2 : Int) + x.exponent) * 30103 / 100000
  if x.floor (guess + 1) = 0 then guess else guess + 1

/-- The closest decimal with a last digit in place `k`, if one reads back. A tie goes to the even
digit. -/
def Binary.closest? (x : Binary) (k : Int) : Option Digits :=
  let below : Digits := ⟨x.floor k, k⟩
  let above : Digits := ⟨x.floor k + 1, k⟩
  match x.readsBack below, x.readsBack above with
  | true, false => some below
  | false, true => some above
  | false, false => none
  | true, true =>
    match compareScaled (below.digits + above.digits) k (2 * x.significand) x.exponent with
    | .gt => some below
    | .lt => some above
    | .eq => some (if below.digits % 2 = 0 then below else above)

/-- A decimal without zeros at its end, a limited number of them taken off. -/
def Digits.strip (d : Digits) : Nat → Digits
  | 0 => d
  | n + 1 => if d.digits % 10 = 0 then strip ⟨d.digits / 10, d.exponent + 1⟩ n else d

/-- The shortest decimal that reads back. Seventeen digits always suffice. -/
def Binary.shortest (x : Binary) : Digits :=
  let found := (List.range 17).findSome? fun (n : Nat) => x.closest? (x.leading - n)
  (found.getD ⟨x.floor (x.leading - 16), x.leading - 16⟩).strip 17

end LeafLedger.Shortest
