import LeafLedger.Retry
import Mathlib.Tactic.Ring

namespace LeafLedger

namespace Duration

/-- The whole seconds of a span, and what it has beyond them. -/
structure Words where
  seconds : UInt64
  nanos : UInt32
  deriving DecidableEq

def words (d : Duration) : Words :=
  ⟨UInt64.ofNat d.seconds, UInt32.ofNat d.subsecondNanos⟩

namespace Words

/-- The nanoseconds that the words come to. -/
def toNat (w : Words) : Nat :=
  w.seconds.toNat * nanosPerSecond + w.nanos.toNat

/-- A number in sixty-four bits, if it has room there. -/
def word? (n : Nat) : Option UInt64 :=
  if n < UInt64.size then some (UInt64.ofNat n) else none

/-- The nanoseconds beyond the seconds, multiplied in sixty-four bits without a check. -/
def product (w : Words) (n : UInt32) : UInt64 :=
  w.nanos.toUInt64 * n.toUInt64

/-- So many times a span: the seconds are multiplied, those that the nanoseconds make are added, and
either may have no room. -/
def times? (w : Words) (n : UInt32) : Option Words := do
  let seconds ← word? (w.seconds.toNat * n.toNat)
  let all ← word? (seconds.toNat + (w.product n / UInt64.ofNat nanosPerSecond).toNat)
  return ⟨all, (w.product n % UInt64.ofNat nanosPerSecond).toUInt32⟩

/-- The shorter of two spans: by their seconds, and by their nanoseconds if these are equal. -/
def min (a b : Words) : Words :=
  if a.seconds < b.seconds ∨ a.seconds = b.seconds ∧ a.nanos ≤ b.nanos then a else b

/-- Two factors of thirty-two bits never fill more than sixty-four. -/
theorem toNat_product (w : Words) (n : UInt32) :
    (w.product n).toNat = w.nanos.toNat * n.toNat := by
  have room : w.nanos.toNat * n.toNat < 2 ^ 32 * 2 ^ 32 :=
    Nat.mul_lt_mul'' w.nanos.toNat_lt n.toNat_lt
  rw [product, UInt64.toNat_mul, UInt32.toNat_toUInt64, UInt32.toNat_toUInt64]
  exact Nat.mod_eq_of_lt room

theorem word?_of_lt {n : Nat} (room : n < UInt64.size) : word? n = some (UInt64.ofNat n) :=
  if_pos room

theorem word?_of_le {n : Nat} (long : UInt64.size ≤ n) : word? n = none :=
  if_neg (Nat.not_lt_of_le long)

end Words

variable {d : Duration}

theorem subsecondNanos_lt (d : Duration) : d.subsecondNanos < nanosPerSecond :=
  Nat.mod_lt _ (by decide)

theorem nanos_eq (d : Duration) : d.nanos = d.seconds * nanosPerSecond + d.subsecondNanos :=
  (Nat.div_add_mod' d.nanos nanosPerSecond).symm

theorem toNat_seconds (d : Duration) : d.words.seconds.toNat = d.seconds :=
  UInt64.toNat_ofNat_of_lt' (Nat.div_lt_of_lt_mul (Nat.mul_comm _ _ ▸ d.nanos_lt))

theorem toNat_nanos (d : Duration) : d.words.nanos.toNat = d.subsecondNanos := by
  have room : nanosPerSecond < UInt32.size := by decide
  exact UInt32.toNat_ofNat_of_lt' (d.subsecondNanos_lt.trans room)

theorem toNat_words (d : Duration) : d.words.toNat = d.nanos := by
  rw [Words.toNat, toNat_seconds, toNat_nanos, ← nanos_eq]

theorem words_of_parts {seconds beyond : Nat} (few : beyond < nanosPerSecond)
    (parts : d.nanos = seconds * nanosPerSecond + beyond) :
    d.words = ⟨UInt64.ofNat seconds, UInt32.ofNat beyond⟩ := by
  have whole : d.seconds = seconds := by
    rw [Duration.seconds, parts]
    exact Nat.div_eq_of_lt_le (by omega) (by rw [Nat.succ_mul]; omega)
  have part : d.subsecondNanos = beyond := by
    rw [subsecondNanos, parts, Nat.mul_add_mod_of_lt few]
  rw [words, whole, part]

/-- What the nanoseconds make is carried to the seconds. -/
theorem nanos_mul (d : Duration) (n : Nat) :
    d.nanos * n =
      (d.seconds * n + d.subsecondNanos * n / nanosPerSecond) * nanosPerSecond +
        d.subsecondNanos * n % nanosPerSecond := by
  have carried := Nat.div_add_mod' (d.subsecondNanos * n) nanosPerSecond
  calc d.nanos * n = d.seconds * n * nanosPerSecond + d.subsecondNanos * n := by
        rw [nanos_eq d]
        ring
    _ = _ := by
        rw [Nat.add_mul, Nat.add_assoc, carried]

theorem nanos_mul_lt_iff (d : Duration) (n : Nat) :
    d.nanos * n < durationBound ↔
      d.seconds * n + d.subsecondNanos * n / nanosPerSecond < UInt64.size := by
  have few : d.subsecondNanos * n % nanosPerSecond < nanosPerSecond := Nat.mod_lt _ (by decide)
  rw [nanos_mul]
  generalize d.seconds * n + d.subsecondNanos * n / nanosPerSecond = seconds
  generalize d.subsecondNanos * n % nanosPerSecond = beyond at few ⊢
  simp only [durationBound, nanosPerSecond] at few ⊢
  omega

theorem toNat_carry (d : Duration) (n : UInt32) :
    (d.words.product n / UInt64.ofNat nanosPerSecond).toNat =
      d.subsecondNanos * n.toNat / nanosPerSecond := by
  rw [UInt64.toNat_div, Words.toNat_product, toNat_nanos]
  rfl

theorem toUInt32_beyond (d : Duration) (n : UInt32) :
    (d.words.product n % UInt64.ofNat nanosPerSecond).toUInt32 =
      UInt32.ofNat (d.subsecondNanos * n.toNat % nanosPerSecond) := by
  have value : (d.words.product n % UInt64.ofNat nanosPerSecond).toNat =
      d.subsecondNanos * n.toNat % nanosPerSecond := by
    rw [UInt64.toNat_mod, Words.toNat_product, toNat_nanos]
    rfl
  rw [← value]
  rfl

theorem times?_words (d : Duration) (n : UInt32) :
    d.words.times? n = (d.times? n.toNat).map words := by
  rw [Words.times?, toNat_seconds, toNat_carry, toUInt32_beyond, times?, ofNanos?]
  by_cases fits : d.nanos * n.toNat < durationBound
  · have room := (nanos_mul_lt_iff d n.toNat).mp fits
    have start : d.seconds * n.toNat < UInt64.size := (Nat.le_add_right ..).trans_lt room
    have few : d.subsecondNanos * n.toNat % nanosPerSecond < nanosPerSecond :=
      Nat.mod_lt _ (by decide)
    rw [Words.word?_of_lt start, Option.bind_eq_bind, Option.bind_some,
      UInt64.toNat_ofNat_of_lt' start, Words.word?_of_lt room, dif_pos fits, Option.map_some,
      words_of_parts few (nanos_mul d n.toNat)]
    rfl
  · have long := Nat.le_of_not_lt fun room => fits ((nanos_mul_lt_iff d n.toNat).mpr room)
    rw [dif_neg fits, Option.map_none]
    -- The seconds alone have no room, or there is none left for those that are carried.
    rcases Nat.lt_or_ge (d.seconds * n.toNat) UInt64.size with start | tooMany
    · rw [Words.word?_of_lt start, Option.bind_eq_bind, Option.bind_some,
        UInt64.toNat_ofNat_of_lt' start, Words.word?_of_le long]
      rfl
    · rw [Words.word?_of_le tooMany]
      rfl

theorem min_words (a b : Duration) : a.words.min b.words = (a.min b).words := by
  have order : (a.words.seconds < b.words.seconds ∨
      a.words.seconds = b.words.seconds ∧ a.words.nanos ≤ b.words.nanos) ↔
      a.nanos ≤ b.nanos := by
    rw [UInt64.lt_iff_toNat_lt, ← UInt64.toNat_inj, UInt32.le_iff_toNat_le]
    simp only [toNat_seconds, toNat_nanos, seconds, subsecondNanos, nanosPerSecond]
    omega
  unfold Words.min min
  simp only [order]
  split <;> rfl

end Duration

end LeafLedger
