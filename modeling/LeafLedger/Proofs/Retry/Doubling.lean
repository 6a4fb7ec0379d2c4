import LeafLedger.Proofs.Retry
import LeafLedger.Proofs.Retry.Words
import Mathlib.Order.Monotone.Basic

namespace LeafLedger

namespace RetryPolicy

/-- How many times the initial delay is waited after an attempt, if nothing is cut off. -/
def growth (attempt : Nat) : Nat :=
  if attempt ≤ 32 then 2 ^ (max attempt 1 - 1) else 2 ^ 32 - 1

variable {attempt later : Nat}

theorem growth_of_le (few : attempt ≤ 32) : growth attempt = 2 ^ (max attempt 1 - 1) :=
  if_pos few

theorem growth_of_lt (many : 32 < attempt) : growth attempt = 2 ^ 32 - 1 :=
  if_neg (Nat.not_le_of_lt many)

theorem factor_eq_growth (attempt : Nat) : factor attempt = growth attempt := by
  rcases Nat.lt_or_ge 32 attempt with many | few
  · rw [growth_of_lt many, factor, if_neg (by omega)]
    rfl
  · have places : attempt - 1 = max attempt 1 - 1 := by omega
    rw [growth_of_le few, factor, if_pos (by omega), Nat.one_shiftLeft, places]

theorem growth_succ (some : 1 ≤ attempt) (few : attempt < 32) :
    growth (attempt + 1) = 2 * growth attempt := by
  have places : max (attempt + 1) 1 - 1 = max attempt 1 - 1 + 1 := by omega
  rw [growth_of_le few, growth_of_le few.le, places, Nat.pow_succ']

theorem growth_mono : Monotone growth := by
  intro attempt later before
  rcases Nat.lt_or_ge 32 later with many | few
  · rcases Nat.lt_or_ge 32 attempt with tooMany | start
    · rw [growth_of_lt many, growth_of_lt tooMany]
    · have bound : 2 ^ (max attempt 1 - 1) ≤ 2 ^ 31 :=
        Nat.pow_le_pow_right Nat.two_pos (by omega)
      rw [growth_of_lt many, growth_of_le start]
      exact bound.trans (by decide)
  · rw [growth_of_le (before.trans few), growth_of_le few]
    exact Nat.pow_le_pow_right Nat.two_pos (by omega)

/-- By how many places an attempt shifts: by none after the first one, nor after attempt zero. -/
def places (attempt : UInt32) : UInt32 :=
  if attempt = 0 then 0 else attempt - 1

/-- The factor from a one in thirty-two bits, or the greatest word where the shift would lose it. -/
def factorInWords (attempt : UInt32) : UInt32 :=
  if places attempt < 32 then 1 <<< places attempt else UInt32.ofNat (UInt32.size - 1)

/-- The delay as it is calculated in words. -/
def delayInWords (policy : RetryPolicy) (attempt : UInt32) : Duration.Words :=
  match policy.initialDelay.words.times? (factorInWords attempt) with
  | some delay => delay.min policy.maxDelay.words
  | none => policy.maxDelay.words

theorem toNat_places (attempt : UInt32) : (places attempt).toNat = attempt.toNat - 1 := by
  unfold places
  split
  next zero =>
    subst zero
    rfl
  next other =>
    have positive : attempt.toNat ≠ 0 := fun zero => other (UInt32.toNat_inj.mp zero)
    have one : 1 ≤ attempt := UInt32.le_iff_toNat_le.mpr (Nat.one_le_iff_ne_zero.mpr positive)
    exact UInt32.toNat_sub_of_le _ _ one

theorem toNat_one_shiftLeft {count : UInt32} (few : count.toNat < 32) :
    ((1 : UInt32) <<< count).toNat = 1 <<< count.toNat := by
  have room : 1 <<< count.toNat < 2 ^ 32 := by
    rw [Nat.one_shiftLeft]
    exact Nat.pow_lt_pow_right (by decide) few
  rw [UInt32.toNat_shiftLeft, Nat.mod_eq_of_lt few]
  exact Nat.mod_eq_of_lt room

theorem toNat_factorInWords (attempt : UInt32) :
    (factorInWords attempt).toNat = factor attempt.toNat := by
  have small : places attempt < 32 ↔ attempt.toNat - 1 < 32 := by
    rw [UInt32.lt_iff_toNat_lt, toNat_places]
    rfl
  unfold factorInWords factor
  simp only [small]
  split
  next few => rw [toNat_one_shiftLeft (toNat_places attempt ▸ few), toNat_places]
  next => rfl

theorem delayInWords_eq (policy : RetryPolicy) (attempt : UInt32) :
    policy.delayInWords attempt = (policy.delayAfter attempt.toNat).words := by
  unfold delayInWords delayAfter
  rw [Duration.times?_words, toNat_factorInWords]
  cases policy.initialDelay.times? (factor attempt.toNat) with
  | none => rfl
  | some delay => exact Duration.min_words delay policy.maxDelay

/-- How the delays of a policy grow, in exact numbers and in the words that hold them. -/
structure Doubling (policy : RetryPolicy) : Prop where
  exact : ∀ attempt, (policy.delayAfter attempt).nanos =
    min (policy.initialDelay.nanos * growth attempt) policy.maxDelay.nanos
  capped : ∀ attempt, (policy.delayAfter attempt).nanos ≤ policy.maxDelay.nanos
  monotone : Monotone fun attempt => (policy.delayAfter attempt).nanos
  doubled : ∀ attempt, 1 ≤ attempt → attempt < 32 → (policy.delayAfter (attempt + 1)).nanos =
    min (2 * (policy.delayAfter attempt).nanos) policy.maxDelay.nanos
  /-- Where the product is too long for a span, it is longer than the longest delay, too. -/
  overflowing : ∀ attempt, policy.initialDelay.times? (factor attempt) = none →
    policy.delayAfter attempt = policy.maxDelay ∧
      policy.maxDelay.nanos < policy.initialDelay.nanos * growth attempt
  inWords : ∀ attempt : UInt32,
    policy.delayInWords attempt = (policy.delayAfter attempt.toNat).words ∧
      (policy.delayInWords attempt).toNat = (policy.delayAfter attempt.toNat).nanos

theorem nanos_delayAfter_growth (policy : RetryPolicy) (attempt : Nat) :
    (policy.delayAfter attempt).nanos =
      min (policy.initialDelay.nanos * growth attempt) policy.maxDelay.nanos := by
  rw [nanos_delayAfter, factor_eq_growth]

/-- Delays double up to the thirty-second attempt, never shrink, and are cut off at the longest. A
product without room in the words would have been cut off, too. -/
theorem delays_double (policy : RetryPolicy) : policy.Doubling where
  exact := nanos_delayAfter_growth policy
  capped := delayAfter_le policy
  monotone := by
    intro attempt later before
    simp only [nanos_delayAfter_growth]
    exact min_le_min_right _ (Nat.mul_le_mul_left _ (growth_mono before))
  doubled attempt some few := by
    have twice : policy.initialDelay.nanos * (2 * growth attempt) =
        2 * (policy.initialDelay.nanos * growth attempt) := Nat.mul_left_comm ..
    rw [nanos_delayAfter_growth, nanos_delayAfter_growth, growth_succ some few, twice]
    omega
  overflowing attempt fails := by
    refine ⟨?_, ?_⟩
    · rw [delayAfter, fails]
    · rw [← factor_eq_growth]
      have long : durationBound ≤ policy.initialDelay.nanos * factor attempt := by
        by_contra fits
        rw [Duration.times?, Duration.ofNanos?, dif_pos (Nat.lt_of_not_le fits)] at fails
        cases fails
      exact policy.maxDelay.nanos_lt.trans_le long
  inWords attempt := by
    refine ⟨delayInWords_eq policy attempt, ?_⟩
    rw [delayInWords_eq, Duration.toNat_words]

end RetryPolicy

end LeafLedger
