import LeafLedger.Proofs.Text.Trim
import LeafLedger.Text.Numeral

namespace LeafLedger.Numeral

/-- A text that writes a number in decimal digits: perhaps with a plus sign and zeros in front of
them, and with blanks around. -/
def Writes (text : List Char) (n : Nat) : Prop :=
  ∃ lead sign zeros tail,
    text = lead ++ (sign ++ (List.replicate zeros '0' ++ Nat.toDigits 10 n)) ++ tail ∧
    (∀ c ∈ lead, Text.isBlank c) ∧ (∀ c ∈ tail, Text.isBlank c) ∧ (sign = [] ∨ sign = ['+'])

variable {bound n value : Nat} {cs text : List Char}

theorem le_ofDigitChars (value : Nat) (cs : List Char) : value ≤ Nat.ofDigitChars 10 cs value := by
  induction cs generalizing value with
  | nil => exact le_rfl
  | cons c cs ih =>
    rw [Nat.ofDigitChars_cons]
    have := ih (10 * value + (c.toNat - '0'.toNat))
    omega

/-- Digits are read as the number that they make up, as all numbers on the way are smaller. -/
theorem readDigits_of_digits (digits : ∀ c ∈ cs, c.isDigit)
    (below : Nat.ofDigitChars 10 cs value < bound) :
    readDigits bound value cs = .ok (Nat.ofDigitChars 10 cs value) := by
  induction cs generalizing value with
  | nil => rfl
  | cons c cs ih =>
    obtain ⟨digit, digits⟩ := List.forall_mem_cons.mp digits
    rw [Nat.ofDigitChars_cons] at below ⊢
    have next := (le_ofDigitChars (10 * value + (c.toNat - '0'.toNat)) cs).trans_lt below
    rw [readDigits, if_pos digit]
    exact (if_pos next).trans (ih digits below)

theorem ofDigitChars_leading (zeros n : Nat) :
    Nat.ofDigitChars 10 (List.replicate zeros '0' ++ Nat.toDigits 10 n) 0 = n := by
  rw [Nat.ofDigitChars_append, Nat.ofDigitChars_replicate_zero, Nat.mul_zero,
    Nat.ofDigitChars_ten_toDigits]

theorem isDigit_of_mem_leading {zeros : Nat} {c : Char}
    (mem : c ∈ List.replicate zeros '0' ++ Nat.toDigits 10 n) : c.isDigit := by
  rcases List.mem_append.mp mem with zero | digit
  · rw [List.eq_of_mem_replicate zero]
    rfl
  · exact Nat.isDigit_of_mem_toDigits (by decide) (by decide) digit

theorem not_isBlank_of_isDigit {c : Char} (digit : c.isDigit) : ¬ Text.isBlank c := by
  have range : 48 ≤ c.toNat ∧ c.toNat ≤ 57 := by
    simpa [Char.isDigit, UInt32.le_iff_toNat_le] using digit
  simp [Text.isBlank]
  omega

theorem read_plus (some : cs ≠ []) : read bound ('+' :: cs) = readDigits bound 0 cs := by
  cases cs with
  | nil => exact absurd rfl some
  | cons c cs => rfl

theorem read_of_digits (some : cs ≠ []) (digits : ∀ c ∈ cs, c.isDigit) :
    read bound cs = readDigits bound 0 cs := by
  unfold read
  split
  next => exact absurd rfl some
  next => exact absurd (digits '+' (by simp)) (by decide)
  next => exact absurd (digits '+' (by simp)) (by decide)
  next => rfl

/-- Every way to write a number below the bound is read as the number. -/
theorem read_of_writes (writes : Writes text n) (below : n < bound) :
    read bound (Text.trim text) = .ok n := by
  obtain ⟨lead, sign, zeros, tail, rfl, front, back, plus⟩ := writes
  have digits : ∀ c ∈ List.replicate zeros '0' ++ Nat.toDigits 10 n, c.isDigit :=
    fun _ => isDigit_of_mem_leading
  have some : List.replicate zeros '0' ++ Nat.toDigits 10 n ≠ [] :=
    List.append_ne_nil_of_right_ne_nil _ Nat.toDigits_ne_nil
  have value := ofDigitChars_leading zeros n
  generalize List.replicate zeros '0' ++ Nat.toDigits 10 n = cs at digits some value ⊢
  have unblank : ∀ c ∈ sign ++ cs, ¬ Text.isBlank c := by
    intro c mem
    rcases List.mem_append.mp mem with signed | digit
    · rcases plus with rfl | rfl
      · cases signed
      · rw [List.mem_singleton.mp signed]
        decide
    · exact not_isBlank_of_isDigit (digits c digit)
  rw [Text.trim_append front back (fun c first => unblank c (List.mem_of_mem_head? first))
    fun c last => unblank c (List.mem_of_getLast? last)]
  have all : readDigits bound 0 cs = .ok _ := readDigits_of_digits digits (value.trans_lt below)
  rw [value] at all
  rcases plus with rfl | rfl
  · exact (read_of_digits some digits).trans all
  · exact (read_plus some).trans all

end LeafLedger.Numeral
