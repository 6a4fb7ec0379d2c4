import LeafLedger.Text.Base58
import Mathlib.Data.List.GetD
import Mathlib.Data.List.TakeWhile
import Mathlib.Data.Nat.Digits.Lemmas

namespace LeafLedger

theorem Bytes.toNatLE_eq_ofDigits (bs : Bytes) :
    toNatLE bs = Nat.ofDigits 256 (bs.map UInt8.toNat) := by
  induction bs with
  | nil => rfl
  | cons b bs ih => rw [toNatLE, ih, List.map_cons, Nat.ofDigits_cons]

theorem Bytes.lt_of_mem_map_toNat {bs : Bytes} {d : Nat} (mem : d ∈ bs.map UInt8.toNat) :
    d < 256 := by
  obtain ⟨b, _, rfl⟩ := List.mem_map.mp mem
  exact b.toNat_lt

namespace Base58

/-- A text and a byte string with as many zeros in front, and behind them the digits of the same
number, highest first. -/
def Spells (text : String) (bs : Bytes) : Prop :=
  ∃ (zeros : Nat) (ds : List Nat) (octets : Bytes),
    text.toList = List.replicate zeros '1' ++ ds.map symbol ∧
    bs = List.replicate zeros 0 ++ octets ∧ (∀ d ∈ ds, d < 58) ∧
    ds.head? ≠ some 0 ∧ octets.head? ≠ some 0 ∧
    Nat.ofDigits 58 ds.reverse = Nat.ofDigits 256 (octets.map UInt8.toNat).reverse

section Leading

variable {α : Type} [DecidableEq α] {a : α} {rest : List α}

theorem exists_leading (a : α) (l : List α) :
    ∃ n rest, l = List.replicate n a ++ rest ∧ rest.head? ≠ some a := by
  refine ⟨(l.takeWhile (· == a)).length, l.dropWhile (· == a), ?_, fun first => ?_⟩
  · have same : l.takeWhile (· == a) = List.replicate (l.takeWhile (· == a)).length a :=
      List.eq_replicate_iff.mpr ⟨rfl, fun b mem => by simpa using List.mem_takeWhile_imp mem⟩
    rw [← same, List.takeWhile_append_dropWhile]
  · have := List.head?_dropWhile_not (· == a) l
    simp [first] at this

theorem length_takeWhile_leading (first : rest.head? ≠ some a) (n : Nat) :
    ((List.replicate n a ++ rest).takeWhile (· == a)).length = n := by
  have stop : rest.takeWhile (· == a) = [] := by
    cases rest with
    | nil => rfl
    | cons b rest => simpa [List.takeWhile_cons] using first
  rw [List.takeWhile_append_of_pos (by simp), stop, List.append_nil, List.length_replicate]

end Leading

section Digits

variable {base n : Nat} {ds : List Nat} {octets : Bytes}

theorem digits_eq (large : 1 < base) (n : Nat) : digits base n = Nat.digits base n := by
  induction n using Nat.strong_induction_on with
  | h n ih =>
    rw [digits]
    by_cases zero : n = 0
    · simp [zero]
    · rw [if_neg (by omega), ih _ (Nat.div_lt_self (by omega) large),
        ← Nat.digits_def' large (by omega)]

theorem ofDigits_eq (base : Nat) (ds : List Nat) : ofDigits base ds = Nat.ofDigits base ds :=
  (Nat.ofDigits_eq_foldr base ds).symm

/-- The digits of a number are the only digits of it with no zero in front. -/
theorem digits_eq_reverse_iff (large : 1 < base) :
    digits base n = ds.reverse ↔
      (∀ d ∈ ds, d < base) ∧ ds.head? ≠ some 0 ∧ Nat.ofDigits base ds.reverse = n := by
  rw [digits_eq large]
  constructor
  · intro same
    refine ⟨fun d mem => ?_, fun first => ?_, by rw [← same, Nat.ofDigits_digits]⟩
    · exact Nat.digits_lt_base large (same ▸ List.mem_reverse.mpr mem)
    · rw [← List.getLast?_reverse, ← same] at first
      obtain ⟨left, last⟩ := List.mem_getLast?_eq_getLast first
      exact Nat.getLast_digit_ne_zero base (Nat.digits_ne_nil_iff_ne_zero.mp left) last.symm
  · rintro ⟨below, first, rfl⟩
    refine Nat.digits_ofDigits base large _ (fun d mem => below d (List.mem_reverse.mp mem)) ?_
    intro left last
    rw [List.getLast_reverse] at last
    exact first ((List.head?_eq_some_head _).trans (congrArg some last))

/-- Zeros in front do not count. -/
theorem ofDigits_leading (base zeros : Nat) (ds : List Nat) :
    Nat.ofDigits base (List.replicate zeros 0 ++ ds).reverse = Nat.ofDigits base ds.reverse := by
  rw [List.reverse_append, List.reverse_replicate, Nat.ofDigits_append_replicate_zero]

/-- The bytes whose digits are those of a number, and the other way round. -/
theorem octets_eq_iff :
    ((digits 256 n).map UInt8.ofNat).reverse = octets ↔
      octets.head? ≠ some 0 ∧ Nat.ofDigits 256 (octets.map UInt8.toNat).reverse = n := by
  have wide : ∀ d ∈ octets.map UInt8.toNat, d < 256 := fun _ => Bytes.lt_of_mem_map_toNat
  have nonzero : (octets.map UInt8.toNat).head? ≠ some 0 ↔ octets.head? ≠ some 0 := by
    cases octets with
    | nil => simp
    | cons b octets => simp [← UInt8.toNat_inj]
  rw [← nonzero, ← and_iff_right wide (b := _ ∧ _), ← digits_eq_reverse_iff (by decide)]
  constructor
  · rintro rfl
    have back : ∀ d ∈ digits 256 n, (UInt8.toNat ∘ UInt8.ofNat) d = d := by
      intro d mem
      rw [digits_eq (by decide)] at mem
      have := Nat.digits_lt_base (by decide) mem
      rw [Function.comp_apply, UInt8.toNat_ofNat', Nat.mod_eq_of_lt this]
    rw [List.map_reverse, List.map_map, List.map_congr_left back, List.map_id',
      List.reverse_reverse]
  · intro same
    simp [same, Function.comp_def]

end Digits

theorem digit?_symbol : ∀ d < 58, digit? (symbol d) = some d := by
  decide

theorem digit?_eq_some_iff {c : Char} {d : Nat} : digit? c = some d ↔ d < 58 ∧ symbol d = c := by
  constructor
  · intro found
    obtain ⟨inside, here, _⟩ := List.idxOf?_eq_some_iff.mp found
    exact ⟨inside, by rw [symbol, List.getD_eq_getElem _ _ inside, here]⟩
  · rintro ⟨below, rfl⟩
    exact digit?_symbol d below

/-- Exactly the texts of digits are read, each as its digits. -/
theorem digitsOf_eq_ok_iff {offset : Nat} {cs : List Char} {ds : List Nat} :
    digitsOf offset cs = .ok ds ↔ (∀ d ∈ ds, d < 58) ∧ cs = ds.map symbol := by
  induction cs generalizing offset ds with
  | nil => cases ds <;> simp [digitsOf]
  | cons c cs ih =>
    constructor
    · intro read
      rw [digitsOf] at read
      split at read
      next d found =>
        obtain ⟨below, rfl⟩ := digit?_eq_some_iff.mp found
        cases later : digitsOf (offset + 1) cs with
        | error fault => simp [later, Except.map] at read
        | ok rest =>
          simp only [later, Except.map, Except.ok.injEq] at read
          obtain ⟨small, rfl⟩ := ih.mp later
          subst read
          exact ⟨List.forall_mem_cons.mpr ⟨below, small⟩, rfl⟩
      next => cases read
    · rintro ⟨small, spelled⟩
      cases ds with
      | nil => cases spelled
      | cons d ds =>
        obtain ⟨below, small⟩ := List.forall_mem_cons.mp small
        obtain ⟨rfl, rfl⟩ := List.cons.inj spelled
        rw [digitsOf, digit?_symbol d below, ih.mpr ⟨small, rfl⟩]
        rfl

variable {text : String} {bs : Bytes}

/-- The text of a byte string by its zeros in front and what follows them. -/
theorem toList_encode {octets : Bytes} (first : octets.head? ≠ some 0) (zeros : Nat) :
    (encode (List.replicate zeros 0 ++ octets)).toList = List.replicate zeros '1' ++
      (digits 58 (Nat.ofDigits 256 (octets.map UInt8.toNat).reverse)).reverse.map symbol := by
  have value : Bytes.toNatBE (List.replicate zeros 0 ++ octets) =
      Nat.ofDigits 256 (octets.map UInt8.toNat).reverse := by
    rw [Bytes.toNatBE, Bytes.toNatLE_eq_ofDigits, List.map_reverse, List.map_append,
      List.map_replicate, UInt8.toNat_zero, ofDigits_leading]
  rw [encode, String.toList_ofList, length_takeWhile_leading first, value, List.map_reverse]

theorem encode_eq_iff : encode bs = text ↔ Spells text bs := by
  constructor
  · rintro rfl
    obtain ⟨zeros, octets, rfl, first⟩ := exists_leading 0 bs
    obtain ⟨small, lead, value⟩ := (digits_eq_reverse_iff (by decide)).mp
      (List.reverse_reverse (digits 58 (Nat.ofDigits 256 (octets.map UInt8.toNat).reverse))).symm
    exact ⟨zeros, _, octets, toList_encode first zeros, rfl, small, lead, first, value⟩
  · rintro ⟨zeros, ds, octets, spelled, rfl, small, lead, first, value⟩
    have same := (digits_eq_reverse_iff (by decide)).mpr ⟨small, lead, value⟩
    rw [← String.toList_inj, toList_encode first, same, List.reverse_reverse, spelled]

/-- The byte string of a text by its zeros in front and the digits that follow them. -/
theorem decode_of_digits {zeros : Nat} {ds : List Nat} (small : ∀ d ∈ ds, d < 58)
    (lead : ds.head? ≠ some 0) (spelled : text.toList = List.replicate zeros '1' ++ ds.map symbol) :
    decode text = .ok (List.replicate zeros 0 ++
      ((digits 256 (Nat.ofDigits 58 ds.reverse)).map UInt8.ofNat).reverse) := by
  have read : digitsOf 0 text.toList = .ok (List.replicate zeros 0 ++ ds) := by
    refine digitsOf_eq_ok_iff.mpr ⟨fun d mem => ?_, ?_⟩
    · rcases List.mem_append.mp mem with zero | mem
      · rw [List.eq_of_mem_replicate zero]
        decide
      · exact small d mem
    · rw [spelled, List.map_append, List.map_replicate]
      rfl
  rw [decode, read, Except.map, length_takeWhile_leading lead, ofDigits_eq, ofDigits_leading]

theorem decode_eq_ok_iff : decode text = .ok bs ↔ Spells text bs := by
  constructor
  · intro read
    cases found : digitsOf 0 text.toList with
    | error fault => simp [decode, found, Except.map] at read
    | ok all =>
      obtain ⟨small, spelled⟩ := digitsOf_eq_ok_iff.mp found
      obtain ⟨zeros, ds, rfl, lead⟩ := exists_leading 0 all
      rw [List.map_append, List.map_replicate] at spelled
      replace small : ∀ d ∈ ds, d < 58 := fun d mem => small d (List.mem_append_right _ mem)
      rw [decode_of_digits small lead spelled] at read
      cases read
      obtain ⟨first, value⟩ := octets_eq_iff.mp rfl
      exact ⟨zeros, ds, _, spelled, rfl, small, lead, first, value.symm⟩
  · rintro ⟨zeros, ds, octets, spelled, rfl, small, lead, first, value⟩
    rw [decode_of_digits small lead spelled, octets_eq_iff.mpr ⟨first, value.symm⟩]

/-- Reading accepts exactly the written texts. -/
theorem decode_eq_ok_iff_encode : decode text = .ok bs ↔ text = encode bs := by
  rw [decode_eq_ok_iff, ← encode_eq_iff, eq_comm]

end Base58

end LeafLedger
