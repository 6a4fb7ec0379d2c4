import LeafLedger.Proofs.Except
import LeafLedger.Proofs.Text.Base58
import LeafLedger.Transaction.Json
import Mathlib.Data.String.Basic

namespace LeafLedger

namespace Base58

variable {bs : Bytes} {c : Char}

theorem symbol_mem_alphabet : ∀ d < 58, symbol d ∈ alphabet := by
  decide

theorem mem_alphabet_of_mem_encode (mem : c ∈ (encode bs).toList) : c ∈ alphabet := by
  obtain ⟨zeros, ds, _, spelled, _, small, _⟩ := encode_eq_iff.mp (rfl : encode bs = _)
  rw [spelled, List.mem_append, List.mem_map] at mem
  rcases mem with one | ⟨d, digit, rfl⟩
  · rw [List.eq_of_mem_replicate one]
    exact symbol_mem_alphabet 0 (by decide)
  · exact symbol_mem_alphabet d (small d digit)

theorem utf8Size_of_mem_alphabet (mem : c ∈ alphabet) : c.utf8Size = 1 := by
  have narrow : alphabet.all (·.utf8Size == 1) := by decide
  exact beq_iff_eq.mp (List.all_eq_true.mp narrow c mem)

theorem utf8ByteSize_encode (bs : Bytes) :
    (encode bs).utf8ByteSize = (encode bs).toList.length := by
  have narrow : ∀ cs : List Char, (∀ c ∈ cs, c ∈ alphabet) → String.utf8Len cs = cs.length := by
    intro cs spelled
    induction cs with
    | nil => rfl
    | cons c cs ih =>
      obtain ⟨known, spelled⟩ := List.forall_mem_cons.mp spelled
      rw [String.utf8Len_cons, ih spelled, utf8Size_of_mem_alphabet known, List.length_cons]
  rw [← narrow _ fun _ => mem_alphabet_of_mem_encode, String.utf8Len_toList]

/-- So many digits more than bytes are enough for up to thirty-two bytes. -/
theorem pow_le_pow_spare : ∀ n < 33, 256 ^ n ≤ 58 ^ (12 + n) := by
  decide

theorem length_encode_le (size : bs.length ≤ 32) : (encode bs).toList.length ≤ 12 + bs.length := by
  obtain ⟨zeros, ds, octets, spelled, rfl, small, lead, _, value⟩ :=
    encode_eq_iff.mp (rfl : encode bs = _)
  rw [List.length_append, List.length_replicate] at size
  have same := (digits_eq_reverse_iff (by decide)).mpr ⟨small, lead, rfl⟩
  rw [digits_eq (by decide)] at same
  have wide : ∀ d ∈ (octets.map UInt8.toNat).reverse, d < 256 := fun _ mem =>
    Bytes.lt_of_mem_map_toNat (List.mem_reverse.mp mem)
  have below : Nat.ofDigits 58 ds.reverse < 58 ^ (12 + octets.length) :=
    calc Nat.ofDigits 58 ds.reverse
      _ = Nat.ofDigits 256 (octets.map UInt8.toNat).reverse := value
      _ < 256 ^ octets.length := by
        simpa using Nat.ofDigits_lt_base_pow_length (by decide) wide
      _ ≤ 58 ^ (12 + octets.length) := pow_le_pow_spare _ (by omega)
  have few := (Nat.digits_length_le_iff (by decide) _).mpr below
  rw [same, List.length_reverse] at few
  rw [spelled]
  simp only [List.length_append, List.length_replicate, List.length_map]
  omega

end Base58

namespace Address

variable {text : String} {key : Address}

theorem utf8ByteSize_text_le (key : Address) : key.text.utf8ByteSize ≤ maxTextSize := by
  have size := Base58.length_encode_le key.length_toBytes.le
  rw [key.length_toBytes] at size
  rw [Bytes32.text, Base58.utf8ByteSize_encode]
  exact size

theorem parse_text (key : Address) : parse key.text = .ok key := by
  have spelled : Base58.decode key.text = .ok key.toBytes :=
    Base58.decode_eq_ok_iff_encode.mpr rfl
  have whole : Bytes32.ofBytes? key.toBytes = some key := Bytes32.ofBytes?_eq_some_iff.mpr rfl
  rw [parse, if_neg (Nat.not_lt.mpr (utf8ByteSize_text_le key))]
  simp only [spelled, whole]

theorem parse_eq_ok_iff : parse text = .ok key ↔ text = key.text := by
  constructor
  · intro accepted
    unfold parse at accepted
    split at accepted
    next => cases accepted
    next =>
      split at accepted
      next => cases accepted
      next bs spelled =>
        split at accepted
        next whole =>
          cases accepted
          rw [Base58.decode_eq_ok_iff_encode.mp spelled, ← Bytes32.ofBytes?_eq_some_iff.mp whole]
          rfl
        next => cases accepted
  · rintro rfl
    exact parse_text key

/-- A list of texts is read exactly if each of them is the text of an address. -/
theorem mapM_eq_ok_iff {ε : Type} {read : String → Except ε Address}
    (reads : ∀ text key, read text = .ok key ↔ text = key.text) {texts : List String}
    {keys : List Address} : texts.mapM read = .ok keys ↔ texts = keys.map Bytes32.text := by
  rw [LeafLedger.mapM_eq_ok_iff]
  simp only [reads]
  exact forall₂_eq_map_iff

end Address

theorem parseData_eq_ok_iff {text : String} {data : Bytes} :
    parseData text = .ok data ↔ text = Base58.encode data := by
  rw [parseData, mapError_eq_ok_iff, Base58.decode_eq_ok_iff_encode]

theorem parseAddress_eq_ok_iff {text : String} {key : Address} :
    parseAddress text = .ok key ↔ text = key.text := by
  rw [parseAddress, mapError_eq_ok_iff, Address.parse_eq_ok_iff]

/-- Addresses and instruction data and their texts correspond one to one: every written text is read
back, and no other text is read. The texts are base58, with as many ones in front as there are zero
bytes, and behind them the digits of the number that the other bytes make up. -/
theorem texts_one_to_one :
    (∀ key : Address, Address.parse key.text = .ok key ∧ key.text.utf8ByteSize ≤ 44) ∧
    (∀ text key, Address.parse text = .ok key ↔ text = key.text) ∧
    (∀ data, dataForm.ofJson (.string (Base58.encode data)) = .ok data) ∧
    (∀ text data, dataForm.ofJson (.string text) = .ok data ↔ text = Base58.encode data) ∧
    ∀ text data, text = Base58.encode data ↔ Base58.Spells text data := by
  refine ⟨fun key => ⟨Address.parse_text key, Address.utf8ByteSize_text_le key⟩,
    fun text key => Address.parse_eq_ok_iff, fun data => parseData_eq_ok_iff.mpr rfl,
    fun text data => parseData_eq_ok_iff, fun text data => ?_⟩
  rw [eq_comm, Base58.encode_eq_iff]

end LeafLedger
