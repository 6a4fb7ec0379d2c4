import LeafLedger.Proofs.Borsh.ReadBack

namespace LeafLedger

namespace Bytes

variable {bs : Bytes} {width : Nat}

theorem toNatLE_lt (size : bs.length = width) : toNatLE bs < 256 ^ width := by
  induction bs generalizing width with
  | nil =>
    subst size
    exact Nat.one_pos
  | cons b bs ih =>
    subst size
    have low : b.toNat < 256 := b.toNat_lt
    have high := ih rfl
    rw [toNatLE, List.length_cons, Nat.pow_succ']
    omega

theorem ofNatLE_toNatLE (size : bs.length = width) : ofNatLE width (toNatLE bs) = bs := by
  induction bs generalizing width with
  | nil =>
    subst size
    rfl
  | cons b bs ih =>
    subst size
    have bound : b.toNat < 256 := b.toNat_lt
    have low : UInt8.ofNat (b.toNat + 256 * toNatLE bs) = b := by
      apply UInt8.toNat.inj
      rw [UInt8.toNat_ofNat']
      omega
    have high : (b.toNat + 256 * toNatLE bs) / 256 = toNatLE bs := by omega
    rw [toNatLE, List.length_cons, ofNatLE, low, high, ih rfl]

/-- A string that is long enough for two parts has them. -/
theorem exists_parts (front back : Nat) (size : bs.length = front + back) :
    ∃ first rest, bs = first ++ rest ∧ first.length = front ∧ rest.length = back := by
  have enough : front ≤ bs.length := by omega
  refine ⟨bs.take front, bs.drop front, (List.take_append_drop front bs).symm,
    List.length_take_of_le enough, ?_⟩
  rw [List.length_drop]
  omega

end Bytes

namespace Utf8

theorem encode_of_decode {bs : Bytes} {s : String} (h : decode bs = .ok s) : encode s = bs := by
  unfold decode at h
  split at h
  next found =>
    cases h
    unfold String.fromUTF8? at found
    split at found
    next valid =>
      cases found
      simp [encode, String.fromUTF8]
    next => cases found
  next => cases h

end Utf8

namespace Borsh

section Steps

variable {α β : Type} {input rest : Bytes} {b : β}

/-- A sequence of readers that succeeds succeeded step by step. -/
theorem bind_eq_ok {reader : Reader α} {next : α → Reader β}
    (h : (reader >>= next) input = .ok (b, rest)) :
    ∃ a mid, reader input = .ok (a, mid) ∧ next a mid = .ok (b, rest) := by
  change (reader input >>= fun p => next p.1 p.2) = _ at h
  cases hr : reader input with
  | error fault =>
    rw [hr] at h
    cases h
  | ok p =>
    rw [hr] at h
    exact ⟨p.1, p.2, rfl, h⟩

theorem take_eq_ok {n : Nat} {bytes : Bytes} (h : take n input = .ok (bytes, rest)) :
    input = bytes ++ rest ∧ bytes.length = n := by
  unfold take at h
  split at h
  next enough =>
    cases h
    exact ⟨(List.take_append_drop n input).symm, List.length_take_of_le enough⟩
  next => cases h

end Steps

/-- A type whose reader takes exactly the written form of the value that it gives. -/
class Exact (α : Type) [Borsh α] : Prop where
  taken : ∀ {input rest : Bytes} {a : α},
    (decode : Reader α) input = .ok (a, rest) → input = encode a ++ rest

variable {α β : Type} [Borsh α] {input rest : Bytes}

theorem Exact.bind [Exact α] {next : α → Reader β} {b : β}
    (h : (decode >>= next) input = .ok (b, rest)) :
    ∃ a mid, input = encode a ++ mid ∧ next a mid = .ok (b, rest) := by
  obtain ⟨a, mid, read, later⟩ := bind_eq_ok h
  exact ⟨a, mid, Exact.taken read, later⟩

theorem decode_eq_ok_iff [Lawful α] [Exact α] {a : α} :
    (decode : Reader α) input = .ok (a, rest) ↔ input = encode a ++ rest := by
  constructor
  · exact Exact.taken
  · rintro rfl
    exact Lawful.reads a rest

instance : Exact UInt8 where
  taken {input rest a} h := by
    cases input with
    | nil => cases h
    | cons b input =>
      cases h
      rfl

/-- An integer that is written in as many bytes as it can fill gives back the bytes it is read
from. -/
theorem encode_ofNat {width : Nat} {ofNat : Nat → α} {toNat : α → Nat}
    (written : ∀ a : α, encode a = Bytes.ofNatLE width (toNat a))
    (fits : ∀ n < 256 ^ width, toNat (ofNat n) = n) {bytes : Bytes} (size : bytes.length = width) :
    encode (ofNat (Bytes.toNatLE bytes)) = bytes := by
  rw [written, fits _ (Bytes.toNatLE_lt size), Bytes.ofNatLE_toNatLE size]

theorem exact_of_width {width : Nat} {ofNat : Nat → α}
    (reads : (decode : Reader α) = return ofNat (Bytes.toNatLE (← take width)))
    (back : ∀ {bytes : Bytes}, bytes.length = width →
      encode (ofNat (Bytes.toNatLE bytes)) = bytes) : Exact α where
  taken h := by
    rw [reads] at h
    obtain ⟨bytes, mid, took, done⟩ := bind_eq_ok h
    obtain ⟨parts, size⟩ := take_eq_ok took
    cases done
    rw [back size, parts]

theorem encode_ofNat_uint32 {bytes : Bytes} (size : bytes.length = 4) :
    encode (UInt32.ofNat (Bytes.toNatLE bytes)) = bytes :=
  encode_ofNat (fun _ => rfl) (fun _ small => UInt32.toNat_ofNat_of_lt' small) size

theorem encode_ofNat_uint64 {bytes : Bytes} (size : bytes.length = 8) :
    encode (UInt64.ofNat (Bytes.toNatLE bytes)) = bytes :=
  encode_ofNat (fun _ => rfl) (fun _ small => UInt64.toNat_ofNat_of_lt' small) size

instance : Exact UInt16 :=
  exact_of_width rfl
    (encode_ofNat (fun _ => rfl) (fun _ small => UInt16.toNat_ofNat_of_lt' small))

instance : Exact UInt32 :=
  exact_of_width rfl encode_ofNat_uint32

instance : Exact UInt64 :=
  exact_of_width rfl encode_ofNat_uint64

instance : Exact Bytes32 where
  taken {input rest a} h := by
    by_cases enough : 32 ≤ input.length
    · simp only [decode, enough, dite_true, Except.ok.injEq, Prod.mk.injEq] at h
      obtain ⟨rfl, rfl⟩ := h
      exact (List.take_append_drop 32 input).symm
    · simp [decode, enough] at h

instance : Exact Bool where
  taken h := by
    obtain ⟨byte, mid, rfl, tagged⟩ := Exact.bind h
    split at tagged
    next zero =>
      cases tagged
      rw [zero]
      rfl
    next =>
      split at tagged
      next one =>
        cases tagged
        rw [one]
        rfl
      next => cases tagged

instance [Exact α] : Exact (Option α) where
  taken h := by
    obtain ⟨byte, mid, rfl, tagged⟩ := Exact.bind h
    split at tagged
    next zero =>
      cases tagged
      rw [zero]
      rfl
    next =>
      split at tagged
      next one =>
        obtain ⟨value, mid, rfl, done⟩ := Exact.bind tagged
        cases done
        rw [one]
        rfl
      next => cases tagged

/-- A tag tells one value only if no value is listed twice. -/
theorem exact_ofVariants {α : Type} [DecidableEq α] {variants : List α}
    (distinct : variants.Nodup) : @Exact α (ofVariants variants) := by
  refine @Exact.mk α (ofVariants variants) ?_
  intro input rest a h
  obtain ⟨tag, mid, rfl, named⟩ := Exact.bind h
  cases found : variants[tag.toNat]? with
  | none =>
    simp only [found] at named
    cases named
  | some value =>
    simp only [found] at named
    cases named
    obtain ⟨inside, rfl⟩ := List.getElem?_eq_some_iff.mp found
    change _ = [UInt8.ofNat (variants.idxOf variants[tag.toNat])] ++ _
    rw [distinct.idxOf_getElem, UInt8.ofNat_toNat]
    rfl

/-- A text is read from its written form, and it is as short as its count says. -/
theorem string_of_decode {s : String} (h : (decode : Reader String) input = .ok (s, rest)) :
    input = encode s ++ rest ∧ (Utf8.encode s).length < countBound := by
  obtain ⟨size, _, rfl, counted⟩ := Exact.bind h
  obtain ⟨bytes, mid, took, checked⟩ := bind_eq_ok counted
  obtain ⟨rfl, length⟩ := take_eq_ok took
  cases spelled : Utf8.decode bytes with
  | error fault =>
    simp only [spelled] at checked
    cases checked
  | ok text =>
    simp only [spelled] at checked
    cases checked
    have bytes_eq := Utf8.encode_of_decode spelled
    have count : encodeCount bytes.length = encode size := by
      rw [encodeCount, length, UInt32.ofNat_toNat]
    change _ = encodeCount (Utf8.encode s).length ++ Utf8.encode s ++ rest ∧ _
    rw [bytes_eq, count, List.append_assoc, length]
    exact ⟨rfl, size.toNat_lt⟩

theorem string_bind {next : String → Reader β} {b : β}
    (h : (decode >>= next) input = .ok (b, rest)) :
    ∃ s mid, input = encode s ++ mid ∧ (Utf8.encode s).length < countBound ∧
      next s mid = .ok (b, rest) := by
  obtain ⟨s, mid, read, later⟩ := bind_eq_ok h
  obtain ⟨parts, fits⟩ := string_of_decode read
  exact ⟨s, mid, parts, fits, later⟩

theorem decodeMany_eq_ok [Exact α] {n : Nat} {as : List α}
    (h : decodeMany n input = .ok (as, rest)) :
    input = as.flatMap encode ++ rest ∧ as.length = n := by
  induction n generalizing input rest as with
  | zero =>
    cases h
    exact ⟨rfl, rfl⟩
  | succ n ih =>
    obtain ⟨a, _, rfl, more⟩ := Exact.bind h
    obtain ⟨later, mid, read, done⟩ := bind_eq_ok more
    obtain ⟨rfl, length⟩ := ih read
    cases done
    simp [length]

/-- A list is read from its written form, and it is as short as its count says. -/
theorem list_of_decode [Exact α] {as : List α}
    (h : (decode : Reader (List α)) input = .ok (as, rest)) :
    input = encode as ++ rest ∧ as.length < countBound := by
  obtain ⟨size, _, rfl, counted⟩ := Exact.bind h
  obtain ⟨rfl, length⟩ := decodeMany_eq_ok counted
  have count : encodeCount as.length = encode size := by
    rw [encodeCount, length, UInt32.ofNat_toNat]
  change _ = encodeCount as.length ++ as.flatMap encode ++ rest ∧ _
  rw [count, List.append_assoc, length]
  exact ⟨rfl, size.toNat_lt⟩

instance : Exact TokenStandard :=
  exact_ofVariants (by decide)

instance : Exact UseMethod :=
  exact_ofVariants (by decide)

instance : Exact TokenProgramVersion :=
  exact_ofVariants (by decide)

instance : Exact Uses where
  taken h := by
    obtain ⟨useMethod, _, rfl, afterMethod⟩ := Exact.bind h
    obtain ⟨remaining, _, rfl, afterRemaining⟩ := Exact.bind afterMethod
    obtain ⟨total, _, rfl, done⟩ := Exact.bind afterRemaining
    cases done
    simp [encode]

instance : Exact Collection where
  taken h := by
    obtain ⟨verified, _, rfl, afterVerified⟩ := Exact.bind h
    obtain ⟨key, _, rfl, done⟩ := Exact.bind afterVerified
    cases done
    simp [encode]

instance : Exact Creator where
  taken h := by
    obtain ⟨address, _, rfl, afterAddress⟩ := Exact.bind h
    obtain ⟨verified, _, rfl, afterVerified⟩ := Exact.bind afterAddress
    obtain ⟨share, _, rfl, done⟩ := Exact.bind afterVerified
    cases done
    simp [encode]

instance : Exact LeafArgs where
  taken h := by
    obtain ⟨root, _, rfl, afterRoot⟩ := Exact.bind h
    obtain ⟨dataHash, _, rfl, afterData⟩ := Exact.bind afterRoot
    obtain ⟨creatorHash, _, rfl, afterCreator⟩ := Exact.bind afterData
    obtain ⟨nonce, _, rfl, afterNonce⟩ := Exact.bind afterCreator
    obtain ⟨index, _, rfl, done⟩ := Exact.bind afterNonce
    cases done
    simp [encode]

/-- A type whose written forms are all byte strings of one length. -/
structure FillsWidth (α : Type) [Borsh α] (width : Nat) : Prop where
  length : ∀ a : α, (encode a).length = width
  filled : ∀ bytes : Bytes, bytes.length = width → ∃ a : α, encode a = bytes

theorem fillsWidth_bytes32 : FillsWidth Bytes32 32 where
  length k := k.length_toBytes
  filled bytes size := ⟨⟨bytes, size⟩, rfl⟩

theorem fillsWidth_uint32 : FillsWidth UInt32 4 where
  length v := Bytes.length_ofNatLE 4 v.toNat
  filled _ size := ⟨_, encode_ofNat_uint32 size⟩

theorem fillsWidth_uint64 : FillsWidth UInt64 8 where
  length v := Bytes.length_ofNatLE 8 v.toNat
  filled _ size := ⟨_, encode_ofNat_uint64 size⟩

/-- Any 108 bytes are the arguments of a transfer or a burn. -/
theorem fillsWidth_leafArgs : FillsWidth LeafArgs 108 where
  length a := by
    have root := fillsWidth_bytes32.length a.root
    have dataHash := fillsWidth_bytes32.length a.dataHash
    have creatorHash := fillsWidth_bytes32.length a.creatorHash
    have nonce := fillsWidth_uint64.length a.nonce
    have index := fillsWidth_uint32.length a.index
    change (_ ++ _ ++ _ ++ _ ++ _ : Bytes).length = 108
    simp only [List.length_append]
    omega
  filled bytes size := by
    obtain ⟨first, _, rfl, h₁, size⟩ := Bytes.exists_parts 32 76 size
    obtain ⟨second, _, rfl, h₂, size⟩ := Bytes.exists_parts 32 44 size
    obtain ⟨third, _, rfl, h₃, size⟩ := Bytes.exists_parts 32 12 size
    obtain ⟨fourth, fifth, rfl, h₄, h₅⟩ := Bytes.exists_parts 8 4 size
    obtain ⟨root, rfl⟩ := fillsWidth_bytes32.filled first h₁
    obtain ⟨dataHash, rfl⟩ := fillsWidth_bytes32.filled second h₂
    obtain ⟨creatorHash, rfl⟩ := fillsWidth_bytes32.filled third h₃
    obtain ⟨nonce, rfl⟩ := fillsWidth_uint64.filled fourth h₄
    obtain ⟨index, rfl⟩ := fillsWidth_uint32.filled fifth h₅
    exact ⟨⟨root, dataHash, creatorHash, nonce, index⟩, by simp [encode]⟩

end Borsh

open Borsh in
/-- The metadata that are read are those that fit, each from its written form. -/
theorem Metadata.decode_eq_ok_iff {m : Metadata} {input rest : Bytes} :
    (decode : Reader Metadata) input = .ok (m, rest) ↔ m.Fits ∧ input = encode m ++ rest := by
  constructor
  · intro h
    obtain ⟨name, _, rfl, fitsName, h₁⟩ := string_bind h
    obtain ⟨symbol, _, rfl, fitsSymbol, h₂⟩ := string_bind h₁
    obtain ⟨uri, _, rfl, fitsUri, h₃⟩ := string_bind h₂
    obtain ⟨sellerFeeBasisPoints, _, rfl, h₄⟩ := Exact.bind h₃
    obtain ⟨primarySaleHappened, _, rfl, h₅⟩ := Exact.bind h₄
    obtain ⟨isMutable, _, rfl, h₆⟩ := Exact.bind h₅
    obtain ⟨editionNonce, _, rfl, h₇⟩ := Exact.bind h₆
    obtain ⟨tokenStandard, _, rfl, h₈⟩ := Exact.bind h₇
    obtain ⟨collection, _, rfl, h₉⟩ := Exact.bind h₈
    obtain ⟨uses, _, rfl, h₁₀⟩ := Exact.bind h₉
    obtain ⟨tokenProgramVersion, _, rfl, h₁₁⟩ := Exact.bind h₁₀
    obtain ⟨creators, mid, readCreators, done⟩ := bind_eq_ok h₁₁
    obtain ⟨rfl, fitsCreators⟩ := list_of_decode readCreators
    cases done
    refine ⟨⟨fitsName, fitsSymbol, fitsUri, fitsCreators⟩, ?_⟩
    change _ = _ ++ _ ++ _ ++ _ ++ _ ++ _ ++ _ ++ _ ++ _ ++ _ ++ _ ++ _ ++ rest
    simp only [List.append_assoc]
  · rintro ⟨fits, rfl⟩
    exact fits.reads rest

end LeafLedger
