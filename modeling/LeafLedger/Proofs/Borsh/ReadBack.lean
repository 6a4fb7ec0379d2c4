import LeafLedger.Instruction.Args
import LeafLedger.LeafSchema
import Mathlib.Tactic.NormNum

namespace LeafLedger

namespace Bytes

theorem toNatLE_ofNatLE (width v : Nat) : toNatLE (ofNatLE width v) = v % 256 ^ width := by
  induction width generalizing v with
  | zero => simp [ofNatLE, toNatLE, Nat.mod_one]
  | succ width ih =>
    have byte : (UInt8.ofNat v).toNat = v % 256 := by simp
    rw [ofNatLE, toNatLE, byte, ih, Nat.pow_succ', Nat.mod_mul]

theorem toNatLE_ofNatLE_of_lt {width v : Nat} (h : v < 256 ^ width) :
    toNatLE (ofNatLE width v) = v := by
  rw [toNatLE_ofNatLE, Nat.mod_eq_of_lt h]

end Bytes

namespace Utf8

theorem decode_encode (s : String) : decode (encode s) = .ok s := by
  have bytes : (encode s).toByteArray = s.toByteArray := by
    apply ByteArray.ext
    simp [encode]
  have valid := s.isValidUTF8
  simp [decode, bytes, String.fromUTF8?, valid, String.fromUTF8]

end Utf8

namespace Borsh

/-- Whatever follows the written form of a value, reading takes the value and leaves the rest. -/
def Reads {α : Type} [Borsh α] (a : α) : Prop :=
  ∀ rest, (decode : Reader α) (encode a ++ rest) = .ok (a, rest)

/-- A type all of whose values read back. -/
class Lawful (α : Type) [Borsh α] : Prop where
  reads : ∀ a : α, Reads a

variable {α β : Type} [Borsh α] {a : α}

/-- A reader that begins with a value goes on behind it. -/
theorem Reads.bind (h : Reads a) (next : α → Reader β) (rest : Bytes) :
    (decode >>= next) (encode a ++ rest) = next a rest := by
  change (decode (encode a ++ rest) >>= fun p => next p.1 p.2) = _
  rw [h rest]
  rfl

theorem take_append {bytes : Bytes} {n : Nat} (h : bytes.length = n) (rest : Bytes) :
    take n (bytes ++ rest) = .ok (bytes, rest) := by
  subst h
  simp [take]

theorem take_bind {bytes : Bytes} {n : Nat} (h : bytes.length = n) (next : Bytes → Reader β)
    (rest : Bytes) : (take n >>= next) (bytes ++ rest) = next bytes rest := by
  change (take n (bytes ++ rest) >>= fun p => next p.1 p.2) = _
  rw [take_append h]
  rfl

instance : Lawful UInt8 where
  reads _ _ := rfl

instance : Lawful UInt16 where
  reads v rest := by
    refine (take_bind (Bytes.length_ofNatLE 2 v.toNat) _ rest).trans ?_
    have small : v.toNat < 256 ^ 2 := v.toNat_lt
    rw [Bytes.toNatLE_ofNatLE_of_lt small, UInt16.ofNat_toNat]
    rfl

instance : Lawful UInt32 where
  reads v rest := by
    refine (take_bind (Bytes.length_ofNatLE 4 v.toNat) _ rest).trans ?_
    have small : v.toNat < 256 ^ 4 := v.toNat_lt
    rw [Bytes.toNatLE_ofNatLE_of_lt small, UInt32.ofNat_toNat]
    rfl

instance : Lawful UInt64 where
  reads v rest := by
    refine (take_bind (Bytes.length_ofNatLE 8 v.toNat) _ rest).trans ?_
    have small : v.toNat < 256 ^ 8 := v.toNat_lt
    rw [Bytes.toNatLE_ofNatLE_of_lt small, UInt64.ofNat_toNat]
    rfl

instance : Lawful Bytes32 where
  reads k rest := by
    obtain ⟨bytes, size⟩ := k
    simp [encode, decode, ← size]

instance : Lawful Bool where
  reads b rest := by
    cases b <;> exact (Lawful.reads (_ : UInt8)).bind _ rest

instance [Lawful α] : Lawful (Option α) where
  reads o rest := by
    cases o with
    | none => exact (Lawful.reads (0 : UInt8)).bind _ rest
    | some a =>
      refine ((Lawful.reads (1 : UInt8)).bind _ (encode a ++ rest)).trans ?_
      exact (Lawful.reads a).bind _ rest

/-- The number of values that the count in front of a list can tell. -/
def countBound : Nat :=
  2 ^ 32

theorem toNat_count {n : Nat} (h : n < countBound) : (UInt32.ofNat n).toNat = n :=
  UInt32.toNat_ofNat_of_lt' h

theorem reads_string {s : String} (fits : (Utf8.encode s).length < countBound) : Reads s := by
  intro rest
  have count := toNat_count fits
  have parts : encode s ++ rest =
      encode (UInt32.ofNat (Utf8.encode s).length) ++ (Utf8.encode s ++ rest) :=
    List.append_assoc _ _ _
  rw [parts]
  refine ((Lawful.reads _).bind _ _).trans ?_
  refine (take_bind count.symm _ rest).trans ?_
  rw [Utf8.decode_encode]
  rfl

theorem decodeMany_flatMap {as : List α} (each : ∀ a ∈ as, Reads a) (rest : Bytes) :
    decodeMany as.length (as.flatMap encode ++ rest) = .ok (as, rest) := by
  induction as with
  | nil => rfl
  | cons a as ih =>
    have later := ih fun b hb => each b (by simp [hb])
    rw [List.flatMap_cons, List.append_assoc]
    refine ((each a (by simp)).bind _ _).trans ?_
    change (decodeMany as.length (as.flatMap encode ++ rest) >>= fun p => _) = _
    rw [later]
    rfl

theorem reads_list {as : List α} (fits : as.length < countBound) (each : ∀ a ∈ as, Reads a) :
    Reads as := by
  intro rest
  have count := toNat_count fits
  have parts : encode as ++ rest =
      encode (UInt32.ofNat as.length) ++ (as.flatMap encode ++ rest) :=
    List.append_assoc _ _ _
  rw [parts]
  refine ((Lawful.reads _).bind _ _).trans ?_
  rw [count]
  exact decodeMany_flatMap each rest

instance : Lawful TokenStandard where
  reads a rest := by
    cases a <;> rfl

instance : Lawful UseMethod where
  reads a rest := by
    cases a <;> rfl

instance : Lawful TokenProgramVersion where
  reads a rest := by
    cases a <;> rfl

instance : Lawful Uses where
  reads u rest := by
    have parts : encode u ++ rest =
        encode u.useMethod ++ (encode u.remaining ++ (encode u.total ++ rest)) := by
      simp [encode]
    rw [parts]
    refine ((Lawful.reads _).bind _ _).trans ?_
    refine ((Lawful.reads _).bind _ _).trans ?_
    exact (Lawful.reads _).bind _ _

instance : Lawful Collection where
  reads c rest := by
    have parts : encode c ++ rest = encode c.verified ++ (encode c.key ++ rest) :=
      List.append_assoc _ _ _
    rw [parts]
    refine ((Lawful.reads _).bind _ _).trans ?_
    exact (Lawful.reads _).bind _ _

instance : Lawful Creator where
  reads c rest := by
    have parts : encode c ++ rest =
        encode c.address ++ (encode c.verified ++ (encode c.share ++ rest)) := by
      simp [encode]
    rw [parts]
    refine ((Lawful.reads _).bind _ _).trans ?_
    refine ((Lawful.reads _).bind _ _).trans ?_
    exact (Lawful.reads _).bind _ _

instance : Lawful LeafArgs where
  reads a rest := by
    have parts : encode a ++ rest =
        encode a.root ++ (encode a.dataHash ++ (encode a.creatorHash ++
          (encode a.nonce ++ (encode a.index ++ rest)))) := by
      simp [encode]
    rw [parts]
    iterate 4 refine ((Lawful.reads _).bind _ _).trans ?_
    exact (Lawful.reads _).bind _ _

instance : Lawful LeafSchema where
  reads s rest := by
    have parts : encode s ++ rest =
        encode (0 : UInt8) ++ (encode s.leafId ++ (encode s.owner ++ (encode s.delegate ++
          (encode s.nonce ++ (encode s.dataHash ++ (encode s.creatorHash ++
            (encode s.leafHash ++ rest))))))) := by
      simp [encode]
    rw [parts]
    iterate 7 refine ((Lawful.reads _).bind _ _).trans ?_
    exact (Lawful.reads _).bind _ _

end Borsh

/-- The texts and the creators of the metadata are short enough for their counts. -/
structure Metadata.Fits (m : Metadata) : Prop where
  name : (Utf8.encode m.name).length < Borsh.countBound
  symbol : (Utf8.encode m.symbol).length < Borsh.countBound
  uri : (Utf8.encode m.uri).length < Borsh.countBound
  creators : m.creators.length < Borsh.countBound

open Borsh in
theorem Metadata.Fits.reads {m : Metadata} (fits : m.Fits) : Reads m := by
  intro rest
  have parts : encode m ++ rest =
      encode m.name ++ (encode m.symbol ++ (encode m.uri ++ (encode m.sellerFeeBasisPoints ++
        (encode m.primarySaleHappened ++ (encode m.isMutable ++ (encode m.editionNonce ++
          (encode m.tokenStandard ++ (encode m.collection ++ (encode m.uses ++
            (encode m.tokenProgramVersion ++ (encode m.creators ++ rest))))))))))) := by
    change _ ++ _ ++ _ ++ _ ++ _ ++ _ ++ _ ++ _ ++ _ ++ _ ++ _ ++ _ ++ rest = _
    simp only [List.append_assoc]
  rw [parts]
  refine ((reads_string fits.name).bind _ _).trans ?_
  refine ((reads_string fits.symbol).bind _ _).trans ?_
  refine ((reads_string fits.uri).bind _ _).trans ?_
  iterate 8 refine ((Lawful.reads _).bind _ _).trans ?_
  exact (reads_list fits.creators fun c _ => Lawful.reads c).bind _ _

namespace LeafSchema

open Borsh

theorem ofEmission_emission (s : LeafSchema) (rest : Bytes) :
    ofEmission (s.emission ++ rest) = .ok (some s) := by
  have begins : isEmission (s.emission ++ rest) = true := by
    simp [isEmission, emission, Bytes.window?]
  have body : (s.emission ++ rest).drop tag.length = encode s ++ rest := by
    simp [emission]
  have read : (decode : Reader LeafSchema) (encode s ++ rest) = .ok (s, rest) :=
    Lawful.reads s rest
  simp [ofEmission, begins, body, read]

end LeafSchema

end LeafLedger
