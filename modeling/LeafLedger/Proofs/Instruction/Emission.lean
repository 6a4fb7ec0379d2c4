import LeafLedger.Proofs.Borsh.Exactness

namespace LeafLedger

open Borsh (encode decode Reader Exact)

namespace Borsh

variable {α β : Type}

/-- A reader that fails only if the input ends too early. -/
def OnlyTruncates (reader : Reader α) : Prop :=
  ∀ input fault, reader input = .error fault → fault = .truncated

theorem OnlyTruncates.bind {reader : Reader α} {next : α → Reader β}
    (first : OnlyTruncates reader) (later : ∀ a, OnlyTruncates (next a)) :
    OnlyTruncates (reader >>= next) := by
  intro input fault failed
  change (reader input >>= fun p => next p.1 p.2) = _ at failed
  cases read : reader input with
  | error =>
    rw [read] at failed
    cases failed
    exact first input _ read
  | ok p =>
    rw [read] at failed
    exact later p.1 p.2 fault failed

theorem onlyTruncates_pure (a : α) : OnlyTruncates (pure a : Reader α) := by
  intro input fault failed
  cases failed

theorem onlyTruncates_take (n : Nat) : OnlyTruncates (take n) := by
  intro input fault failed
  unfold take at failed
  split at failed <;> cases failed
  rfl

theorem onlyTruncates_uint64 : OnlyTruncates (decode : Reader UInt64) :=
  (onlyTruncates_take 8).bind fun _ => onlyTruncates_pure _

theorem onlyTruncates_bytes32 : OnlyTruncates (decode : Reader Bytes32) := by
  intro input fault failed
  simp only [decode] at failed
  split at failed <;> cases failed
  rfl

end Borsh

namespace LeafSchema

open Borsh

/-- The fields of a leaf, behind its version. -/
def fields : Reader LeafSchema := do
  return {
    leafId := ← decode
    owner := ← decode
    delegate := ← decode
    nonce := ← decode
    dataHash := ← decode
    creatorHash := ← decode
    leafHash := ← decode }

variable {data body rest : Bytes} {s : LeafSchema} {version : UInt8} {fault : Fault}

theorem decode_cons_of_ne (other : version ≠ 0) (body : Bytes) :
    (decode : Reader LeafSchema) (version :: body) = .error (.badTag version) := by
  change (ite _ _ _ : Reader LeafSchema) body = _
  rw [if_pos other]
  rfl

theorem onlyTruncates_fields : OnlyTruncates fields := by
  unfold fields
  iterate 3 refine onlyTruncates_bytes32.bind fun _ => ?_
  refine onlyTruncates_uint64.bind fun _ => ?_
  iterate 3 refine onlyTruncates_bytes32.bind fun _ => ?_
  exact onlyTruncates_pure _

theorem eq_encode_of_fields (read : fields body = .ok (s, rest)) :
    0 :: body = encode s ++ rest := by
  obtain ⟨leafId, _, rfl, afterId⟩ := Exact.bind read
  obtain ⟨owner, _, rfl, afterOwner⟩ := Exact.bind afterId
  obtain ⟨delegate, _, rfl, afterDelegate⟩ := Exact.bind afterOwner
  obtain ⟨nonce, _, rfl, afterNonce⟩ := Exact.bind afterDelegate
  obtain ⟨dataHash, _, rfl, afterData⟩ := Exact.bind afterNonce
  obtain ⟨creatorHash, _, rfl, afterCreator⟩ := Exact.bind afterData
  obtain ⟨leafHash, _, rfl, done⟩ := Exact.bind afterCreator
  cases done
  simp [encode]

instance : Exact LeafSchema where
  taken {input rest s} read := by
    cases input with
    | nil => cases read
    | cons version body =>
      by_cases zero : version = 0
      · subst zero
        exact eq_encode_of_fields read
      · rw [decode_cons_of_ne zero] at read
        cases read

theorem length_encode (s : LeafSchema) : (encode s).length = 201 := by
  have leafId := fillsWidth_bytes32.length s.leafId
  have owner := fillsWidth_bytes32.length s.owner
  have delegate := fillsWidth_bytes32.length s.delegate
  have nonce := fillsWidth_uint64.length s.nonce
  have dataHash := fillsWidth_bytes32.length s.dataHash
  have creatorHash := fillsWidth_bytes32.length s.creatorHash
  have leafHash := fillsWidth_bytes32.length s.leafHash
  change (0 :: _ ++ _ ++ _ ++ _ ++ _ ++ _ ++ _ : Bytes).length = 201
  simp only [List.length_append, List.length_cons]
  omega

/-- Any two hundred bytes behind a version of zero are the fields of a leaf. -/
theorem exists_encode (size : body.length = 200) : ∃ s : LeafSchema, encode s = 0 :: body := by
  obtain ⟨first, _, rfl, h₁, size⟩ := Bytes.exists_parts 32 168 size
  obtain ⟨second, _, rfl, h₂, size⟩ := Bytes.exists_parts 32 136 size
  obtain ⟨third, _, rfl, h₃, size⟩ := Bytes.exists_parts 32 104 size
  obtain ⟨fourth, _, rfl, h₄, size⟩ := Bytes.exists_parts 8 96 size
  obtain ⟨fifth, _, rfl, h₅, size⟩ := Bytes.exists_parts 32 64 size
  obtain ⟨sixth, seventh, rfl, h₆, h₇⟩ := Bytes.exists_parts 32 32 size
  obtain ⟨leafId, rfl⟩ := fillsWidth_bytes32.filled first h₁
  obtain ⟨owner, rfl⟩ := fillsWidth_bytes32.filled second h₂
  obtain ⟨delegate, rfl⟩ := fillsWidth_bytes32.filled third h₃
  obtain ⟨nonce, rfl⟩ := fillsWidth_uint64.filled fourth h₄
  obtain ⟨dataHash, rfl⟩ := fillsWidth_bytes32.filled fifth h₅
  obtain ⟨creatorHash, rfl⟩ := fillsWidth_bytes32.filled sixth h₆
  obtain ⟨leafHash, rfl⟩ := fillsWidth_bytes32.filled seventh h₇
  exact ⟨⟨leafId, owner, delegate, nonce, dataHash, creatorHash, leafHash⟩, by simp [encode]⟩

theorem exists_decode (enough : 200 ≤ body.length) :
    ∃ s rest, (decode : Reader LeafSchema) (0 :: body) = .ok (s, rest) := by
  have total : body.length = 200 + (body.length - 200) := by omega
  obtain ⟨front, rest, rfl, size, -⟩ := Bytes.exists_parts 200 _ total
  obtain ⟨s, written⟩ := exists_encode size
  refine ⟨s, rest, decode_eq_ok_iff.mpr ?_⟩
  rw [written, List.cons_append]

/-- Why a body is refused: its version is not zero, or it is too short. -/
theorem decode_eq_error_iff :
    (decode : Reader LeafSchema) body = .error fault ↔
      (∃ version, body.head? = some version ∧ version ≠ 0 ∧ fault = .badTag version) ∨
      (∀ version, body.head? = some version → version = 0) ∧ body.length < 201 ∧
        fault = .truncated := by
  cases body with
  | nil =>
    have ends : (decode : Reader LeafSchema) [] = .error .truncated := rfl
    simp [ends, eq_comm]
  | cons version body =>
    by_cases zero : version = 0
    · subst zero
      simp only [List.head?_cons, Option.some.injEq, List.length_cons]
      constructor
      · intro failed
        refine Or.inr ⟨fun _ same => same.symm, ?_, onlyTruncates_fields body fault failed⟩
        by_contra enough
        obtain ⟨s, rest, read⟩ := exists_decode (show 200 ≤ body.length by omega)
        cases failed.symm.trans read
      · rintro (⟨version, rfl, other, -⟩ | ⟨-, short, rfl⟩)
        · exact absurd rfl other
        · cases read : (decode : Reader LeafSchema) (0 :: body) with
          | error fault => rw [onlyTruncates_fields body fault read]
          | ok p =>
            have length := congrArg List.length (Exact.taken read)
            rw [List.length_append, length_encode, List.length_cons] at length
            omega
    · rw [decode_cons_of_ne zero]
      simp [zero, eq_comm]

theorem isEmission_iff : isEmission data = true ↔ tag <+: data := by
  rw [isEmission, Bytes.window?, beq_iff_eq, Option.ite_none_right_eq_some, Option.some.injEq,
    List.drop_zero, Nat.zero_add, List.prefix_iff_eq_take]
  constructor
  · rintro ⟨-, same⟩
    exact same.symm
  · intro same
    have length := congrArg List.length same
    rw [List.length_take] at length
    exact ⟨by omega, same.symm⟩

theorem ofEmission_append (body : Bytes) :
    ofEmission (tag ++ body) =
      match (decode : Reader LeafSchema) body with
      | .ok (schema, _) => .ok (some schema)
      | .error fault => .error (.malformedLeafSchema fault) := by
  have begins : isEmission (tag ++ body) = true := isEmission_iff.mpr (List.prefix_append _ _)
  rewrite [ofEmission, if_pos begins, List.drop_left]
  cases (decode : Reader LeafSchema) body <;> rfl

theorem ofEmission_eq_none_iff : ofEmission data = .ok none ↔ ¬tag <+: data := by
  constructor
  · rintro silent ⟨body, rfl⟩
    rw [ofEmission_append] at silent
    split at silent <;> cases silent
  · intro other
    rw [ofEmission, if_neg fun begins => other (isEmission_iff.mp begins)]

theorem ofEmission_eq_some_iff :
    ofEmission data = .ok (some s) ↔ ∃ rest, data = s.emission ++ rest := by
  constructor
  · intro announced
    have begins : tag <+: data := by
      by_contra other
      cases announced.symm.trans (ofEmission_eq_none_iff.mpr other)
    obtain ⟨body, rfl⟩ := begins
    rw [ofEmission_append] at announced
    split at announced
    next schema rest read =>
      cases announced
      exact ⟨rest, by rw [Exact.taken read, emission, List.append_assoc]⟩
    next => cases announced
  · rintro ⟨rest, rfl⟩
    exact ofEmission_emission s rest

theorem ofEmission_append_eq_error_iff {error : Error} :
    ofEmission (tag ++ body) = .error error ↔
      ∃ fault, (decode : Reader LeafSchema) body = .error fault ∧
        error = .malformedLeafSchema fault := by
  rw [ofEmission_append]
  cases (decode : Reader LeafSchema) body with
  | error fault => simp [eq_comm]
  | ok p => simp

/-- Data without the tag announce nothing. A leaf is announced by its fields in their order behind
the tag and a version of zero, which are as long as the tag says, and anything may follow. All other
data are malformed: for the version if it is not zero, and for their length otherwise. -/
theorem ofEmission_parts (data : Bytes) :
    (ofEmission data = .ok none ↔ ¬tag <+: data) ∧
    (∀ s : LeafSchema,
      let written := tag ++ [0] ++ s.leafId.toBytes ++ s.owner.toBytes ++ s.delegate.toBytes ++
        Bytes.ofNatLE 8 s.nonce.toNat ++ s.dataHash.toBytes ++ s.creatorHash.toBytes ++
        s.leafHash.toBytes
      written.length = 209 ∧ written.length = 6 + Bytes.toNatLE ((tag.drop 2).take 4) ∧
      (ofEmission data = .ok (some s) ↔ ∃ rest, data = written ++ rest)) ∧
    ∀ error, ofEmission data = .error error ↔ tag <+: data ∧
      ((∃ version, data[8]? = some version ∧ version ≠ 0 ∧
          error = .malformedLeafSchema (.badTag version)) ∨
        (∀ version, data[8]? = some version → version = 0) ∧ data.length < 209 ∧
          error = .malformedLeafSchema .truncated) := by
  refine ⟨ofEmission_eq_none_iff, ?_, ?_⟩
  · intro s written
    have layout : written = s.emission := by
      simp [written, emission, encode]
    have length : written.length = 209 := by
      rw [layout, emission, List.length_append, length_encode]
      rfl
    refine ⟨length, length, ?_⟩
    rw [layout]
    exact ofEmission_eq_some_iff
  · intro error
    by_cases begins : tag <+: data
    · obtain ⟨body, rfl⟩ := begins
      have version : (tag ++ body)[8]? = body.head? := by
        rw [List.head?_eq_getElem?]
        exact List.getElem?_append_right (Nat.le_refl _)
      have length : (tag ++ body).length = 8 + body.length := List.length_append
      rw [ofEmission_append_eq_error_iff, version, length]
      constructor
      · rintro ⟨fault, failed, rfl⟩
        refine ⟨List.prefix_append _ _, ?_⟩
        rcases decode_eq_error_iff.mp failed with ⟨v, hv, other, rfl⟩ | ⟨zero, short, rfl⟩
        · exact Or.inl ⟨v, hv, other, rfl⟩
        · exact Or.inr ⟨zero, by omega, rfl⟩
      · rintro ⟨-, ⟨v, hv, other, rfl⟩ | ⟨zero, short, rfl⟩⟩
        · exact ⟨_, decode_eq_error_iff.mpr (Or.inl ⟨v, hv, other, rfl⟩), rfl⟩
        · exact ⟨_, decode_eq_error_iff.mpr (Or.inr ⟨zero, by omega, rfl⟩), rfl⟩
    · refine iff_of_false ?_ fun refused => begins refused.1
      rw [ofEmission_eq_none_iff.mpr begins]
      simp

/-- The version decides before the length does. -/
example : ofEmission (tag ++ [1]) = .error (.malformedLeafSchema (.badTag 1)) := by
  rfl

end LeafSchema

end LeafLedger
