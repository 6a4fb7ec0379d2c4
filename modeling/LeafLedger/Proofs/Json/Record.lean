import LeafLedger.Json.Record
import LeafLedger.Proofs.Except

namespace LeafLedger.Json

/-- The values that stand under a name in an object. -/
def valuesOf (fields : List (String × Json)) (name : String) : List Json :=
  (fields.filter (·.1 == name)).map (·.2)

/-- One value stands under a name, and something holds of it. -/
def Has (fields : List (String × Json)) (name : String) (p : Json → Prop) : Prop :=
  ∃ value, valuesOf fields name = [value] ∧ p value

/-- Either one value stands under a name and something holds of it, or none does and something else
holds. -/
def HasOrLacks (fields : List (String × Json)) (name : String) (p : Json → Prop) (absent : Prop) :
    Prop :=
  Has fields name p ∨ valuesOf fields name = [] ∧ absent

section Fields

variable {fields : List (String × Json)} {name : String} {p q : Json → Prop}
variable {absent absent' : Prop}

theorem lookup_eq_head? (fields : List (String × Json)) (name : String) :
    fields.lookup name = (valuesOf fields name).head? := by
  induction fields with
  | nil => rfl
  | cons field fields ih =>
    obtain ⟨other, value⟩ := field
    by_cases same : other = name
    · simp [valuesOf, same]
    · have differ : (name == other) = false := by simpa using Ne.symm same
      simpa [valuesOf, List.lookup_cons, same, differ] using ih

theorem length_valuesOf (fields : List (String × Json)) (name : String) :
    (valuesOf fields name).length = fields.countP (·.1 == name) := by
  rw [valuesOf, List.length_map, List.countP_eq_length_filter]

theorem Has.mono (has : Has fields name p) (weaker : ∀ value, p value → q value) :
    Has fields name q := by
  obtain ⟨value, only, holds⟩ := has
  exact ⟨value, only, weaker value holds⟩

theorem Has.any (has : Has fields name p) : Has fields name fun _ => True :=
  has.mono fun _ _ => trivial

theorem Has.length_le (has : Has fields name p) : (valuesOf fields name).length ≤ 1 := by
  obtain ⟨value, only, _⟩ := has
  rw [only]
  exact Nat.le_refl 1

theorem HasOrLacks.mono (has : HasOrLacks fields name p absent)
    (weaker : ∀ value, p value → q value) (kept : absent → absent') :
    HasOrLacks fields name q absent' :=
  has.imp (·.mono weaker) fun ⟨lacks, here⟩ => ⟨lacks, kept here⟩

theorem HasOrLacks.has (has : HasOrLacks fields name p absent) (needed : ¬ absent) :
    Has fields name p :=
  has.resolve_right fun ⟨_, here⟩ => needed here

theorem HasOrLacks.length_le (has : HasOrLacks fields name p absent) :
    (valuesOf fields name).length ≤ 1 := by
  rcases has with has | ⟨lacks, _⟩
  · exact has.length_le
  · rw [lacks]
    exact Nat.zero_le 1

end Fields

section Reading

variable {α : Type} {fields : List (String × Json)} {name : String} {form : Form α} {a : α}

theorem valuesOf_cases (single : (valuesOf fields name).length ≤ 1) :
    valuesOf fields name = [] ∨ ∃ value, valuesOf fields name = [value] := by
  match found : valuesOf fields name with
  | [] => exact Or.inl rfl
  | [value] => exact Or.inr ⟨value, rfl⟩
  | _ :: _ :: _ => simp [found] at single

theorem take_required_iff (single : (valuesOf fields name).length ≤ 1) :
    (Field.required name form).take (namedSlots fields) = .ok a ↔
      Has fields name (form.ofJson · = .ok a) := by
  rcases valuesOf_cases single with lacks | ⟨value, only⟩
  · simp [Field.take, Field.required, namedSlots, lookup_eq_head?, Has, lacks]
  · simp [Field.take, Field.required, namedSlots, lookup_eq_head?, Has, only]

theorem take_orDefault_iff {default : α} (single : (valuesOf fields name).length ≤ 1) :
    (Field.orDefault name default form).take (namedSlots fields) = .ok a ↔
      HasOrLacks fields name (form.ofJson · = .ok a) (a = default) := by
  rcases valuesOf_cases single with lacks | ⟨value, only⟩
  · simp [Field.take, Field.orDefault, namedSlots, lookup_eq_head?, HasOrLacks, Has, lacks, eq_comm]
  · simp [Field.take, Field.orDefault, namedSlots, lookup_eq_head?, HasOrLacks, Has, only]

/-- An object is read as a record exactly if no field is repeated and the record can be built from
what is under the names. -/
theorem record_object_eq_ok_iff {title : String} {entries : List Entry}
    {build : (String → Slot) → Except Cause α} :
    (Form.record title entries build).ofJson (.object fields) = .ok a ↔
      (∀ entry ∈ entries, (valuesOf fields entry.name).length ≤ 1) ∧
        build (namedSlots fields) = .ok a := by
  simp only [Form.record, length_valuesOf]
  split
  next entry found =>
    have repeated := List.find?_some found
    have mem := List.mem_of_find?_eq_some found
    simp only [decide_eq_true_eq] at repeated
    exact ⟨nofun, fun ⟨single, _⟩ => absurd (single entry mem) (Nat.not_le.mpr repeated)⟩
  next none =>
    have single := List.find?_eq_none.mp none
    simp only [decide_eq_true_eq, Nat.not_lt] at single
    exact ⟨fun built => ⟨single, built⟩, fun ⟨_, built⟩ => built⟩

end Reading

section Basic

variable {value : Json}

theorem string_eq_ok_iff {s : String} : Form.string.ofJson value = .ok s ↔ value = .string s := by
  cases value <;> simp [Form.string, mismatch]

theorem integer_eq_ok_iff {low high n : Int} {expected : String} :
    (Form.integer low high expected).ofJson value = .ok n ↔
      value = .number (.integer n) ∧ low ≤ n ∧ n < high := by
  unfold Form.integer Form.readInteger
  dsimp only
  split
  next m =>
    by_cases within : low ≤ m ∧ m < high
    · simp only [within, and_self, if_true, Except.ok.injEq, Json.number.injEq,
        Number.integer.injEq]
      exact ⟨fun same => same ▸ ⟨rfl, within⟩, fun ⟨same, _⟩ => same⟩
    · simp only [within, if_false, reduceCtorEq, Json.number.injEq, Number.integer.injEq, false_iff]
      rintro ⟨rfl, inside⟩
      exact within inside
  next other =>
    simp only [mismatch, reduceCtorEq, false_iff]
    rintro ⟨rfl, _⟩
    exact other n rfl

/-- Numbers of a given width stand for themselves, and nothing else is read as one. -/
theorem word_eq_ok_iff {α : Type} {size : Nat} {ofNat : Nat → α} {toNat : α → Nat}
    {expected : String} {a : α} (back : ∀ a, ofNat (toNat a) = a) (below : ∀ a, toNat a < size)
    (forth : ∀ n < size, toNat (ofNat n) = n) :
    ((Form.integer 0 size expected).map fun n => ofNat n.toNat).ofJson value = .ok a ↔
      value = .ofNat (toNat a) := by
  constructor
  · intro read
    cases found : (Form.integer 0 size expected).ofJson value with
    | error cause => simp [Form.map, found, Except.map] at read
    | ok n =>
      simp only [Form.map, found, Except.map, Except.ok.injEq] at read
      obtain ⟨rfl, low, high⟩ := integer_eq_ok_iff.mp found
      rw [← read, forth _ (by omega), Json.ofNat, Int.toNat_of_nonneg low]
  · rintro rfl
    have read : (Form.integer 0 size expected).ofJson (.ofNat (toNat a)) = .ok (toNat a : Int) :=
      integer_eq_ok_iff.mpr ⟨rfl, Int.natCast_nonneg _, Int.ofNat_lt.mpr (below a)⟩
    simp only [Form.map, read, Except.map, Int.toNat_natCast, back]

theorem uint8_eq_ok_iff {n : UInt8} : Form.uint8.ofJson value = .ok n ↔ value = .ofNat n.toNat :=
  word_eq_ok_iff (fun _ => UInt8.ofNat_toNat) UInt8.toNat_lt_size
    fun _ below => UInt8.toNat_ofNat_of_lt' below

theorem uint64_eq_ok_iff {n : UInt64} :
    Form.uint64.ofJson value = .ok n ↔ value = .ofNat n.toNat :=
  word_eq_ok_iff (fun _ => UInt64.ofNat_toNat) UInt64.toNat_lt_size
    fun _ below => UInt64.toNat_ofNat_of_lt' below

theorem list_eq_ok_iff {α : Type} {item : Form α} {as : List α} :
    (Form.list item).ofJson value = .ok as ↔
      ∃ items, value = .array items ∧ List.Forall₂ (item.ofJson · = .ok ·) items as := by
  rcases value with _ | _ | _ | _ | items | _
  all_goals simp [Form.list, mismatch, mapM_eq_ok_iff]

end Basic

end LeafLedger.Json
