import LeafLedger.Proofs.Json.Record

namespace LeafLedger.Json

/-- A step from a value into one of its parts. -/
inductive Step
  | field (name : String)
  | item (k : Nat)

/-- The part of a value at the end of some steps. -/
def part? : List Step → Json → Option Json
  | [], value => some value
  | .field name :: steps, .object fields => (fields.lookup name).bind (part? steps)
  | .item k :: steps, .array items => items[k]?.bind (part? steps)
  | _ :: _, _ => none

/-- The fields of an object with the values under a name changed. -/
def changeField (name : String) (f : Json → Json) (fields : List (String × Json)) :
    List (String × Json) :=
  fields.map fun field => if field.1 = name then (field.1, f field.2) else field

/-- A value with the part at the end of some steps changed. -/
def change (f : Json → Json) : List Step → Json → Json
  | [], value => f value
  | .field name :: steps, .object fields => .object (changeField name (change f steps) fields)
  | .item k :: steps, .array items => .array (items.modify k (change f steps))
  | _ :: _, value => value

/-- An object without the fields of a name. -/
def without (name : String) : Json → Json
  | .object fields => .object (fields.filter (·.1 != name))
  | value => value

/-- An object with one value under a name, whatever there was before. -/
def giving (name : String) (new : Json) : Json → Json
  | .object fields => .object ((name, new) :: fields.filter (·.1 != name))
  | value => value

/-- The same values stand under all names but one. -/
def AgreeBut (name : String) (fields fields' : List (String × Json)) : Prop :=
  ∀ other, other ≠ name → valuesOf fields' other = valuesOf fields other

/-- A change of objects that takes away what stands under a name or puts a given value in its
place. -/
def Clears (name : String) (blank : Json) (f : Json → Json) : Prop :=
  ∀ fields, ∃ fields', f (.object fields) = .object fields' ∧ AgreeBut name fields fields' ∧
    HasOrLacks fields' name (· = blank) True

section Fields

variable {fields fields' : List (String × Json)} {name other : String} {p q : Json → Prop}
variable {absent absent' : Prop}

theorem valuesOf_filter_self (fields : List (String × Json)) (name : String) :
    valuesOf (fields.filter (·.1 != name)) name = [] := by
  simp [valuesOf, List.filter_filter]

theorem valuesOf_filter_of_ne (differ : other ≠ name) :
    valuesOf (fields.filter (·.1 != name)) other = valuesOf fields other := by
  have implied : ∀ field : String × Json,
      (field.1 == other && field.1 != name) = (field.1 == other) := by
    intro field
    by_cases same : field.1 = other
    · simp [same, differ]
    · simp [same]
  simp [valuesOf, List.filter_filter, implied]

theorem valuesOf_cons_self (value : Json) :
    valuesOf ((name, value) :: fields) name = value :: valuesOf fields name := by
  simp [valuesOf]

theorem valuesOf_cons_of_ne (differ : other ≠ name) (value : Json) :
    valuesOf ((name, value) :: fields) other = valuesOf fields other := by
  simp [valuesOf, Ne.symm differ]

theorem valuesOf_changeField_self (f : Json → Json) :
    valuesOf (changeField name f fields) name = (valuesOf fields name).map f := by
  induction fields with
  | nil => rfl
  | cons field fields ih =>
    obtain ⟨first, value⟩ := field
    rw [changeField, List.map_cons, ← changeField]
    by_cases same : first = name
    · subst same
      rw [if_pos rfl, valuesOf_cons_self, valuesOf_cons_self, ih, List.map_cons]
    · rw [if_neg same, valuesOf_cons_of_ne (Ne.symm same), valuesOf_cons_of_ne (Ne.symm same), ih]

theorem valuesOf_changeField_of_ne (differ : other ≠ name) (f : Json → Json) :
    valuesOf (changeField name f fields) other = valuesOf fields other := by
  induction fields with
  | nil => rfl
  | cons field fields ih =>
    obtain ⟨first, value⟩ := field
    rw [changeField, List.map_cons, ← changeField]
    by_cases same : first = name
    · subst same
      rw [if_pos rfl, valuesOf_cons_of_ne differ, valuesOf_cons_of_ne differ, ih]
    · rw [if_neg same]
      by_cases here : other = first
      · subst here
        rw [valuesOf_cons_self, valuesOf_cons_self, ih]
      · rw [valuesOf_cons_of_ne here, valuesOf_cons_of_ne here, ih]

theorem agreeBut_filter (fields : List (String × Json)) (name : String) :
    AgreeBut name fields (fields.filter (·.1 != name)) :=
  fun _ => valuesOf_filter_of_ne

theorem agreeBut_giving (fields : List (String × Json)) (name : String) (new : Json) :
    AgreeBut name fields ((name, new) :: fields.filter (·.1 != name)) :=
  fun _ differ => (valuesOf_cons_of_ne differ new).trans (valuesOf_filter_of_ne differ)

theorem agreeBut_changeField (fields : List (String × Json)) (name : String) (f : Json → Json) :
    AgreeBut name fields (changeField name f fields) :=
  fun _ differ => valuesOf_changeField_of_ne differ f

theorem Has.of_agreeBut (has : Has fields other p) (agree : AgreeBut name fields fields')
    (differ : other ≠ name) : Has fields' other p := by
  rwa [Has, agree other differ]

theorem HasOrLacks.of_agreeBut (has : HasOrLacks fields other p absent)
    (agree : AgreeBut name fields fields') (differ : other ≠ name) :
    HasOrLacks fields' other p absent := by
  rwa [HasOrLacks, Has, agree other differ]

theorem clears_without (name : String) (blank : Json) : Clears name blank (without name) :=
  fun fields => ⟨_, rfl, agreeBut_filter fields name,
    Or.inr ⟨valuesOf_filter_self fields name, trivial⟩⟩

theorem clears_giving (name : String) (blank : Json) : Clears name blank (giving name blank) :=
  fun fields => ⟨_, rfl, agreeBut_giving fields name blank,
    Or.inl ⟨blank, by rw [valuesOf_cons_self, valuesOf_filter_self], rfl⟩⟩

theorem HasOrLacks.changeField {f : Json → Json} (has : HasOrLacks fields name p absent)
    (changed : ∀ value, p value → q (f value)) (kept : absent → absent') :
    HasOrLacks (changeField name f fields) name q absent' := by
  rw [HasOrLacks, Has, valuesOf_changeField_self]
  rcases has with ⟨value, only, holds⟩ | ⟨lacks, here⟩
  · exact Or.inl ⟨f value, by rw [only, List.map_singleton], changed value holds⟩
  · exact Or.inr ⟨by rw [lacks, List.map_nil], kept here⟩

end Fields

section Steps

variable {f : Json → Json} {value part : Json} {steps later : List Step}

theorem part?_append (steps later : List Step) (value : Json) :
    part? (steps ++ later) value = (part? steps value).bind (part? later) := by
  induction steps generalizing value with
  | nil => rfl
  | cons step steps ih =>
    cases step with
    | field name =>
      cases value with
      | object fields =>
        simp only [List.cons_append, part?, Option.bind_assoc]
        exact congrArg _ (funext ih)
      | _ => rfl
    | item k =>
      cases value with
      | array items =>
        simp only [List.cons_append, part?, Option.bind_assoc]
        exact congrArg _ (funext ih)
      | _ => rfl

theorem part?_append_of_eq_some {further : Json} (here : part? steps value = some part)
    (there : part? later part = some further) : part? (steps ++ later) value = some further := by
  rw [part?_append, here, Option.bind_some, there]

theorem part?_change (f : Json → Json) (steps : List Step) (value : Json) :
    part? steps (change f steps value) = (part? steps value).map f := by
  induction steps generalizing value with
  | nil => rfl
  | cons step steps ih =>
    cases step with
    | field name =>
      cases value with
      | object fields =>
        simp only [change, part?, lookup_eq_head?, valuesOf_changeField_self, List.head?_map]
        cases (valuesOf fields name).head? with
        | none => rfl
        | some value => exact ih value
      | _ => rfl
    | item k =>
      cases value with
      | array items =>
        simp only [change, part?, List.getElem?_modify_eq]
        cases items[k]? with
        | none => rfl
        | some value => exact ih value
      | _ => rfl

theorem Has.exists_part {fields : List (String × Json)} {name : String} {p : Json → Prop}
    (has : Has fields name p) (steps : List Step) :
    ∃ part, part? (.field name :: steps) (.object fields) = part? steps part ∧ p part := by
  obtain ⟨part, only, holds⟩ := has
  refine ⟨part, ?_, holds⟩
  rw [part?, lookup_eq_head?, only, List.head?_cons, Option.bind_some]

end Steps

namespace Form

variable {α β γ : Type} {outer : Form α} {mid : Form β} {inner : Form γ}
variable {steps later : List Step} {name : String}

/-- A form accepts the values that it reads. -/
def Accepts (form : Form α) (value : Json) : Prop :=
  ∃ a, form.ofJson value = .ok a

/-- In all that the outer form accepts, the inner form accepts what is at the end of some steps. -/
def Inside (outer : Form α) (steps : List Step) (inner : Form β) : Prop :=
  ∀ value part, outer.Accepts value → part? steps value = some part → inner.Accepts part

theorem Inside.append (first : Inside outer steps mid) (second : Inside mid later inner) :
    Inside outer (steps ++ later) inner := by
  intro value part accepted found
  rw [part?_append] at found
  obtain ⟨between, here, there⟩ := Option.bind_eq_some_iff.mp found
  exact second between part (first value between accepted here) there

theorem inside_list (item : Form α) (k : Nat) : Inside (.list item) [.item k] item := by
  rintro value part ⟨as, read⟩ found
  obtain ⟨items, rfl, each⟩ := list_eq_ok_iff.mp read
  rw [part?, Option.bind_eq_some_iff] at found
  obtain ⟨here, position, same⟩ := found
  cases same
  have mem := List.mem_of_getElem? position
  clear read position
  induction each with
  | nil => cases mem
  | cons first _ ih =>
    rcases List.mem_cons.mp mem with rfl | later
    · exact ⟨_, first⟩
    · exact ih later

section Accepted

variable {fields : List (String × Json)} {b : β} {absent : Prop}

theorem accepted_of_hasOrLacks (has : HasOrLacks fields name (mid.ofJson · = .ok b) absent) :
    HasOrLacks fields name mid.Accepts True :=
  has.mono (fun _ read => ⟨b, read⟩) fun _ => trivial

theorem accepted_of_has (has : Has fields name (mid.ofJson · = .ok b)) :
    HasOrLacks fields name mid.Accepts True :=
  Or.inl (has.mono fun _ read => ⟨b, read⟩)

end Accepted

/-- The value of a field is accepted by the form of the field. -/
theorem inside_field
    (reads : ∀ fields a, outer.ofJson (.object fields) = .ok a →
      HasOrLacks fields name inner.Accepts True) : Inside outer [.field name] inner := by
  rintro value part ⟨a, read⟩ found
  cases value with
  | object fields =>
    rw [part?, Option.bind_eq_some_iff] at found
    obtain ⟨here, named, same⟩ := found
    cases same
    rw [lookup_eq_head?] at named
    rcases reads fields a read with ⟨value, only, accepted⟩ | ⟨lacks, _⟩
    · rw [only] at named
      cases named
      exact accepted
    · rw [lacks] at named
      cases named
  | _ => cases found

theorem not_accepts_uint8 {new : Json} (outside : ∀ n < UInt8.size, new ≠ .ofNat n) :
    ¬ Form.uint8.Accepts new :=
  fun ⟨n, read⟩ => outside n.toNat n.toNat_lt_size (uint8_eq_ok_iff.mp read)

theorem not_accepts_uint64 {new : Json} (outside : ∀ n < UInt64.size, new ≠ .ofNat n) :
    ¬ Form.uint64.Accepts new :=
  fun ⟨n, read⟩ => outside n.toNat n.toNat_lt_size (uint64_eq_ok_iff.mp read)

/-- A form asks for a field if the objects that it accepts have it. -/
def Asks (form : Form α) (name : String) : Prop :=
  ∀ fields, form.Accepts (.object fields) → Has fields name fun _ => True

theorem Asks.not_accepts_without (asks : outer.Asks name) (fields : List (String × Json)) :
    ¬ outer.Accepts (without name (.object fields)) := by
  intro accepted
  obtain ⟨value, only, _⟩ := asks _ accepted
  rw [valuesOf_filter_self] at only
  cases only

/-- A value is refused if one of its parts is changed into what its form refuses. -/
theorem Inside.refuses (inside : Inside outer steps inner) {value part : Json} {f : Json → Json}
    (there : part? steps value = some part) (refused : ¬ inner.Accepts (f part)) :
    ¬ outer.Accepts (change f steps value) := by
  intro accepted
  refine refused (inside _ _ accepted ?_)
  rw [part?_change, there]
  rfl

end Form

end LeafLedger.Json
