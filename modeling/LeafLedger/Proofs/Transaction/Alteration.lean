import LeafLedger.Proofs.Transaction.Json
import LeafLedger.Proofs.Transaction.Sites

namespace LeafLedger

open Json

def RawInstruction.needed : List String :=
  ["programIdIndex", "accounts", "data"]

def InnerGroup.needed : List String :=
  ["index", "instructions"]

def Transaction.needed : List String :=
  ["signature", "slot", "accountKeys", "instructions"]

section Asks

variable {name : String}

theorem RawInstruction.asks (asked : name ∈ needed) : form.Asks name := by
  rintro fields ⟨i, read⟩
  obtain ⟨programIndex, accounts, data⟩ := form_eq_ok_iff.mp read
  simp only [needed, List.mem_cons, List.not_mem_nil, or_false] at asked
  rcases asked with rfl | rfl | rfl
  · exact programIndex.any
  · exact accounts.any
  · exact data.any

theorem InnerGroup.asks (asked : name ∈ needed) : form.Asks name := by
  rintro fields ⟨g, read⟩
  obtain ⟨index, instructions⟩ := form_eq_ok_iff.mp read
  simp only [needed, List.mem_cons, List.not_mem_nil, or_false] at asked
  rcases asked with rfl | rfl
  · exact index.any
  · exact instructions.any

theorem Transaction.asks (asked : name ∈ needed) : form.Asks name := by
  rintro fields ⟨tx, read⟩
  obtain ⟨signature, slot, keys, _, instructions, _⟩ := form_eq_ok_iff.mp read
  simp only [needed, List.mem_cons, List.not_mem_nil, or_false] at asked
  rcases asked with rfl | rfl | rfl | rfl
  · exact signature.any
  · exact slot.any
  · exact keys.any
  · exact instructions.any

end Asks

/-- The way to the JSON object of the instruction at a site. -/
def Site.steps : Site → List Step
  | .top position => [.field "instructions", .item position]
  | .inner group index =>
    [.field "innerInstructions", .item group, .field "instructions", .item index]

theorem RawInstruction.inside_programIndex : form.Inside [.field "programIdIndex"] .uint8 := by
  refine Form.inside_field fun fields i read => ?_
  obtain ⟨programIndex, _, _⟩ := form_eq_ok_iff.mp read
  exact Form.accepted_of_has programIndex

theorem RawInstruction.inside_accounts : form.Inside [.field "accounts"] (.list .uint8) := by
  refine Form.inside_field fun fields i read => ?_
  obtain ⟨_, accounts, _⟩ := form_eq_ok_iff.mp read
  exact Form.accepted_of_has accounts

theorem RawInstruction.inside_account (k : Nat) : form.Inside [.field "accounts", .item k] .uint8 :=
  inside_accounts.append (Form.inside_list _ k)

theorem RawInstruction.DepictedBy.part_programIndex {i : RawInstruction} {value : Json}
    (depicted : i.DepictedBy value) :
    part? [.field "programIdIndex"] value = some (.ofNat i.programIndex.toNat) := by
  obtain ⟨programIndex, _, _⟩ := depicted
  obtain ⟨_, found, rfl⟩ := programIndex.exists_part []
  exact found

theorem RawInstruction.DepictedBy.part_account {i : RawInstruction} {value : Json} {k : Nat}
    {account : UInt8} (depicted : i.DepictedBy value) (member : i.accounts[k]? = some account) :
    part? [.field "accounts", .item k] value = some (.ofNat account.toNat) := by
  obtain ⟨_, accounts, _⟩ := depicted
  obtain ⟨_, found, rfl⟩ := accounts.exists_part [.item k]
  rw [found, ofList, part?, List.getElem?_map, member]
  rfl

theorem InnerGroup.inside_index : form.Inside [.field "index"] .uint8 := by
  refine Form.inside_field fun fields g read => ?_
  obtain ⟨index, _⟩ := form_eq_ok_iff.mp read
  exact Form.accepted_of_has index

theorem InnerGroup.inside_instructions :
    form.Inside [.field "instructions"] (.list RawInstruction.form) := by
  refine Form.inside_field fun fields g read => ?_
  obtain ⟨_, instructions⟩ := form_eq_ok_iff.mp read
  exact Form.accepted_of_has instructions

namespace Transaction

theorem inside_slot : form.Inside [.field "slot"] .uint64 := by
  refine Form.inside_field fun fields tx read => ?_
  obtain ⟨_, slot, _⟩ := form_eq_ok_iff.mp read
  exact Form.accepted_of_has slot

theorem inside_instructions :
    form.Inside [.field "instructions"] (.list RawInstruction.form) := by
  refine Form.inside_field fun fields tx read => ?_
  obtain ⟨_, _, _, _, instructions, _⟩ := form_eq_ok_iff.mp read
  exact Form.accepted_of_has instructions

theorem inside_inner : form.Inside [.field "innerInstructions"] (.list InnerGroup.form) := by
  refine Form.inside_field fun fields tx read => ?_
  obtain ⟨_, _, _, _, _, inner⟩ := form_eq_ok_iff.mp read
  exact Form.accepted_of_hasOrLacks inner

theorem inside_group (k : Nat) :
    form.Inside [.field "innerInstructions", .item k] InnerGroup.form :=
  inside_inner.append (Form.inside_list _ k)

theorem inside_site (site : Site) : form.Inside site.steps RawInstruction.form := by
  cases site with
  | top position => exact inside_instructions.append (Form.inside_list _ position)
  | inner group index =>
    exact (inside_group group).append
      (InnerGroup.inside_instructions.append (Form.inside_list _ index))

variable {tx : Transaction} {value : Json}

theorem DepictedBy.exists_group {k : Nat} {g : InnerGroup} (depicted : tx.DepictedBy value)
    (there : tx.inner[k]? = some g) (later : List Step) :
    ∃ part, part? (.field "innerInstructions" :: .item k :: later) value = part? later part ∧
      g.DepictedBy part := by
  obtain ⟨_, _, _, _, _, inner⟩ := depicted
  have given := inner.has fun none => by rw [none] at there; cases there
  obtain ⟨list, first, members⟩ := given.exists_part (.item k :: later)
  obtain ⟨part, second, object⟩ := members.exists_part there later
  exact ⟨part, first.trans second, object⟩

theorem DepictedBy.exists_instruction {site : Site} {i : RawInstruction}
    (depicted : tx.DepictedBy value) (there : tx.at? site = some i) :
    ∃ part, part? site.steps value = some part ∧ i.DepictedBy part := by
  cases site with
  | top position =>
    obtain ⟨_, _, _, _, instructions, _⟩ := depicted
    obtain ⟨list, first, members⟩ := instructions.exists_part [.item position]
    obtain ⟨part, second, object⟩ := members.exists_part there []
    exact ⟨part, first.trans second, object⟩
  | inner group index =>
    obtain ⟨g, here, there⟩ := Option.bind_eq_some_iff.mp there
    obtain ⟨between, first, _, instructions⟩ :=
      depicted.exists_group here [.field "instructions", .item index]
    obtain ⟨list, second, members⟩ := instructions.exists_part [.item index]
    obtain ⟨part, third, object⟩ := members.exists_part there []
    exact ⟨part, first.trans (second.trans third), object⟩

/-- The fields that the objects within the JSON object of a transaction need, with the ways to the
objects. -/
inductive Needs (tx : Transaction) : List Step → String → Prop
  | transaction {name : String} (asked : name ∈ needed) : Needs tx [] name
  | instruction {site : Site} {i : RawInstruction} {name : String} (there : tx.at? site = some i)
    (asked : name ∈ RawInstruction.needed) : Needs tx site.steps name
  | group {k : Nat} {g : InnerGroup} {name : String} (there : tx.inner[k]? = some g)
    (asked : name ∈ InnerGroup.needed) : Needs tx [.field "innerInstructions", .item k] name

/-- The ways to the numbers within the JSON object of a transaction, and the sizes that they stay
below. -/
inductive Bounds (tx : Transaction) : List Step → Nat → Prop
  | slot : Bounds tx [.field "slot"] UInt64.size
  | programIndex {site : Site} {i : RawInstruction} (there : tx.at? site = some i) :
    Bounds tx (site.steps ++ [.field "programIdIndex"]) UInt8.size
  | account {site : Site} {i : RawInstruction} {k : Nat} {account : UInt8}
    (there : tx.at? site = some i) (member : i.accounts[k]? = some account) :
    Bounds tx (site.steps ++ [.field "accounts", .item k]) UInt8.size
  | index {k : Nat} {g : InnerGroup} (there : tx.inner[k]? = some g) :
    Bounds tx [.field "innerInstructions", .item k, .field "index"] UInt8.size

theorem Needs.refuses {steps : List Step} {name : String} (needs : tx.Needs steps name)
    (depicted : tx.DepictedBy value) : ¬ form.Accepts (change (without name) steps value) := by
  cases needs with
  | transaction asked =>
    cases depicted with
    | object => exact (asks asked).not_accepts_without _
  | instruction there asked =>
    obtain ⟨part, found, object⟩ := depicted.exists_instruction there
    cases object with
    | object =>
      exact (inside_site _).refuses found ((RawInstruction.asks asked).not_accepts_without _)
  | group there asked =>
    obtain ⟨part, found, object⟩ := depicted.exists_group there []
    cases object with
    | object =>
      exact (inside_group _).refuses found ((InnerGroup.asks asked).not_accepts_without _)

theorem Bounds.refuses {steps : List Step} {size : Nat} {new : Json} (bounds : tx.Bounds steps size)
    (depicted : tx.DepictedBy value) (outside : ∀ n < size, new ≠ .ofNat n) :
    ¬ form.Accepts (change (fun _ => new) steps value) := by
  cases bounds with
  | slot =>
    obtain ⟨_, slot, _⟩ := depicted
    obtain ⟨part, found, _⟩ := slot.exists_part []
    exact inside_slot.refuses found (Form.not_accepts_uint64 outside)
  | programIndex there =>
    obtain ⟨part, found, object⟩ := depicted.exists_instruction there
    exact ((inside_site _).append RawInstruction.inside_programIndex).refuses
      (part?_append_of_eq_some found object.part_programIndex) (Form.not_accepts_uint8 outside)
  | account there member =>
    obtain ⟨part, found, object⟩ := depicted.exists_instruction there
    exact ((inside_site _).append (RawInstruction.inside_account _)).refuses
      (part?_append_of_eq_some found (object.part_account member)) (Form.not_accepts_uint8 outside)
  | index there =>
    obtain ⟨part, found, object⟩ := depicted.exists_group there [.field "index"]
    obtain ⟨index, _⟩ := object
    obtain ⟨number, further, _⟩ := index.exists_part []
    exact ((inside_group _).append InnerGroup.inside_index).refuses (found.trans further)
      (Form.not_accepts_uint8 outside)

end Transaction

section Spare

variable {fields fields' : List (String × Json)} {name : String} {blank : Json} {f : Json → Json}

namespace LoadedAddresses

variable {l : LoadedAddresses} {value : Json}

theorem DepictedBy.clear_writable (depicted : l.DepictedBy value)
    (clears : Clears "writable" (.array []) f) :
    DepictedBy { l with writable := [] } (f value) := by
  obtain @⟨fields, _, readonly⟩ := depicted
  obtain ⟨fields', cleared, agree, blank⟩ := clears fields
  rw [cleared]
  exact ⟨blank.mono (fun _ empty => empty) fun _ => rfl, readonly.of_agreeBut agree (by decide)⟩

theorem DepictedBy.clear_readonly (depicted : l.DepictedBy value)
    (clears : Clears "readonly" (.array []) f) :
    DepictedBy { l with readonly := [] } (f value) := by
  obtain @⟨fields, writable, _⟩ := depicted
  obtain ⟨fields', cleared, agree, blank⟩ := clears fields
  rw [cleared]
  exact ⟨writable.of_agreeBut agree (by decide), blank.mono (fun _ empty => empty) fun _ => rfl⟩

end LoadedAddresses

namespace Transaction

variable {tx : Transaction} {value : Json}

theorem DepictedBy.eq_object (depicted : tx.DepictedBy value) :
    ∃ fields, value = .object fields := by
  cases depicted
  exact ⟨_, rfl⟩

theorem DepictedBy.with_loaded (depicted : tx.DepictedBy (.object fields))
    (agree : AgreeBut "loadedAddresses" fields fields') {l : LoadedAddresses}
    (loaded : HasOrLacks fields' "loadedAddresses" l.DepictedBy (l = .empty)) :
    DepictedBy { tx with loaded := l } (.object fields') := by
  obtain ⟨signature, slot, keys, _, instructions, inner⟩ := depicted
  exact ⟨signature.of_agreeBut agree (by decide), slot.of_agreeBut agree (by decide),
    keys.of_agreeBut agree (by decide), loaded, instructions.of_agreeBut agree (by decide),
    inner.of_agreeBut agree (by decide)⟩

theorem DepictedBy.clear_loaded (depicted : tx.DepictedBy value)
    (empty : LoadedAddresses.empty.DepictedBy blank) (clears : Clears "loadedAddresses" blank f) :
    DepictedBy { tx with loaded := .empty } (f value) := by
  obtain ⟨fields, rfl⟩ := depicted.eq_object
  obtain ⟨fields', cleared, agree, blank⟩ := clears fields
  rw [cleared]
  exact depicted.with_loaded agree (blank.mono (fun _ same => same ▸ empty) fun _ => rfl)

theorem DepictedBy.clear_inner (depicted : tx.DepictedBy value)
    (clears : Clears "innerInstructions" (.array []) f) :
    DepictedBy { tx with inner := [] } (f value) := by
  obtain @⟨fields, signature, slot, keys, loaded, instructions, _⟩ := depicted
  obtain ⟨fields', cleared, agree, blank⟩ := clears fields
  rw [cleared]
  exact ⟨signature.of_agreeBut agree (by decide), slot.of_agreeBut agree (by decide),
    keys.of_agreeBut agree (by decide), loaded.of_agreeBut agree (by decide),
    instructions.of_agreeBut agree (by decide),
    blank.mono (fun _ empty => ⟨[], empty, .nil⟩) fun _ => rfl⟩

/-- A change to the loaded addresses, which there may be none of. -/
theorem DepictedBy.change_loaded (depicted : tx.DepictedBy value) {l : LoadedAddresses}
    (changed : ∀ part, tx.loaded.DepictedBy part → l.DepictedBy (f part))
    (kept : tx.loaded = .empty → l = .empty) :
    DepictedBy { tx with loaded := l } (change f [.field "loadedAddresses"] value) := by
  obtain ⟨fields, rfl⟩ := depicted.eq_object
  refine depicted.with_loaded (agreeBut_changeField fields _ _) ?_
  obtain ⟨_, _, _, loaded, _, _⟩ := depicted
  exact loaded.changeField changed kept

/-- The fields that may be left out of the JSON object of a transaction, with the ways to the
objects that have them, values that are as good as none, and the transaction without what stands
there. -/
inductive Spares (tx : Transaction) : List Step → String → Json → Transaction → Prop
  | loaded {blank : Json} (empty : LoadedAddresses.empty.DepictedBy blank) :
    Spares tx [] "loadedAddresses" blank { tx with loaded := .empty }
  | writable : Spares tx [.field "loadedAddresses"] "writable" (.array [])
      { tx with loaded := { tx.loaded with writable := [] } }
  | readonly : Spares tx [.field "loadedAddresses"] "readonly" (.array [])
      { tx with loaded := { tx.loaded with readonly := [] } }
  | inner : Spares tx [] "innerInstructions" (.array []) { tx with inner := [] }

theorem Spares.depictedBy_change {steps : List Step} {emptied : Transaction}
    (spares : tx.Spares steps name blank emptied) (depicted : tx.DepictedBy value)
    (clears : Clears name blank f) : emptied.DepictedBy (change f steps value) := by
  cases spares with
  | loaded empty => exact depicted.clear_loaded empty clears
  | writable =>
    exact depicted.change_loaded (fun _ loaded => loaded.clear_writable clears)
      fun none => by rw [none]; rfl
  | readonly =>
    exact depicted.change_loaded (fun _ loaded => loaded.clear_readonly clears)
      fun none => by rw [none]; rfl
  | inner => exact depicted.clear_inner clears

theorem ofJson_of_reads (read : form.ofJson value = .ok tx) : ofJson value = .ok tx :=
  mapError_eq_ok_iff.mpr read

theorem exists_fault (refused : ¬ form.Accepts value) : ∃ fault, ofJson value = .error fault := by
  cases read : form.ofJson value with
  | ok tx => exact absurd ⟨tx, read⟩ refused
  | error cause => exact ⟨_, by rw [ofJson, read]; rfl⟩

/-- The object that is written for a transaction depicts it, and the transaction is read back from
whatever depicts it: with the fields in any order and among any others. To leave out the loaded
addresses, one of their two lists or the inner instructions is to give them empty. Without any other
field of any of the objects, and with anything but a number of the right width in the place of a
number, the whole is refused. -/
theorem ofJson_of_depictedBy :
    tx.DepictedBy tx.toJson ∧
    ∀ value, tx.DepictedBy value →
      ofJson value = .ok tx ∧
      (∀ steps name blank emptied, tx.Spares steps name blank emptied →
        ofJson (change (without name) steps value) = .ok emptied ∧
        ofJson (change (giving name blank) steps value) = .ok emptied) ∧
      (∀ steps name, tx.Needs steps name →
        ∃ fault, ofJson (change (without name) steps value) = .error fault) ∧
      ∀ steps size, tx.Bounds steps size → ∀ new, (∀ n < size, new ≠ .ofNat n) →
        ∃ fault, ofJson (change (fun _ => new) steps value) = .error fault := by
  refine ⟨tx.depictedBy_toJson, fun value depicted => ⟨?read, ?spare, ?needed, ?bounded⟩⟩
  case read =>
    exact ofJson_of_reads depicted.reads
  case spare =>
    intro steps name blank emptied spares
    exact ⟨ofJson_of_reads (spares.depictedBy_change depicted (clears_without name blank)).reads,
      ofJson_of_reads (spares.depictedBy_change depicted (clears_giving name blank)).reads⟩
  case needed =>
    intro steps name needs
    exact exists_fault (needs.refuses depicted)
  case bounded =>
    intro steps size bounds new outside
    exact exists_fault (bounds.refuses depicted outside)

/-- A call of one program with another call under it. -/
def sample : Transaction where
  signature := "s"
  slot := 42
  accountKeys := [⟨List.replicate 32 0, rfl⟩]
  loaded := .empty
  instructions := [⟨0, [0, 255], [1, 2, 3]⟩]
  inner := [⟨0, [⟨0, [], []⟩]⟩]

def sampleJson : Json :=
  .object [
    ("innerInstructions", .array [.object [
      ("instructions", .array [.object [
        ("data", .string ""), ("stackHeight", .ofNat 2), ("accounts", .array []),
        ("programIdIndex", .ofNat 0)]]),
      ("index", .ofNat 0)]]),
    ("blockTime", .null),
    ("accountKeys", .array [.string "11111111111111111111111111111111"]),
    ("instructions", .array [.object [
      ("accounts", .array [.ofNat 0, .ofNat 255]), ("data", .string "Ldp"),
      ("programIdIndex", .ofNat 0)]]),
    ("slot", .ofNat 42),
    ("signature", .string "s")]

theorem sample_depictedBy : sample.DepictedBy sampleJson := by
  have key : "11111111111111111111111111111111" = (⟨List.replicate 32 0, rfl⟩ : Address).text := by
    decide +kernel
  have data : "Ldp" = Base58.encode [1, 2, 3] := by decide +kernel
  have none : "" = Base58.encode [] := by decide +kernel
  refine ⟨⟨_, rfl, rfl⟩, ⟨_, rfl, rfl⟩, ⟨_, rfl, ?_⟩, Or.inr ⟨rfl, rfl⟩, ⟨_, rfl, _, rfl, ?_⟩,
    Or.inl ⟨_, rfl, _, rfl, ?_⟩⟩
  · rw [key]
    rfl
  · exact .cons ⟨⟨_, rfl, rfl⟩, ⟨_, rfl, rfl⟩, ⟨_, rfl, congrArg _ data⟩⟩ .nil
  · exact .cons ⟨⟨_, rfl, rfl⟩, ⟨_, rfl, _, rfl,
      .cons ⟨⟨_, rfl, rfl⟩, ⟨_, rfl, rfl⟩, ⟨_, rfl, congrArg _ none⟩⟩ .nil⟩⟩ .nil

theorem ofJson_of_depictedBy_sample :
    ofJson sampleJson = .ok sample ∧
      ofJson (change (without "innerInstructions") [] sampleJson) =
        .ok { sample with inner := [] } ∧
      (∃ fault, ofJson (change (without "data") (Site.inner 0 0).steps sampleJson) = .error fault) ∧
      ∃ fault, ofJson (change (fun _ => .ofNat 256)
        ((Site.top 0).steps ++ [.field "accounts", .item 1]) sampleJson) = .error fault := by
  obtain ⟨_, holds⟩ := @ofJson_of_depictedBy sample
  obtain ⟨read, spare, needed, bounded⟩ := holds sampleJson sample_depictedBy
  refine ⟨read, (spare _ _ _ _ .inner).1, needed _ _ (.instruction rfl (by decide)),
    bounded _ _ (.account rfl rfl) _ fun n below same => ?_⟩
  simp only [ofNat, Json.number.injEq, Number.integer.injEq, Int.natCast_inj] at same
  exact absurd below (by rw [← same]; decide)

end Transaction

end Spare

end LeafLedger
