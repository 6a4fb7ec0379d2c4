import LeafLedger.Proofs.Address
import LeafLedger.Proofs.Json.Parts

namespace LeafLedger

open Json

/-- An array whose members depict those of a list in order. -/
def Json.Members {α : Type} (depictedBy : α → Json → Prop) (as : List α) (value : Json) : Prop :=
  ∃ items, value = .array items ∧ List.Forall₂ depictedBy as items

theorem Json.Members.ofList {α : Type} {depictedBy : α → Json → Prop} {write : α → Json}
    (each : ∀ a, depictedBy a (write a)) (as : List α) : Members depictedBy as (.ofList write as) :=
  ⟨as.map write, rfl, List.forall₂_map_right_iff.mpr (List.forall₂_same.mpr fun a _ => each a)⟩

theorem Json.Members.exists_part {α : Type} {depictedBy : α → Json → Prop} {as : List α}
    {value : Json} {k : Nat} {a : α} (members : Members depictedBy as value)
    (there : as[k]? = some a) (steps : List Step) :
    ∃ part, part? (.item k :: steps) value = part? steps part ∧ depictedBy a part := by
  obtain ⟨items, rfl, same⟩ := members
  obtain ⟨length, each⟩ := List.forall₂_iff_get.mp same
  obtain ⟨inside, rfl⟩ := List.getElem?_eq_some_iff.mp there
  have alongside : k < items.length := length ▸ inside
  refine ⟨items[k], ?_, each k inside alongside⟩
  rw [part?, List.getElem?_eq_getElem alongside, Option.bind_some]

def addressesJson (keys : List Address) : Json :=
  .ofList (fun a => .string a.text) keys

/-- The objects that depict an instruction: each of its fields stands there once, wherever it is and
whatever else there is. -/
inductive RawInstruction.DepictedBy (i : RawInstruction) : Json → Prop
  | object {fields : List (String × Json)}
    (programIndex : Has fields "programIdIndex" (· = .ofNat i.programIndex.toNat))
    (accounts : Has fields "accounts" (· = .ofList (fun a => .ofNat a.toNat) i.accounts))
    (data : Has fields "data" (· = .string (Base58.encode i.data))) :
    DepictedBy i (.object fields)

inductive InnerGroup.DepictedBy (g : InnerGroup) : Json → Prop
  | object {fields : List (String × Json)}
    (index : Has fields "index" (· = .ofNat g.index.toNat))
    (instructions : Has fields "instructions" (Members RawInstruction.DepictedBy g.instructions)) :
    DepictedBy g (.object fields)

inductive LoadedAddresses.DepictedBy (l : LoadedAddresses) : Json → Prop
  | object {fields : List (String × Json)}
    (writable : HasOrLacks fields "writable" (· = addressesJson l.writable) (l.writable = []))
    (readonly : HasOrLacks fields "readonly" (· = addressesJson l.readonly) (l.readonly = [])) :
    DepictedBy l (.object fields)

/-- The objects that depict a transaction. Loaded addresses and inner instructions may be missing if
there are none. -/
inductive Transaction.DepictedBy (tx : Transaction) : Json → Prop
  | object {fields : List (String × Json)}
    (signature : Has fields "signature" (· = .string tx.signature))
    (slot : Has fields "slot" (· = .ofNat tx.slot.toNat))
    (accountKeys : Has fields "accountKeys" (· = addressesJson tx.accountKeys))
    (loaded : HasOrLacks fields "loadedAddresses" tx.loaded.DepictedBy (tx.loaded = .empty))
    (instructions : Has fields "instructions" (Members RawInstruction.DepictedBy tx.instructions))
    (inner : HasOrLacks fields "innerInstructions" (Members InnerGroup.DepictedBy tx.inner)
      (tx.inner = [])) :
    DepictedBy tx (.object fields)

theorem RawInstruction.depictedBy_toJson (i : RawInstruction) : i.DepictedBy i.toJson :=
  ⟨⟨_, rfl, rfl⟩, ⟨_, rfl, rfl⟩, ⟨_, rfl, rfl⟩⟩

theorem InnerGroup.depictedBy_toJson (g : InnerGroup) : g.DepictedBy g.toJson :=
  ⟨⟨_, rfl, rfl⟩, ⟨_, rfl, Members.ofList RawInstruction.depictedBy_toJson _⟩⟩

theorem LoadedAddresses.depictedBy_toJson (l : LoadedAddresses) : l.DepictedBy l.toJson :=
  ⟨Or.inl ⟨_, rfl, rfl⟩, Or.inl ⟨_, rfl, rfl⟩⟩

theorem Transaction.depictedBy_toJson (tx : Transaction) : tx.DepictedBy tx.toJson :=
  ⟨⟨_, rfl, rfl⟩, ⟨_, rfl, rfl⟩, ⟨_, rfl, rfl⟩, Or.inl ⟨_, rfl, tx.loaded.depictedBy_toJson⟩,
    ⟨_, rfl, Members.ofList RawInstruction.depictedBy_toJson _⟩,
    Or.inl ⟨_, rfl, Members.ofList InnerGroup.depictedBy_toJson _⟩⟩

section Reading

variable {value : Json} {fields : List (String × Json)}

theorem Json.list_eq_ok_iff_ofList {α : Type} {item : Form α} {write : α → Json} {as : List α}
    (exact : ∀ value a, item.ofJson value = .ok a ↔ value = write a) :
    (Form.list item).ofJson value = .ok as ↔ value = .ofList write as := by
  simp only [list_eq_ok_iff, exact, forall₂_eq_map_iff, exists_eq_right, ofList]

theorem addressesForm_eq_ok_iff {keys : List Address} :
    addressesForm.ofJson value = .ok keys ↔ value = addressesJson keys := by
  change (Form.list .string).ofJson value >>= (·.mapM parseAddress) = .ok keys ↔ _
  simp only [bind_eq_ok_iff, list_eq_ok_iff_ofList fun _ _ => string_eq_ok_iff,
    Address.mapM_eq_ok_iff fun _ _ => parseAddress_eq_ok_iff, exists_eq_right, addressesJson,
    ofList, List.map_map]
  rfl

theorem dataForm_eq_ok_iff {data : Bytes} :
    dataForm.ofJson value = .ok data ↔ value = .string (Base58.encode data) := by
  change Form.string.ofJson value >>= parseData = .ok data ↔ _
  simp only [bind_eq_ok_iff, string_eq_ok_iff, parseData_eq_ok_iff, exists_eq_right]

theorem RawInstruction.form_eq_ok_iff {i : RawInstruction} :
    form.ofJson (.object fields) = .ok i ↔
      Has fields "programIdIndex" (Form.uint8.ofJson · = .ok i.programIndex) ∧
      Has fields "accounts" ((Form.list .uint8).ofJson · = .ok i.accounts) ∧
      Has fields "data" (dataForm.ofJson · = .ok i.data) := by
  rw [form, record_object_eq_ok_iff]
  constructor
  · rintro ⟨single, built⟩
    simp only [List.forall_mem_cons, bind_eq_ok_iff] at single built
    obtain ⟨onlyIndex, onlyAccounts, onlyData, _⟩ := single
    obtain ⟨_, index, _, accounts, _, data, same⟩ := built
    cases same
    exact ⟨(take_required_iff onlyIndex).mp index, (take_required_iff onlyAccounts).mp accounts,
      (take_required_iff onlyData).mp data⟩
  · rintro ⟨index, accounts, data⟩
    simp only [List.forall_mem_cons, bind_eq_ok_iff]
    exact ⟨⟨index.length_le, accounts.length_le, data.length_le, nofun⟩,
      _, (take_required_iff index.length_le).mpr index,
      _, (take_required_iff accounts.length_le).mpr accounts,
      _, (take_required_iff data.length_le).mpr data, rfl⟩

theorem RawInstruction.DepictedBy.reads {i : RawInstruction} (depicted : i.DepictedBy value) :
    form.ofJson value = .ok i := by
  obtain ⟨programIndex, accounts, data⟩ := depicted
  exact form_eq_ok_iff.mpr ⟨programIndex.mono fun _ => uint8_eq_ok_iff.mpr,
    accounts.mono fun _ => (list_eq_ok_iff_ofList fun _ _ => uint8_eq_ok_iff).mpr,
    data.mono fun _ => dataForm_eq_ok_iff.mpr⟩

theorem Json.Members.reads {α : Type} {item : Form α} {depictedBy : α → Json → Prop} {as : List α}
    (members : Members depictedBy as value)
    (each : ∀ a part, depictedBy a part → item.ofJson part = .ok a) :
    (Form.list item).ofJson value = .ok as := by
  obtain ⟨items, rfl, same⟩ := members
  exact list_eq_ok_iff.mpr ⟨items, rfl, (same.imp fun a part => each a part).flip⟩

theorem InnerGroup.form_eq_ok_iff {g : InnerGroup} :
    form.ofJson (.object fields) = .ok g ↔
      Has fields "index" (Form.uint8.ofJson · = .ok g.index) ∧
      Has fields "instructions"
        ((Form.list RawInstruction.form).ofJson · = .ok g.instructions) := by
  rw [form, record_object_eq_ok_iff]
  constructor
  · rintro ⟨single, built⟩
    simp only [List.forall_mem_cons, bind_eq_ok_iff] at single built
    obtain ⟨onlyIndex, onlyInstructions, _⟩ := single
    obtain ⟨_, index, _, instructions, same⟩ := built
    cases same
    exact ⟨(take_required_iff onlyIndex).mp index,
      (take_required_iff onlyInstructions).mp instructions⟩
  · rintro ⟨index, instructions⟩
    simp only [List.forall_mem_cons, bind_eq_ok_iff]
    exact ⟨⟨index.length_le, instructions.length_le, nofun⟩,
      _, (take_required_iff index.length_le).mpr index,
      _, (take_required_iff instructions.length_le).mpr instructions, rfl⟩

theorem InnerGroup.DepictedBy.reads {g : InnerGroup} (depicted : g.DepictedBy value) :
    form.ofJson value = .ok g := by
  obtain ⟨index, instructions⟩ := depicted
  exact form_eq_ok_iff.mpr ⟨index.mono fun _ => uint8_eq_ok_iff.mpr,
    instructions.mono fun _ members => members.reads fun _ _ => RawInstruction.DepictedBy.reads⟩

theorem LoadedAddresses.form_eq_ok_iff {l : LoadedAddresses} :
    form.ofJson (.object fields) = .ok l ↔
      HasOrLacks fields "writable" (addressesForm.ofJson · = .ok l.writable) (l.writable = []) ∧
      HasOrLacks fields "readonly" (addressesForm.ofJson · = .ok l.readonly)
        (l.readonly = []) := by
  rw [form, record_object_eq_ok_iff]
  constructor
  · rintro ⟨single, built⟩
    simp only [List.forall_mem_cons, bind_eq_ok_iff] at single built
    obtain ⟨onlyWritable, onlyReadonly, _⟩ := single
    obtain ⟨_, writable, _, readonly, same⟩ := built
    cases same
    exact ⟨(take_orDefault_iff onlyWritable).mp writable,
      (take_orDefault_iff onlyReadonly).mp readonly⟩
  · rintro ⟨writable, readonly⟩
    simp only [List.forall_mem_cons, bind_eq_ok_iff]
    exact ⟨⟨writable.length_le, readonly.length_le, nofun⟩,
      _, (take_orDefault_iff writable.length_le).mpr writable,
      _, (take_orDefault_iff readonly.length_le).mpr readonly, rfl⟩

theorem LoadedAddresses.DepictedBy.reads {l : LoadedAddresses} (depicted : l.DepictedBy value) :
    form.ofJson value = .ok l := by
  obtain ⟨writable, readonly⟩ := depicted
  exact form_eq_ok_iff.mpr ⟨writable.mono (fun _ => addressesForm_eq_ok_iff.mpr) id,
    readonly.mono (fun _ => addressesForm_eq_ok_iff.mpr) id⟩

theorem Transaction.form_eq_ok_iff {tx : Transaction} :
    form.ofJson (.object fields) = .ok tx ↔
      Has fields "signature" (Form.string.ofJson · = .ok tx.signature) ∧
      Has fields "slot" (Form.uint64.ofJson · = .ok tx.slot) ∧
      Has fields "accountKeys" (addressesForm.ofJson · = .ok tx.accountKeys) ∧
      HasOrLacks fields "loadedAddresses" (LoadedAddresses.form.ofJson · = .ok tx.loaded)
        (tx.loaded = .empty) ∧
      Has fields "instructions" ((Form.list RawInstruction.form).ofJson · = .ok tx.instructions) ∧
      HasOrLacks fields "innerInstructions" ((Form.list InnerGroup.form).ofJson · = .ok tx.inner)
        (tx.inner = []) := by
  rw [form, record_object_eq_ok_iff]
  constructor
  · rintro ⟨single, built⟩
    simp only [List.forall_mem_cons, bind_eq_ok_iff] at single built
    obtain ⟨onlySignature, onlySlot, onlyKeys, onlyLoaded, onlyInstructions, onlyInner, _⟩ := single
    obtain ⟨_, signature, _, slot, _, keys, _, loaded, _, instructions, _, inner, same⟩ := built
    cases same
    exact ⟨(take_required_iff onlySignature).mp signature, (take_required_iff onlySlot).mp slot,
      (take_required_iff onlyKeys).mp keys, (take_orDefault_iff onlyLoaded).mp loaded,
      (take_required_iff onlyInstructions).mp instructions, (take_orDefault_iff onlyInner).mp inner⟩
  · rintro ⟨signature, slot, keys, loaded, instructions, inner⟩
    simp only [List.forall_mem_cons, bind_eq_ok_iff]
    exact ⟨⟨signature.length_le, slot.length_le, keys.length_le, loaded.length_le,
        instructions.length_le, inner.length_le, nofun⟩,
      _, (take_required_iff signature.length_le).mpr signature,
      _, (take_required_iff slot.length_le).mpr slot,
      _, (take_required_iff keys.length_le).mpr keys,
      _, (take_orDefault_iff loaded.length_le).mpr loaded,
      _, (take_required_iff instructions.length_le).mpr instructions,
      _, (take_orDefault_iff inner.length_le).mpr inner, rfl⟩

theorem Transaction.DepictedBy.reads {tx : Transaction} (depicted : tx.DepictedBy value) :
    form.ofJson value = .ok tx := by
  obtain ⟨signature, slot, keys, loaded, instructions, inner⟩ := depicted
  exact form_eq_ok_iff.mpr ⟨signature.mono fun _ => string_eq_ok_iff.mpr,
    slot.mono fun _ => uint64_eq_ok_iff.mpr, keys.mono fun _ => addressesForm_eq_ok_iff.mpr,
    loaded.mono (fun _ => LoadedAddresses.DepictedBy.reads) id,
    instructions.mono fun _ members => members.reads fun _ _ => RawInstruction.DepictedBy.reads,
    inner.mono (fun _ members => members.reads fun _ _ => InnerGroup.DepictedBy.reads) id⟩

end Reading

end LeafLedger
