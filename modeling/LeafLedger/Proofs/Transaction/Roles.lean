import LeafLedger.Proofs.Transaction.Layout
import LeafLedger.Transaction.RoleMap
import Mathlib.Data.List.Nodup

namespace LeafLedger

namespace Role

def all : List Role :=
  [treeConfig, leafOwner, leafDelegate, newLeafOwner, merkleTree, payer, treeCreatorOrDelegate,
    collectionAuthority, collectionAuthorityRecord, collectionMint, collectionMetadata,
    collectionEdition, bubblegumSigner, logWrapper, compressionProgram, tokenMetadataProgram,
    systemProgram]

theorem find?_name (role : Role) : all.find? (·.name == role.name) = some role := by
  cases role <;> rfl

theorem name_injective : Function.Injective name := by
  intro a b same
  have found := find?_name a
  rw [same, find?_name b] at found
  exact (Option.some.inj found).symm

end Role

namespace RoleMap

variable {table : KeyTable} {program : Address}

/-- The roles that keys get from the slots at their positions. A key that is the program itself
leaves out an optional account. -/
def fill (program : Address) (slots : List RoleSlot) (keys : List Address) :
    List (Role × Address) :=
  (slots.zip keys).filterMap fun (slot, key) =>
    if slot.optional ∧ key = program then none else some (slot.role, key)

/-- What is wrong with the account at a position if the key table does not reach it. -/
def faultAt (table : KeyTable) (slots : List RoleSlot) (position : Nat) (index : UInt8) : Error :=
  match slots[position]? with
  | some slot => .unresolvedRole slot.role index.toNat
  | none => .indexOutOfRange index.toNat table.size

section Fill

variable {slot : RoleSlot} {key : Address}

theorem fill_cons_of_left (left : slot.optional ∧ key = program) (slots : List RoleSlot)
    (keys : List Address) : fill program (slot :: slots) (key :: keys) = fill program slots keys :=
  List.filterMap_cons_none (if_pos left)

theorem fill_cons_of_taken (taken : ¬(slot.optional ∧ key = program)) (slots : List RoleSlot)
    (keys : List Address) :
    fill program (slot :: slots) (key :: keys) = (slot.role, key) :: fill program slots keys :=
  List.filterMap_cons_some (if_neg taken)

end Fill

theorem roles_fill_sublist (program : Address) (slots : List RoleSlot) (keys : List Address) :
    List.Sublist ((fill program slots keys).map (·.1)) (slots.map (·.role)) := by
  induction slots generalizing keys with
  | nil => exact List.Sublist.slnil
  | cons slot slots ih =>
    cases keys with
    | nil => exact List.nil_sublist _
    | cons key keys =>
      by_cases left : slot.optional ∧ key = program
      · rw [fill_cons_of_left left]
        exact (ih keys).cons _
      · rw [fill_cons_of_taken left]
        exact (ih keys).cons_cons _

theorem isSome_get?_iff {roles : RoleMap} {role : Role} :
    (roles.get? role).isSome ↔ role ∈ roles.named.map (·.1) := by
  rw [get?, List.lookup_isSome_iff, List.mem_map]
  constructor
  · intro hh
    obtain ⟨entry, he, same⟩ := hh
    exact ⟨entry, he, (beq_iff_eq.mp same).symm⟩
  · intro hh
    obtain ⟨entry, he, rfl⟩ := hh
    exact ⟨entry, he, beq_self_eq_true _⟩

theorem get?_fill_of_not_mem {slots : List RoleSlot} {role : Role}
    (other : role ∉ slots.map (·.role)) (keys more : List Address) :
    get? ⟨fill program slots keys, more⟩ role = none := by
  rw [← Option.not_isSome_iff_eq_none, isSome_get?_iff]
  exact fun h => other ((roles_fill_sublist program slots keys).mem h)

/-- A role is played by the key at its position, unless that is left out or there is none. -/
theorem get?_fill {slots : List RoleSlot} (unique : (slots.map (·.role)).Nodup) {i : Nat}
    {slot : RoleSlot} (hs : slots[i]? = some slot) (keys more : List Address) :
    get? ⟨fill program slots keys, more⟩ slot.role =
      keys[i]?.bind fun key => if slot.optional ∧ key = program then none else some key := by
  induction slots generalizing i keys with
  | nil => cases hs
  | cons head slots ih =>
    obtain ⟨new, unique⟩ := List.nodup_cons.mp unique
    cases keys with
    | nil => rfl
    | cons key keys =>
      cases i with
      | zero =>
        obtain rfl : head = slot := Option.some.inj hs
        simp only [List.getElem?_cons_zero, Option.bind_some]
        by_cases left : head.optional ∧ key = program
        · rw [fill_cons_of_left left, if_pos left, get?_fill_of_not_mem new]
        · rw [fill_cons_of_taken left, if_neg left, get?, List.lookup_cons_self]
      | succ i =>
        have later : slots[i]? = some slot := hs
        have other : slot.role ≠ head.role := by
          intro same
          exact new (List.mem_map.mpr ⟨slot, List.mem_of_getElem? later, same⟩)
        by_cases left : head.optional ∧ key = program
        · rw [fill_cons_of_left left]
          exact ih unique later keys
        · rw [fill_cons_of_taken left, get?, List.lookup_cons, beq_false_of_ne other]
          exact ih unique later keys

theorem length_fill (program : Address) (slots : List RoleSlot) (keys : List Address) :
    (fill program slots keys).length +
        (slots.zip keys).countP (fun (slot, key) => slot.optional && key == program) =
      min slots.length keys.length := by
  rw [fill, List.length_filterMap_eq_countP, ← List.length_zip, Nat.add_comm,
    List.length_eq_countP_add_countP fun entry => entry.1.optional && entry.2 == program]
  congr 2
  funext entry
  by_cases left : entry.1.optional ∧ entry.2 = program <;> simp [left]

theorem assign_of_keys {slots : List RoleSlot} {indexes : List UInt8} {keys : List Address}
    (h : indexes.map (fun index => table.get? index.toNat) = keys.map some) :
    assign table program slots indexes =
      .ok ⟨fill program slots keys, keys.drop slots.length⟩ := by
  induction indexes generalizing slots keys with
  | nil =>
    obtain rfl : keys = [] := List.map_eq_nil_iff.mp h.symm
    cases slots <;> rfl
  | cons index indexes ih =>
    cases keys with
    | nil => cases h
    | cons key keys =>
      obtain ⟨hk, rest⟩ := List.cons.inj h
      cases slots with
      | nil =>
        simp only [assign, KeyTable.resolve_of_get? hk, ih rest]
        rfl
      | cons slot slots =>
        simp only [assign, hk, ih rest]
        by_cases left : slot.optional ∧ key = program
        · rw [fill_cons_of_left left]
          exact if_pos left
        · rw [fill_cons_of_taken left]
          exact if_neg left

/-- The first account that the table does not reach decides the error. -/
theorem assign_of_beyond {slots : List RoleSlot} {front back : List UInt8} {index : UInt8}
    (within : ∀ other ∈ front, other.toNat < table.size) (beyond : table.size ≤ index.toNat) :
    assign table program slots (front ++ index :: back) =
      .error (faultAt table slots front.length index) := by
  induction front generalizing slots with
  | nil =>
    have missing := (table.get?_eq_none_iff index.toNat).mpr beyond
    cases slots with
    | nil =>
      simp only [List.nil_append, assign, KeyTable.resolve_of_get?_none missing]
      rfl
    | cons slot slots =>
      simp only [List.nil_append, assign, missing]
      rfl
  | cons other front ih =>
    have ahead : ∀ slots, assign table program slots (front ++ index :: back) =
        .error (faultAt table slots front.length index) :=
      fun slots => ih fun one h => within one (by simp [h])
    obtain ⟨key, hk⟩ : ∃ key, table.get? other.toNat = some key :=
      ⟨_, List.getElem?_eq_getElem (within other (by simp))⟩
    cases slots with
    | nil =>
      simp only [List.cons_append, assign, KeyTable.resolve_of_get? hk, ahead]
      rfl
    | cons slot slots =>
      simp only [List.cons_append, assign, hk, ahead]
      rfl

theorem exists_keys {indexes : List UInt8} (within : ∀ index ∈ indexes, index.toNat < table.size) :
    ∃ keys : List Address,
      indexes.map (fun index => table.get? index.toNat) = keys.map some := by
  induction indexes with
  | nil => exact ⟨[], rfl⟩
  | cons index indexes ih =>
    obtain ⟨keys, rest⟩ := ih fun other h => within other (by simp [h])
    have here : table.get? index.toNat = some _ :=
      List.getElem?_eq_getElem (within index (by simp))
    exact ⟨_ :: keys, by rw [List.map_cons, List.map_cons, here, rest]⟩

/-- Accounts are all within the table, or there is a first one beyond it. -/
theorem within_or_beyond (table : KeyTable) (indexes : List UInt8) :
    (∀ index ∈ indexes, index.toNat < table.size) ∨
      ∃ front index back, indexes = front ++ index :: back ∧
        (∀ other ∈ front, other.toNat < table.size) ∧ table.size ≤ index.toNat := by
  cases found : indexes.find? fun index => decide (table.size ≤ index.toNat) with
  | none =>
    refine Or.inl fun index h => ?_
    simpa using List.find?_eq_none.mp found index h
  | some index =>
    obtain ⟨beyond, front, back, split, within⟩ := List.find?_eq_some_iff_append.mp found
    exact Or.inr ⟨front, index, back, split, by simpa using within, by simpa using beyond⟩

theorem assign_eq_ok_iff {slots : List RoleSlot} {indexes : List UInt8} {roles : RoleMap} :
    assign table program slots indexes = .ok roles ↔
      ∃ keys, indexes.map (fun index => table.get? index.toNat) = keys.map some ∧
        roles = ⟨fill program slots keys, keys.drop slots.length⟩ := by
  constructor
  · intro h
    rcases within_or_beyond table indexes with within | ⟨front, index, back, rfl, within, beyond⟩
    · obtain ⟨keys, hk⟩ := exists_keys within
      exact ⟨keys, hk, Except.ok.inj (h.symm.trans (assign_of_keys hk))⟩
    · cases h.symm.trans (assign_of_beyond within beyond)
  · rintro ⟨keys, hk, rfl⟩
    exact assign_of_keys hk

theorem assign_eq_error_iff {slots : List RoleSlot} {indexes : List UInt8} {error : Error} :
    assign table program slots indexes = .error error ↔
      ∃ front index back, indexes = front ++ index :: back ∧
        (∀ other ∈ front, other.toNat < table.size) ∧ table.size ≤ index.toNat ∧
        error = faultAt table slots front.length index := by
  constructor
  · intro failed
    rcases within_or_beyond table indexes with within | ⟨front, index, back, rfl, within, beyond⟩
    · obtain ⟨keys, hk⟩ := exists_keys within
      cases failed.symm.trans (assign_of_keys hk)
    · have fault := failed.symm.trans (assign_of_beyond within beyond)
      exact ⟨front, index, back, rfl, within, beyond, Except.error.inj fault⟩
  · rintro ⟨front, index, back, rfl, within, beyond, rfl⟩
    exact assign_of_beyond within beyond

theorem exists_roles_iff {slots : List RoleSlot} {indexes : List UInt8} :
    (∃ roles, assign table program slots indexes = .ok roles) ↔
      ∀ index ∈ indexes, index.toNat < table.size := by
  constructor
  · rintro ⟨roles, found⟩ index hi
    obtain ⟨keys, hk, _⟩ := assign_eq_ok_iff.mp found
    have here : table.get? index.toNat ∈ keys.map some := hk ▸ List.mem_map_of_mem hi
    obtain ⟨key, _, known⟩ := List.mem_map.mp here
    exact (List.getElem?_eq_some_iff.mp known.symm).1
  · intro within
    obtain ⟨keys, hk⟩ := exists_keys within
    exact ⟨_, assign_of_keys hk⟩

section Keys

variable {indexes : List UInt8} {keys : List Address}

theorem get?_of_keys (h : indexes.map (fun index => table.get? index.toNat) = keys.map some)
    {i : Nat} {index : UInt8} (hi : indexes[i]? = some index) :
    ∃ key, table.get? index.toNat = some key ∧ keys[i]? = some key := by
  have here : (keys.map some)[i]? = some (table.get? index.toNat) := by
    rw [← h, List.getElem?_map, hi, Option.map_some]
  rw [List.getElem?_map] at here
  obtain ⟨key, own, known⟩ := Option.map_eq_some_iff.mp here
  exact ⟨key, known.symm, own⟩

/-- No account is lost: each has its role, is left out, or remains. -/
theorem length_of_keys (h : indexes.map (fun index => table.get? index.toNat) = keys.map some)
    (program : Address) (slots : List RoleSlot) :
    (fill program slots keys).length +
        (slots.zip indexes).countP (fun (slot, index) =>
          slot.optional && table.get? index.toNat == some program) +
        (keys.drop slots.length).length = indexes.length := by
  let left (entry : RoleSlot × Option Address) : Bool := entry.1.optional && entry.2 == some program
  have same : (slots.zip (indexes.map fun index => table.get? index.toNat)).countP left =
      (slots.zip (keys.map some)).countP left := by rw [h]
  rw [List.zip_map_right, List.zip_map_right, List.countP_map, List.countP_map] at same
  have size : indexes.length = keys.length := by simpa using congrArg List.length h
  calc
    _ = (fill program slots keys).length +
          (slots.zip keys).countP (fun (slot, key) => slot.optional && key == program) +
          (keys.drop slots.length).length := congrArg (_ + · + _) same
    _ = min slots.length keys.length + (keys.length - slots.length) := by
      rw [length_fill, List.length_drop]
    _ = indexes.length := by omega

end Keys

/-- Accounts get their roles exactly if the key table reaches all of them. Then each role of the
schema is played by the account at its position, unless that is left out or there is none; what
comes behind the schema remains, in order; and no account is lost or plays two roles. Otherwise the
first account beyond the table is what is wrong. -/
theorem roles_by_position (kind : Kind) (indexes : List UInt8) (table : KeyTable)
    (program : Address) :
    let schema := kind.roleSchema
    let answer := resolve kind indexes table program
    ((∃ roles, answer = .ok roles) ↔ ∀ index ∈ indexes, index.toNat < table.size) ∧
    (∀ roles, answer = .ok roles →
      (∀ i slot, schema[i]? = some slot →
        (∀ index, indexes[i]? = some index → ∃ key, table.get? index.toNat = some key ∧
          roles.get? slot.role = if slot.optional ∧ key = program then none else some key) ∧
        (indexes.length ≤ i → roles.get? slot.role = none)) ∧
      (∀ role, role ∉ schema.map (·.role) → roles.get? role = none) ∧
      (roles.named.map (·.1.name)).Nodup ∧
      (indexes.drop schema.length).map (fun index => table.get? index.toNat) =
        roles.remaining.map some ∧
      roles.named.length +
          (schema.zip indexes).countP (fun (slot, index) =>
            slot.optional && table.get? index.toNat == some program) +
          roles.remaining.length = indexes.length) ∧
    ∀ error, answer = .error error ↔ ∃ front index back, indexes = front ++ index :: back ∧
      (∀ other ∈ front, other.toNat < table.size) ∧ table.size ≤ index.toNat ∧
      error = match schema[front.length]? with
        | some slot => .unresolvedRole slot.role index.toNat
        | none => .indexOutOfRange index.toNat table.size := by
  intro schema answer
  have unique : (schema.map (·.role)).Nodup := kind.nodup_roleSchema
  refine ⟨exists_roles_iff, ?_, fun error => assign_eq_error_iff⟩
  intro roles found
  obtain ⟨keys, hk, rfl⟩ := assign_eq_ok_iff.mp found
  refine ⟨?_, fun role other => get?_fill_of_not_mem other keys _, ?_, ?_,
    length_of_keys hk program schema⟩
  · intro i slot hs
    rw [get?_fill unique hs]
    constructor
    · intro index hi
      obtain ⟨key, known, own⟩ := get?_of_keys hk hi
      exact ⟨key, known, by rw [own, Option.bind_some]⟩
    · intro short
      have size : keys.length = indexes.length := by simpa using (congrArg List.length hk).symm
      rw [List.getElem?_eq_none (size ▸ short), Option.bind_none]
  · have distinct := unique.sublist (roles_fill_sublist program schema keys)
    have names := distinct.map Role.name_injective
    rwa [List.map_map] at names
  · rw [List.map_drop, hk, ← List.map_drop]

end RoleMap

end LeafLedger
