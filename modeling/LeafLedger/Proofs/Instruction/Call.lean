import LeafLedger.Instruction.Payload
import LeafLedger.Program
import LeafLedger.Proofs.Borsh.ReadBack
import LeafLedger.Proofs.Transaction.Roles

namespace LeafLedger

open Borsh (encode Reads)

namespace Kind

theorem discriminator?_spec {kind : Kind} {front : Bytes} (h : kind.discriminator? = some front) :
    front.length = discriminatorLength ∧
      (discriminators.find? (·.1 == front)).map (·.2) = some kind := by
  cases kind <;> cases h <;> decide

theorem ofPayload_append {kind : Kind} {front : Bytes} (h : kind.discriminator? = some front)
    (args : Bytes) : ofPayload (front ++ args) = kind := by
  obtain ⟨size, found⟩ := discriminator?_spec h
  have window : (front ++ args).window? 0 discriminatorLength = some front := by
    simp [Bytes.window?, ← size]
  simp only [ofPayload, window, found, Option.getD_some]

end Kind

theorem readArguments_append {α : Type} [Borsh α] {a : α} {kind : Kind} {front : Bytes}
    (h : kind.discriminator? = some front) (reads : Reads a) :
    readArguments kind (front ++ encode a) = .ok a := by
  obtain ⟨size, _⟩ := Kind.discriminator?_spec h
  have enough : ¬(front ++ encode a).length < Kind.discriminatorLength := by
    rw [List.length_append]
    omega
  have behind : (front ++ encode a).drop Kind.discriminatorLength = encode a := by
    simp [← size]
  have read := reads []
  rw [List.append_nil] at read
  rw [readArguments, if_neg enough, behind, read]

namespace RoleMap

variable {table : KeyTable} {program : Address} {players : Role → Address}

/-- The slots of a schema with their players, those left out that pass the program itself. -/
def cast (program : Address) (players : Role → Address) (slots : List RoleSlot) :
    List (Role × Address) :=
  slots.filterMap fun slot =>
    if slot.optional ∧ players slot.role = program then none
    else some (slot.role, players slot.role)

theorem cast_cons_of_left {slot : RoleSlot} (left : slot.optional ∧ players slot.role = program)
    (slots : List RoleSlot) : cast program players (slot :: slots) = cast program players slots :=
  List.filterMap_cons_none (if_pos left)

theorem cast_cons_of_taken {slot : RoleSlot}
    (taken : ¬(slot.optional ∧ players slot.role = program)) (slots : List RoleSlot) :
    cast program players (slot :: slots) =
      (slot.role, players slot.role) :: cast program players slots :=
  List.filterMap_cons_some (if_neg taken)

theorem fill_players (slots : List RoleSlot) (more : List Address) :
    fill program slots (slots.map (fun slot => players slot.role) ++ more) =
      cast program players slots := by
  induction slots with
  | nil => rfl
  | cons slot slots ih =>
    rw [List.map_cons, List.cons_append]
    by_cases left : slot.optional ∧ players slot.role = program
    · rw [fill_cons_of_left left, cast_cons_of_left left, ih]
    · rw [fill_cons_of_taken left, cast_cons_of_taken left, ih]

/-- Accounts that follow the schema get their roles. -/
theorem assign_players {slots : List RoleSlot} {indexes : List UInt8} {more : List Address}
    (h : indexes.map (fun index => table.get? index.toNat) =
      slots.map (fun slot => some (players slot.role)) ++ more.map some) :
    assign table program slots indexes = .ok ⟨cast program players slots, more⟩ := by
  have keys : indexes.map (fun index => table.get? index.toNat) =
      (slots.map (fun slot => players slot.role) ++ more).map some := by
    rw [h, List.map_append, List.map_map]
    rfl
  rw [assign_of_keys keys, fill_players, List.drop_left' (List.length_map _)]

/-- A role that has to be filled is played by its player. -/
theorem get?_cast {slots : List RoleSlot} {slot : RoleSlot} (hs : slot ∈ slots)
    (required : slot.optional = false) (more : List Address) :
    get? ⟨cast program players slots, more⟩ slot.role = some (players slot.role) := by
  induction slots with
  | nil => cases hs
  | cons head slots ih =>
    by_cases left : head.optional ∧ players head.role = program
    -- The head is left out, so it is not the slot, which has to be filled.
    · have other : slot ≠ head := by
        rintro rfl
        simp [required] at left
      rw [cast_cons_of_left left]
      exact ih (List.mem_of_ne_of_mem other hs)
    · rw [cast_cons_of_taken left, get?, List.lookup_cons]
      by_cases same : slot.role = head.role
      · simp [same]
      · have other : slot ≠ head := fun eq => same (congrArg RoleSlot.role eq)
        have unequal : (slot.role == head.role) = false := by simp [same]
        rw [unequal]
        exact ih (List.mem_of_ne_of_mem other hs)

end RoleMap

/-- The instruction is a call of the compressed-asset program: arguments behind the bytes of its
kind, and accounts in the order of the roles, behind which there may be more. -/
structure RawInstruction.IsCall (raw : RawInstruction) (table : KeyTable) (kind : Kind)
    (args : Bytes) (players : Role → Address) : Prop where
  program : table.get? raw.programIndex.toNat = some Program.compressedAsset
  data : ∃ front, kind.discriminator? = some front ∧ raw.data = front ++ args
  accounts : ∃ more : List Address, raw.accounts.map (fun index => table.get? index.toNat) =
    kind.roleSchema.map (fun slot => some (players slot.role)) ++ more.map some

namespace RawInstruction.IsCall

variable {raw : RawInstruction} {table : KeyTable} {kind : Kind} {args : Bytes}
variable {players : Role → Address}

theorem ofPayload (call : raw.IsCall table kind args players) : Kind.ofPayload raw.data = kind := by
  obtain ⟨front, begins, data⟩ := call.data
  rw [data]
  exact Kind.ofPayload_append begins args

theorem readArguments {α : Type} [Borsh α] {a : α} (call : raw.IsCall table kind (encode a) players)
    (reads : Reads a) : readArguments kind raw.data = .ok a := by
  obtain ⟨front, begins, data⟩ := call.data
  rw [data]
  exact readArguments_append begins reads

theorem resolve (call : raw.IsCall table kind args players) (program : Address) :
    ∃ roles, RoleMap.resolve kind raw.accounts table program = .ok roles ∧
      ∀ slot ∈ kind.roleSchema, slot.optional = false →
        roles.get? slot.role = some (players slot.role) := by
  obtain ⟨more, accounts⟩ := call.accounts
  refine ⟨_, RoleMap.assign_players accounts, ?_⟩
  intro slot hs required
  exact RoleMap.get?_cast hs required more

end RawInstruction.IsCall

end LeafLedger
