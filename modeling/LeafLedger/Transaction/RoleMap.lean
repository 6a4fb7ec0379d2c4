import LeafLedger.Transaction.KeyTable

namespace LeafLedger

/-- Accounts by role, in the order of the schema, and the accounts after the last role. -/
structure RoleMap where
  named : List (Role × Address)
  remaining : List Address
  deriving DecidableEq

namespace RoleMap

def empty : RoleMap :=
  ⟨[], []⟩

/-- The account that plays a role. -/
def get? (roles : RoleMap) (role : Role) : Option Address :=
  roles.named.lookup role

/-- The account that plays a role that has to be filled. -/
def require (roles : RoleMap) (role : Role) : Except Error Address :=
  match roles.get? role with
  | some key => .ok key
  | none => .error (.missingRole role.name)

/-- The account that plays the role of a given name. -/
def requireNamed (roles : RoleMap) (name : String) : Except Error Address :=
  match roles.named.find? (·.1.name == name) with
  | some entry => .ok entry.2
  | none => .error (.missingRole name)

/-- The roles that are filled, with their accounts, in the order of the role names. -/
def sorted (roles : RoleMap) : List (Role × Address) :=
  roles.named.mergeSort fun a b => !(b.1.name < a.1.name)

/-- Gives each account index in turn to the next slot of a schema, and what is left over to none.
The first index that the table does not reach decides the error. -/
def assign (table : KeyTable) (program : Address) :
    List RoleSlot → List UInt8 → Except Error RoleMap
  | _, [] => .ok empty
  | [], index :: indexes => do
    let key ← table.resolve index.toNat
    let roles ← assign table program [] indexes
    return { roles with remaining := key :: roles.remaining }
  | slot :: slots, index :: indexes =>
    match table.get? index.toNat with
    | none => .error (.unresolvedRole slot.role index.toNat)
    | some key => do
      let roles ← assign table program slots indexes
      if slot.optional ∧ key = program then return roles
      else return { roles with named := (slot.role, key) :: roles.named }

/-- The roles of the accounts of an instruction of a program. -/
def resolve (kind : Kind) (indexes : List UInt8) (table : KeyTable) (program : Address) :
    Except Error RoleMap :=
  assign table program kind.roleSchema indexes

end RoleMap

end LeafLedger
