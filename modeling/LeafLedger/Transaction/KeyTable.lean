import LeafLedger.Error
import LeafLedger.Transaction

namespace LeafLedger

/-- The keys that instructions refer to by index. -/
structure KeyTable where
  keys : List Address
  deriving DecidableEq

namespace KeyTable

/-- The keys of a message come first, then the loaded ones, writable before read-only. -/
def ofTransaction (tx : Transaction) : KeyTable :=
  ⟨tx.accountKeys ++ tx.loaded.writable ++ tx.loaded.readonly⟩

def size (table : KeyTable) : Nat :=
  table.keys.length

/-- The key at an index, if the table reaches that far. -/
def get? (table : KeyTable) (index : Nat) : Option Address :=
  table.keys[index]?

def resolve (table : KeyTable) (index : Nat) : Except Error Address :=
  match table.get? index with
  | some key => .ok key
  | none => .error (.indexOutOfRange index table.size)

theorem get?_eq_none_iff (table : KeyTable) (index : Nat) :
    table.get? index = none ↔ table.size ≤ index :=
  List.getElem?_eq_none_iff

end KeyTable

end LeafLedger
