import LeafLedger.Json.Number

namespace LeafLedger

/-- A JSON value. -/
inductive Json
  | null
  | bool (b : Bool)
  | number (n : Json.Number)
  | string (s : String)
  | array (items : List Json)
  | object (fields : List (String × Json))

namespace Json

def ofNat (n : Nat) : Json :=
  .number (.integer n)

/-- A value that may be missing. -/
def ofOption {α : Type} (f : α → Json) : Option α → Json
  | none => .null
  | some a => f a

/-- The values of a list. -/
def ofList {α : Type} (f : α → Json) (as : List α) : Json :=
  .array (as.map f)

end Json

end LeafLedger
