import LeafLedger.Json.Text

namespace LeafLedger.Json

/-- How values of a type stand in JSON. -/
structure Form (α : Type) where
  /-- The value that a JSON value stands for. -/
  ofJson : Json → Except Cause α
  /-- The JSON value at the front of a text. -/
  reader : Reader Json

/-- A value of another type than the expected one. -/
def mismatch {α : Type} (value : Json) (expected : String) : Except Cause α :=
  .error (.mismatch (.ofJson value) expected)

/-- Gives up on a text that goes on with a value of another type. Of an array or an object nothing
is read. -/
def Reader.mismatch {α : Type} (expected : String) (c : Char) : Reader α := do
  let found ← if c = '[' then pure Found.array
    else if c = '\x7b' then pure Found.object
    else Found.ofJson <$> scalar c
  failHere (.mismatch found expected)

/-- A value by its first character. -/
def Reader.value (read : Char → Reader Json) : Reader Json := do
  match ← next with
  | none => failAhead .endInValue
  | some c => read c

namespace Form

variable {α β : Type}

/-- The value that a JSON text spells. -/
def ofText (form : Form α) (text : String) : Except Fault α := do
  ofValue (form.ofJson (← form.reader.run text))

def string : Form String where
  ofJson
    | .string s => .ok s
    | value => mismatch value "a string"
  reader := .value fun c => if c = '"' then .scalar c else .mismatch "a string" c

def bool : Form Bool where
  ofJson
    | .bool b => .ok b
    | value => mismatch value "a boolean"
  reader := .value fun c => if c = 't' ∨ c = 'f' then .scalar c else .mismatch "a boolean" c

/-- The integer that a value is, if it lies in a range. -/
def readInteger (low high : Int) (expected : String) : Json → Except Cause Int
  | .number (.integer n) => if low ≤ n ∧ n < high then .ok n else .error (.outOfRange n expected)
  | value => mismatch value expected

/-- An integer in a range. -/
def integer (low high : Int) (expected : String) : Form Int where
  ofJson := readInteger low high expected
  reader := .value fun c => do
    if c = '-' ∨ c.isDigit then
      let value := .number (← Reader.number)
      match readInteger low high expected value with
      | .ok _ => return value
      | .error cause => .failHere cause
    else .mismatch expected c

/-- Values of one form, turned into others. -/
def map (form : Form α) (f : α → β) : Form β where
  ofJson value := (form.ofJson value).map f
  reader := form.reader

/-- Values of one form, checked and turned into others. The shape of the text is that of the
form. -/
def checked (form : Form α) (f : α → Except Cause β) : Form β where
  ofJson value := form.ofJson value >>= f
  reader := form.reader

/-- A number of eight bits. -/
def uint8 : Form UInt8 :=
  (integer 0 UInt8.size "u8").map fun n => UInt8.ofNat n.toNat

/-- A number of thirty-two bits. -/
def uint32 : Form UInt32 :=
  (integer 0 UInt32.size "u32").map fun n => UInt32.ofNat n.toNat

/-- A number of sixty-four bits. -/
def uint64 : Form UInt64 :=
  (integer 0 UInt64.size "u64").map fun n => UInt64.ofNat n.toNat

/-- A number of sixty-four bits with a sign. -/
def int64 : Form Int64 :=
  (integer Int64.minValue.toInt (Int64.maxValue.toInt + 1) "i64").map Int64.ofInt

/-- Any value at all. -/
def any : Form Json where
  ofJson := .ok
  reader := .any

/-- The elements up to the closing bracket, after those that are done. -/
def readItems (read : Reader Json) : Nat → Bool → List Json → Reader Json
  | 0, _, _ => .failHere (.malformed .endInList)
  | bound + 1, first, done => do
    if ← Reader.moreItems first then
      let item ← read
      readItems read bound false (item :: done)
    else
      Reader.drop
      return .array done.reverse

/-- A list of values of one form. -/
def list (item : Form α) : Form (List α) where
  ofJson
    | .array items => items.mapM item.ofJson
    | value => mismatch value "a sequence"
  reader := .value fun c => do
    if c = '[' then
      Reader.drop
      readItems item.reader ((← Reader.length) + 1) true []
    else .mismatch "a sequence" c

end Form

end LeafLedger.Json
