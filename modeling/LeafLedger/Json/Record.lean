import LeafLedger.Json.Form
import LeafLedger.Json.Skip

namespace LeafLedger.Json

/-- What is given for a field of a record. -/
inductive Slot
  | given (value : Json)
  /-- The record is an object without the field. -/
  | unnamed
  /-- The record is an array that ends before the field, which is a fault if the field is needed. -/
  | cutOff (cause : Cause)

/-- A field of a record. -/
structure Field (α : Type) where
  name : String
  ofSlot : Slot → Except Cause α
  reader : Reader Json

/-- A field as far as its name and its shape go. -/
structure Entry where
  name : String
  check : Slot → Except Cause Unit
  reader : Reader Json

namespace Field

variable {α : Type}

/-- A field that has to be there. -/
def required (name : String) (form : Form α) : Field α where
  name
  ofSlot
    | .given value => form.ofJson value
    | .unnamed => .error (.missing name)
    | .cutOff cause => .error cause
  reader := form.reader

/-- A field that has a default when it is left out. -/
def orDefault (name : String) (default : α) (form : Form α) : Field α where
  name
  ofSlot
    | .given value => form.ofJson value
    | .unnamed | .cutOff _ => .ok default
  reader := form.reader

/-- A value, or nothing for null. -/
def nullable (form : Form α) : Json → Except Cause (Option α)
  | .null => .ok none
  | value => (form.ofJson value).map some

/-- The shape of a value that may be null. -/
def readNullable (read : Reader Json) : Reader Json := do
  match ← Reader.next with
  | some 'n' => Reader.scalar 'n'
  | _ => read

/-- A field that may be null, or be left out of an object. -/
def optional (name : String) (form : Form α) : Field (Option α) where
  name
  ofSlot
    | .given value => nullable form value
    | .unnamed => .ok none
    | .cutOff cause => .error cause
  reader := readNullable form.reader

/-- A field that may be null, or be left out of an object or of the end of an array. -/
def optionalOrCut (name : String) (form : Form α) : Field (Option α) where
  name
  ofSlot
    | .given value => nullable form value
    | .unnamed | .cutOff _ => .ok none
  reader := readNullable form.reader

/-- The name and the shape of a field. -/
def entry (field : Field α) : Entry where
  name := field.name
  check slot := (field.ofSlot slot).map fun _ => ()
  reader := field.reader

/-- The value of a field in a record. -/
def take (field : Field α) (slot : String → Slot) : Except Cause α :=
  field.ofSlot (slot field.name)

end Field

/-- What a record is called where another value stands in its place. -/
def recordTitle (name : String) : String :=
  "struct " ++ name

/-- What a record given by position needs. -/
def positionalTitle (name : String) (count : Nat) : String :=
  recordTitle name ++ " with " ++ toString count ++ if count = 1 then " element" else " elements"

/-- The fields of an object, looked up by name. -/
def namedSlots (fields : List (String × Json)) (name : String) : Slot :=
  match fields.lookup name with
  | some value => .given value
  | none => .unnamed

/-- The elements of an array, looked up by the names of the fields in order. -/
def positionalSlots (title : String) (names : List String) (items : List Json) (name : String) :
    Slot :=
  let i := names.idxOf name
  match items[i]? with
  | some value => .given value
  | none => .cutOff (.tooFew i (positionalTitle title names.length))

namespace Reader

variable {α : Type}

/-- Gives up on an object whose fields so far have been read, behind its bracket if that follows. -/
def failInFields (cause : Cause) : Reader α := do
  if (← next) = some '\x7d' then drop
  failHere cause

/-- Gives up on an array whose elements so far have been read, behind its bracket or behind the
comma and the spaces that follow. -/
def failInItems (cause : Cause) : Reader α := do
  match ← next with
  | some ']' => drop
  | some ',' =>
    drop
    let _ ← next
  | _ => pure ()
  failHere cause

/-- The end of an array that has as many elements as a record has fields. -/
def endItems : Reader Unit := do
  match ← next with
  | none => failAhead .endInList
  | some ']' => drop
  | some ',' =>
    drop
    if (← next) = some ']' then failAhead .trailingComma else failAhead .trailingCharacters
  | some _ => failAhead .trailingCharacters

/-- The fields of a record in order, from the one at a position on, after those that are done. -/
def positional (title : String) : Nat → List Entry → Bool → List Json → Reader Json
  | _, [], _, done => do
    endItems
    return .array done.reverse
  | i, entry :: entries, first, done => do
    if ← moreItems first then
      let value ← entry.reader
      match entry.check (.given value) with
      | .ok () => positional title (i + 1) entries false (value :: done)
      | .error cause => failInItems cause
    else
      match entry.check (.cutOff (.tooFew i title)) with
      | .ok () => positional title (i + 1) entries first done
      | .error cause => failInItems cause

/-- What is wrong with a record for want of a field. -/
def wanting? (entries : List Entry) (done : List (String × Json)) : Option Cause :=
  entries.findSome? fun entry =>
    match entry.check (namedSlots done entry.name) with
    | .ok () => none
    | .error cause => some cause

/-- The fields of a record up to the closing bracket, after those that are done. -/
def named (entries : List Entry) : Nat → Bool → List (String × Json) → Reader Json
  | 0, _, _ => failHere (.malformed .endInObject)
  | bound + 1, first, done => do
    if ← moreFields first then
      let name ← text
      match entries.find? (·.name == name) with
      | none =>
        colon
        skipValue
        named entries bound false done
      | some entry =>
        if (done.lookup name).isSome then failInFields (.repeated name)
        else
          colon
          let value ← entry.reader
          match entry.check (.given value) with
          | .ok () => named entries bound false ((name, value) :: done)
          | .error cause => failInFields cause
    else
      match wanting? entries done with
      | some cause => failInFields cause
      | none =>
        drop
        return .object done.reverse

def record (name : String) (entries : List Entry) : Reader Json :=
  .value fun c => do
    if c = '\x7b' then
      drop
      named entries ((← length) + 1) true []
    else if c = '[' then
      drop
      positional (positionalTitle name entries.length) 0 entries true []
    else mismatch (recordTitle name) c

end Reader

/-- A record of a given name with these fields, built from what is given for each. -/
def Form.record {α : Type} (name : String) (entries : List Entry)
    (build : (String → Slot) → Except Cause α) : Form α where
  ofJson
    | .object fields =>
      match entries.find? fun entry => 1 < fields.countP (·.1 == entry.name) with
      | some entry => .error (.repeated entry.name)
      | none => build (namedSlots fields)
    | .array items => do
      let a ← build (positionalSlots name (entries.map (·.name)) items)
      if entries.length < items.length then .error (.tooMany items.length) else return a
    | value => mismatch value (recordTitle name)
  reader := .record name entries

end LeafLedger.Json
