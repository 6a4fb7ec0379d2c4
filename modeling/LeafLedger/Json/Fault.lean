import LeafLedger.Address
import LeafLedger.Json.Value

namespace LeafLedger.Json

/-- Where a text breaks the rules of the data format. -/
inductive Malformation
  | endInList
  | endInObject
  | endInText
  | endInValue
  | noColon
  | noListSeparator
  | noObjectSeparator
  | noIdentifier
  | noValue
  | badEscape
  | badNumber
  | hugeNumber
  | controlCharacter
  | keyNotText
  | loneSurrogate
  | trailingComma
  | trailingCharacters
  | endOfEscape
  deriving DecidableEq

def Malformation.message : Malformation → String
  | endInList => "EOF while parsing a list"
  | endInObject => "EOF while parsing an object"
  | endInText => "EOF while parsing a string"
  | endInValue => "EOF while parsing a value"
  | noColon => "expected `:`"
  | noListSeparator => "expected `,` or `]`"
  | noObjectSeparator => "expected `,` or `\x7d`"
  | noIdentifier => "expected ident"
  | noValue => "expected value"
  | badEscape => "invalid escape"
  | badNumber => "invalid number"
  | hugeNumber => "number out of range"
  | controlCharacter => "control character (\\u0000-\\u001F) found while parsing a string"
  | keyNotText => "key must be a string"
  | loneSurrogate => "lone leading surrogate in hex escape"
  | trailingComma => "trailing comma"
  | trailingCharacters => "trailing characters"
  | endOfEscape => "unexpected end of hex escape"

/-- What stands in the place of a value of another type. -/
inductive Found
  | null
  | bool (b : Bool)
  | number (n : Number)
  | string (s : String)
  | array
  | object
  deriving DecidableEq

def Found.ofJson : Json → Found
  | .null => null
  | .bool b => bool b
  | .number n => number n
  | .string s => string s
  | .array _ => array
  | .object _ => object

def Found.description : Found → String
  | null => "null"
  | bool true => "boolean `true`"
  | bool false => "boolean `false`"
  | number (.integer n) => "integer `" ++ toString n ++ "`"
  | number (.decimal d) => "floating point `" ++ d.text ++ "`"
  | string s => "string " ++ Quoted.text s
  | array => "sequence"
  | object => "map"

/-- Why a text or a value is refused. -/
inductive Cause
  | malformed (rule : Malformation)
  /-- A value of another type was expected. -/
  | mismatch (found : Found) (expected : String)
  /-- A number lies outside the range of its type. -/
  | outOfRange (value : Int) (expected : String)
  | missing (field : String)
  | repeated (field : String)
  /-- A record given by position ends before a field that it needs. -/
  | tooFew (count : Nat) (expected : String)
  /-- A record given by position has more elements than fields. -/
  | tooMany (count : Nat)
  | badAddress (text : String) (fault : Address.Fault)
  | badData (fault : Base58.Fault)
  deriving DecidableEq

def Cause.message : Cause → String
  | .malformed rule => rule.message
  | .mismatch found expected => "invalid type: " ++ found.description ++ ", expected " ++ expected
  | .outOfRange value expected =>
    "invalid value: integer `" ++ toString value ++ "`, expected " ++ expected
  | .missing field => "missing field `" ++ field ++ "`"
  | .repeated field => "duplicate field `" ++ field ++ "`"
  | .tooFew count expected => "invalid length " ++ toString count ++ ", expected " ++ expected
  | .tooMany count =>
    "invalid length " ++ toString count ++ ", expected fewer elements in array"
  | .badAddress text fault => text ++ ": " ++ fault.message
  | .badData fault => fault.message

/-- A place in a text. Lines count from one, and columns count the bytes of the line before it. -/
structure Position where
  line : Nat
  column : Nat
  deriving DecidableEq

/-- A cause, and the place where it shows if there is a text. -/
structure Fault where
  cause : Cause
  position : Option Position
  deriving DecidableEq

def Fault.message (fault : Fault) : String :=
  match fault.position with
  | none => fault.cause.message
  | some p =>
    fault.cause.message ++ " at line " ++ toString p.line ++ " column " ++ toString p.column

/-- What comes of reading a value, as what comes of reading a text. -/
def ofValue {α : Type} : Except Cause α → Except Fault α :=
  Except.mapError fun cause => ⟨cause, none⟩

end LeafLedger.Json
