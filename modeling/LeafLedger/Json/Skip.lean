import LeafLedger.Json.Reader

namespace LeafLedger.Json.Reader

/-- Passes over an escape, behind its backslash. -/
def skipEscape : Reader Unit := do
  match ← peek with
  | none => failHere (.malformed .endInText)
  | some 'u' =>
    drop
    let _ ← hexCode
  | some c => if (escaped? c).isSome then drop else failAhead .badEscape

/-- Passes over the characters up to the closing quote. -/
def skipCharacters : Nat → Reader Unit
  | 0 => failHere (.malformed .endInText)
  | bound + 1 => do
    match ← peek with
    | none => failHere (.malformed .endInText)
    | some '"' => drop
    | some '\\' =>
      drop
      skipEscape
      skipCharacters bound
    | some c =>
      if c.toNat < 0x20 then failHere (.malformed .controlCharacter)
      else
        drop
        skipCharacters bound

/-- Passes over a quoted text, behind its opening quote. -/
def skipText : Reader Unit := do
  skipCharacters ((← length) + 1)

/-- Passes over a value that does not begin with a bracket, by its first character. -/
def skipScalar (c : Char) : Reader Unit := do
  if c = 'n' then drop; literal ['u', 'l', 'l']
  else if c = 't' then drop; literal ['r', 'u', 'e']
  else if c = 'f' then drop; literal ['a', 'l', 's', 'e']
  else if c = '"' then drop; skipText
  else if c = '-' ∨ c.isDigit then
    let _ ← numeral .badNumber
  else failAhead .noValue

/-- A bracket that is still open. -/
inductive Bracket
  | array
  | object
  deriving DecidableEq

namespace Bracket

/-- The closing bracket. -/
def closing : Bracket → Char
  | array => ']'
  | object => '\x7d'

/-- The fault of a text that ends inside. -/
def atEnd : Bracket → Malformation
  | array => .endInList
  | object => .endInObject

/-- The fault of a text that goes on behind a value with neither comma nor closing bracket. -/
def noSeparator : Bracket → Malformation
  | array => .noListSeparator
  | object => .noObjectSeparator

end Bracket

/-- Passes over the name in front of a value and its colon, if the value is one of an object. -/
def skipName : Bracket → Reader Unit
  | .array => return ()
  | .object => do
    match ← next with
    | none => failAhead .endInObject
    | some '"' => drop; skipText; colon
    | some _ => failAhead .keyNotText

/-- What a text goes on with, inside the innermost open bracket. -/
inductive Stage
  | value
  /-- The bracket was just opened. -/
  | opened
  /-- A value was just completed. -/
  | separator
  deriving DecidableEq

/-- Passes over the rest of the values whose brackets are open, innermost first. -/
def skipFrom : Nat → List Bracket → Stage → Reader Unit
  | 0, _, _ => failHere (.malformed .endInValue)
  | bound + 1, brackets, .value => do
    match ← next with
    | none => failAhead .endInValue
    | some '[' => drop; skipFrom bound (.array :: brackets) .opened
    | some '\x7b' => drop; skipFrom bound (.object :: brackets) .opened
    | some c =>
      skipScalar c
      skipFrom bound brackets .separator
  | _ + 1, [], _ => return ()
  | bound + 1, bracket :: brackets, stage => do
    match ← next with
    | none => failAhead bracket.atEnd
    | some c =>
      if c = bracket.closing then
        drop
        skipFrom bound brackets .separator
      else if stage = .opened then
        skipName bracket
        skipFrom bound (bracket :: brackets) .value
      else if c = ',' then
        drop
        skipName bracket
        skipFrom bound (bracket :: brackets) .value
      else failAhead bracket.noSeparator

/-- Passes over a value. Each character is a step at most twice, at the end of a value and before
it. -/
def skipValue : Reader Unit := do
  skipFrom (2 * (← length) + 2) [] .value

end LeafLedger.Json.Reader
