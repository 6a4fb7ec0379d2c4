import LeafLedger.Json.Fault

namespace LeafLedger.Json

namespace Position

/-- The beginning of a text. -/
def start : Position :=
  ⟨1, 0⟩

/-- The place behind a character. -/
def past (p : Position) (c : Char) : Position :=
  if c = '\n' then ⟨p.line + 1, 0⟩ else ⟨p.line, p.column + c.utf8Size⟩

/-- The place behind the first byte of a character. -/
def pastByte (p : Position) (c : Char) : Position :=
  if c = '\n' then ⟨p.line + 1, 0⟩ else ⟨p.line, p.column + 1⟩

/-- The place behind so many bytes of a text, if the text has them. -/
def pastBytes (p : Position) : Nat → List Char → Option Position
  | 0, _ => some p
  | _ + 1, [] => none
  | n + 1, c :: cs =>
    if c.utf8Size ≤ n + 1 then pastBytes (p.past c) (n + 1 - c.utf8Size) cs
    else some ⟨p.line, p.column + n + 1⟩

end Position

/-- What is left of a text, where it begins, and the length of the whole text, which bounds every
walk over it. -/
structure Input where
  here : Position
  rest : List Char
  length : Nat

namespace Input

/-- A whole text. -/
def ofText (text : String) : Input :=
  ⟨.start, text.toList, text.length⟩

/-- The place behind the next byte, or the end. -/
def ahead (i : Input) : Position :=
  match i.rest with
  | [] => i.here
  | c :: _ => i.here.pastByte c

/-- Whether a character may stand between values. -/
def isSpace (c : Char) : Bool :=
  c == ' ' || c == '\n' || c == '\t' || c == '\r'

/-- The input behind its first character. -/
def drop (i : Input) : Input :=
  match i.rest with
  | [] => i
  | c :: cs => { i with here := i.here.past c, rest := cs }

/-- The place and the rest of a text behind the spaces at its front. -/
def skipSpaces (here : Position) : List Char → Position × List Char
  | [] => (here, [])
  | c :: cs => if isSpace c then skipSpaces (here.past c) cs else (here, c :: cs)

/-- The input behind the spaces at its front. -/
def trim (i : Input) : Input :=
  let (here, rest) := skipSpaces i.here i.rest
  { i with here, rest }

end Input

/-- A reader takes a value from the front of its input. -/
abbrev Reader := StateT Input (Except Fault)

namespace Reader

variable {α : Type}

/-- Gives up where the reader stands. -/
def failHere (cause : Cause) : Reader α := fun i =>
  .error ⟨cause, some i.here⟩

/-- Gives up because of the next character. -/
def failAhead (rule : Malformation) : Reader α := fun i =>
  .error ⟨.malformed rule, some i.ahead⟩

/-- The next character, which stays. -/
def peek : Reader (Option Char) := fun i =>
  .ok (i.rest.head?, i)

/-- Passes over the next character. -/
def drop : Reader Unit := fun i =>
  .ok ((), i.drop)

/-- Passes over spaces. The next character stays. -/
def next : Reader (Option Char) := fun i =>
  .ok (i.trim.rest.head?, i.trim)

/-- The length of the whole text, which is at least that of what is left. -/
def length : Reader Nat := fun i =>
  .ok (i.length, i)

/-- Passes over the rest of a word. -/
def literal : List Char → Reader Unit
  | [] => return ()
  | e :: es => do
    match ← peek with
    | none => failHere (.malformed .endInValue)
    | some c => if c = e then do drop; literal es else failAhead .noIdentifier

/-- The value of a hexadecimal digit. -/
def hexDigit? (c : Char) : Option Nat :=
  if '0' ≤ c ∧ c ≤ '9' then some (c.toNat - 48)
  else if 'a' ≤ c ∧ c ≤ 'f' then some (c.toNat - 87)
  else if 'A' ≤ c ∧ c ≤ 'F' then some (c.toNat - 55)
  else none

/-- The number that four hexadecimal digits spell. -/
def hexCode? (a b c d : Char) : Option Nat := do
  return ((← hexDigit? a) * 16 + (← hexDigit? b)) * 256 + (← hexDigit? c) * 16 + (← hexDigit? d)

/-- The number that the next four bytes spell. -/
def hexCode : Reader Nat := fun i =>
  let code :=
    match i.rest with
    | a :: b :: c :: d :: cs => (hexCode? a b c d).map (·, cs)
    | _ => none
  match code, i.here.pastBytes 4 i.rest with
  | some (n, cs), some p => .ok (n, { i with here := p, rest := cs })
  | none, some p => .error ⟨.malformed .badEscape, some p⟩
  | _, none => .error ⟨.malformed .endInText, some (i.rest.foldl .past i.here)⟩

/-- Whether a code is the first half of a surrogate pair. -/
def isHigh (n : Nat) : Bool :=
  0xd800 ≤ n && n < 0xdc00

/-- Whether a code is the second half of a surrogate pair. -/
def isLow (n : Nat) : Bool :=
  0xdc00 ≤ n && n < 0xe000

/-- One of the characters of an escape that cannot be left out. -/
def escapeMark (mark : Char) : Reader Unit := do
  match ← peek with
  | none => failHere (.malformed .endInText)
  | some c => if c = mark then drop else failAhead .endOfEscape

/-- The character that stands behind `\u`, as one code or as a surrogate pair. -/
def coded : Reader Char := do
  let n ← hexCode
  if isLow n then failHere (.malformed .loneSurrogate)
  else if isHigh n then
    escapeMark '\\'
    escapeMark 'u'
    let m ← hexCode
    if isLow m then return Char.ofNat (0x10000 + (n - 0xd800) * 0x400 + (m - 0xdc00))
    else failHere (.malformed .loneSurrogate)
  else return Char.ofNat n

/-- The character that a backslash and a letter stand for. -/
def escaped? : Char → Option Char
  | '"' => some '"'
  | '\\' => some '\\'
  | '/' => some '/'
  | 'b' => some '\x08'
  | 'f' => some '\x0c'
  | 'n' => some '\n'
  | 'r' => some '\r'
  | 't' => some '\t'
  | _ => none

/-- The character that an escape stands for, behind its backslash. -/
def escape : Reader Char := do
  match ← peek with
  | none => failHere (.malformed .endInText)
  | some 'u' => drop; coded
  | some c =>
    match escaped? c with
    | some e => drop; return e
    | none => failAhead .badEscape

/-- The characters up to the closing quote, after those that are done. -/
def characters : Nat → List Char → Reader (List Char)
  | 0, _ => failHere (.malformed .endInText)
  | bound + 1, done => do
    match ← peek with
    | none => failHere (.malformed .endInText)
    | some '"' => drop; return done.reverse
    | some '\\' =>
      drop
      let c ← escape
      characters bound (c :: done)
    | some c =>
      if c.toNat < 0x20 then failAhead .controlCharacter
      else
        drop
        characters bound (c :: done)

/-- A quoted text, behind the opening quote. -/
def text : Reader String := do
  return String.ofList (← characters ((← length) + 1) [])

/-- The parts of a number as it is written. -/
structure Numeral where
  negative : Bool
  whole : List Nat
  fraction : Option (List Nat)
  exponent : Option (Bool × List Nat)

/-- The digits at the front. -/
def digits : Reader (List Nat) := fun i =>
  let (ds, rest) := i.rest.span Char.isDigit
  let here := { i.here with column := i.here.column + ds.length }
  .ok (ds.map (·.toNat - 48), { i with here, rest })

/-- At least one digit. A text that ends before it is a fault of its own. -/
def someDigits (atEnd : Malformation) : Reader (List Nat) := do
  match ← peek with
  | none => failHere (.malformed atEnd)
  | some c => if c.isDigit then digits else failAhead .badNumber

/-- The digits before the point: no zero stands in front of another digit. -/
def wholeDigits (atEnd : Malformation) : Reader (List Nat) := do
  match ← peek with
  | some '0' =>
    drop
    match ← peek with
    | some c => if c.isDigit then failAhead .badNumber else return [0]
    | none => return [0]
  | _ => someDigits atEnd

/-- A point and digits, if the text goes on with a point. -/
def fractionDigits (atEnd : Malformation) : Reader (Option (List Nat)) := do
  match ← peek with
  | some '.' => drop; return some (← someDigits atEnd)
  | _ => return none

/-- An exponent with its sign, if the text goes on with one. -/
def exponentDigits (atEnd : Malformation) : Reader (Option (Bool × List Nat)) := do
  let mark ← peek
  if mark = some 'e' ∨ mark = some 'E' then
    drop
    let sign ← peek
    if sign = some '+' ∨ sign = some '-' then drop
    return some (sign == some '-', ← someDigits atEnd)
  else return none

/-- The parts of a number. -/
def numeral (atEnd : Malformation) : Reader Numeral := do
  let negative := (← peek) == some '-'
  if negative then drop
  return {
    negative
    whole := ← wholeDigits atEnd
    fraction := ← fractionDigits atEnd
    exponent := ← exponentDigits atEnd }

/-- The number that digits spell. -/
def digitsValue (ds : List Nat) : Nat :=
  ds.foldl (10 * · + ·) 0

/-- The number of digits at the end of an exponent from the first one on that takes it out of the
range of thirty-two bits. -/
def excess (ds : List Nat) : Nat :=
  let ds := ds.dropWhile (· == 0)
  ds.length - if Int32.maxValue.toInt < digitsValue (ds.take 10) then 9 else 10

/-- The number that the parts stand for. An exponent that is out of range shows at its first digit
too many, every other number that is too large at its end. -/
def ofNumeral (n : Numeral) : Reader Number := do
  let value := digitsValue n.whole
  let size : Int := if n.negative then -value else value
  let fits := Int64.minValue.toInt ≤ size ∧ size < UInt64.size ∧ ¬ (n.negative ∧ value = 0)
  if n.fraction = none ∧ n.exponent = none ∧ fits then return .integer size
  else
    let (below, ds) := n.exponent.getD (false, [])
    let exponent : Int := digitsValue ds
    let d := Decimal.ofDigits n.negative n.whole (n.fraction.getD [])
      (if below then -exponent else exponent)
    let extra := excess ds
    if extra ≠ 0 ∧ ¬ below ∧ d.significand ≠ 0 then
      fun i => .error ⟨.malformed .hugeNumber, some ⟨i.here.line, i.here.column + 1 - extra⟩⟩
    else if d.toFloat?.isNone then failHere (.malformed .hugeNumber)
    else return .decimal d

def number : Reader Number := do
  ofNumeral (← numeral .endInValue)

/-- Whether an array has another element. The bracket or the element stays. -/
def moreItems (first : Bool) : Reader Bool := do
  match ← next with
  | none => failAhead .endInList
  | some ']' => return false
  | some c =>
    if first then return true
    else if c = ',' then
      drop
      match ← next with
      | none => failAhead .endInValue
      | some ']' => failAhead .trailingComma
      | some _ => return true
    else failAhead .noListSeparator

/-- Whether an object has another field. The bracket stays, and the name follows its quote. -/
def moreFields (first : Bool) : Reader Bool := do
  match ← next with
  | none => failAhead .endInObject
  | some '\x7d' => return false
  | some c =>
    if first then
      if c = '"' then do drop; return true else failAhead .keyNotText
    else if c = ',' then
      drop
      match ← next with
      | none => failAhead .endInValue
      | some '"' => drop; return true
      | some '\x7d' => failAhead .trailingComma
      | some _ => failAhead .keyNotText
    else failAhead .noObjectSeparator

/-- The colon behind a name. -/
def colon : Reader Unit := do
  match ← next with
  | none => failAhead .endInObject
  | some ':' => drop
  | some _ => failAhead .noColon

/-- A value that does not begin with a bracket, by its first character. -/
def scalar (c : Char) : Reader Json := do
  if c = 'n' then drop; literal ['u', 'l', 'l']; return .null
  else if c = 't' then drop; literal ['r', 'u', 'e']; return .bool true
  else if c = 'f' then drop; literal ['a', 'l', 's', 'e']; return .bool false
  else if c = '"' then drop; return .string (← text)
  else if c = '-' ∨ c.isDigit then return .number (← number)
  else failAhead .noValue

/-- The end of the text, behind spaces. -/
def finish : Reader Unit := do
  match ← next with
  | none => return ()
  | some _ => failAhead .trailingCharacters

/-- Reads a text from its beginning to its end. -/
def run (read : Reader α) (text : String) : Except Fault α := do
  let (a, rest) ← read (Input.ofText text)
  let _ ← finish rest
  return a

end Reader

end LeafLedger.Json
