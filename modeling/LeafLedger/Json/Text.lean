import LeafLedger.Json.Reader

namespace LeafLedger.Json

namespace Reader

/-- A container that is still open, with what it holds so far, last first. -/
inductive Frame
  | array (items : List Json)
  | object (fields : List (String × Json)) (name : String)

/-- A name behind its opening quote, and its colon. -/
def name : Reader String := do
  let s ← text
  colon
  return s

/-- Reads on with containers open, innermost first, and perhaps a value that is complete and goes
into the innermost one. -/
def build : Nat → List Frame → Option Json → Reader Json
  | 0, _, _ => failHere (.malformed .endInValue)
  | bound + 1, frames, none => do
    match ← next with
    | none => failAhead .endInValue
    | some '[' =>
      drop
      if ← moreItems true then build bound (.array [] :: frames) none
      else
        drop
        build bound frames (some (.array []))
    | some '\x7b' =>
      drop
      if ← moreFields true then
        let s ← name
        build bound (.object [] s :: frames) none
      else
        drop
        build bound frames (some (.object []))
    | some c =>
      let value ← scalar c
      build bound frames (some value)
  | _ + 1, [], some value => return value
  | bound + 1, .array items :: frames, some value => do
    let items := value :: items
    if ← moreItems false then build bound (.array items :: frames) none
    else
      drop
      build bound frames (some (.array items.reverse))
  | bound + 1, .object fields s :: frames, some value => do
    let fields := (s, value) :: fields
    if ← moreFields false then
      let s ← name
      build bound (.object fields s :: frames) none
    else
      drop
      build bound frames (some (.object fields.reverse))

/-- A value of any shape. Each character is a step at most twice, at the end of a value and before
it. -/
def any : Reader Json := do
  build (2 * (← length) + 2) [] none

end Reader

/-- The value that a text spells. -/
def parse (text : String) : Except Fault Json :=
  Reader.any.run text

end LeafLedger.Json
