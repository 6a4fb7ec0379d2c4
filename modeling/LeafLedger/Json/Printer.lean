import LeafLedger.Json.Value

namespace LeafLedger.Json

/-- A character inside a quoted text. -/
def escapeChar (c : Char) : String :=
  if c = '"' then "\\\""
  else if c = '\\' then "\\\\"
  else if c.toNat < 0x20 ∨ c.toNat = 0x7f then
    let digits := Nat.toDigits 16 c.toNat
    "\\u" ++ String.ofList (List.replicate (4 - digits.length) '0' ++ digits)
  else c.toString

/-- A quoted text. -/
def renderText (s : String) : String :=
  s.foldl (fun out c => out ++ escapeChar c) "\"" ++ "\""

mutual

/-- A value as text, after what is already written. -/
def renderOnto (out : String) : Json → String
  | .null => out ++ "null"
  | .bool true => out ++ "true"
  | .bool false => out ++ "false"
  | .number n => out ++ n.text
  | .string s => out ++ renderText s
  | .array [] => out ++ "[]"
  | .array (item :: items) => renderItems (renderOnto (out ++ "[") item) items ++ "]"
  | .object [] => out ++ "\x7b\x7d"
  | .object ((name, value) :: fields) =>
    renderFields (renderOnto (out ++ "\x7b" ++ renderText name ++ ":") value) fields ++ "\x7d"

/-- The elements after the first. -/
def renderItems (out : String) : List Json → String
  | [] => out
  | item :: items => renderItems (renderOnto (out ++ ",") item) items

/-- The fields after the first. -/
def renderFields (out : String) : List (String × Json) → String
  | [] => out
  | (name, value) :: fields =>
    renderFields (renderOnto (out ++ "," ++ renderText name ++ ":") value) fields

end

/-- A value as text. -/
def render (value : Json) : String :=
  renderOnto "" value

end LeafLedger.Json
