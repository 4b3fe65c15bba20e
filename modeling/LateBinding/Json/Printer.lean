import LateBinding.Json.Basic

/-!
# Writing JSON

Values are written without blanks.  In texts only quotes, backslashes and control characters are
escaped.
-/

namespace LateBinding.Json

/-- A control character by its number. -/
def controlEscape (c : Char) : String :=
  let digits := Nat.toDigits 16 c.toNat
  "\\u" ++ String.ofList (List.replicate (4 - digits.length) '0' ++ digits)

/-- A text with one more character as it is written between quotes. -/
def writeChar (out : String) (c : Char) : String :=
  if c = '"' then out ++ "\\\""
  else if c = '\\' then out ++ "\\\\"
  else if c.toNat < 0x20 then out ++ controlEscape c
  else out.push c

/-- A text between quotes; one that stands for no characters is written as an empty one. -/
def writeText (s : Option String) : String :=
  ((s.getD "").toList.foldl writeChar "\"").push '"'

mutual

/-- The text of a value. -/
def render : Json → String
  | null => "null"
  | bool b => if b then "true" else "false"
  | number digits => digits
  | text s => writeText s
  | array [] => "[]"
  | array (v :: rest) => "[" ++ v.render ++ renderItems rest ++ "]"
  | object [] => "\x7b\x7d"
  | object ((name, v) :: rest) =>
      "\x7b" ++ writeText name ++ ":" ++ v.render ++ renderMembers rest ++ "\x7d"

/-- The items after the first, a comma before each. -/
def renderItems : List Json → String
  | [] => ""
  | v :: rest => "," ++ v.render ++ renderItems rest

/-- The members after the first, a comma before each. -/
def renderMembers : List (Option String × Json) → String
  | [] => ""
  | (name, v) :: rest => "," ++ writeText name ++ ":" ++ v.render ++ renderMembers rest

end

end LateBinding.Json
