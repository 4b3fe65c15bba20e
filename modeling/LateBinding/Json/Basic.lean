/-!
# JSON values

A JSON value as it is written: numbers keep their digits and objects keep all their members in order,
so that a reader of records can tell `1` from `1.0` and see a name that occurs twice.
-/

namespace LateBinding

/-- A JSON value.  A text whose escapes name half of a surrogate pair stands for no characters and is
`text none`; the names of members are texts as well. -/
inductive Json where
  | null
  | bool (b : Bool)
  | number (digits : String)
  | text (s : Option String)
  | array (items : List Json)
  | object (members : List (Option String × Json))

namespace Json

/-- A natural number. -/
def ofNat (n : Nat) : Json :=
  number (toString n)

/-- An integer. -/
def ofInt (n : Int) : Json :=
  number (toString n)

/-- A text. -/
def ofText (s : String) : Json :=
  text (some s)

/-- An object with given names and values. -/
def ofMembers (members : List (String × Json)) : Json :=
  object (members.map fun (name, value) => (some name, value))

/-- The value of a name in an object, the first if there are several. -/
def member? : Json → String → Option Json
  | object members, name => (members.find? (·.1 = some name)).map Prod.snd
  | _, _ => none

end Json

end LateBinding
