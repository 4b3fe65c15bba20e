import LateBinding.Dispatch.Site
import LateBinding.Json.Basic
import LateBinding.Program.Construct
import LateBinding.Resolution.Outcome

/-!
# Records in JSON

How the descriptions that pass between the parts of a language are written in JSON.  A record is an
object with a member for each field, and is also read from a list of its fields in order.  Members of
other names are ignored, but no field may be missing or occur twice.  A choice without contents is
its name; one with contents is an object with that name alone.
-/

namespace LateBinding

open Dispatch (Policy Mode Stats)
open Resolution (Options)

namespace Json

/-- A natural number below a bound, written without sign, fraction and power of ten. -/
def natBelow? (bound : Nat) : Json → Option Nat
  | number digits =>
      if digits.toList.all Char.isDigit then
        let n := digits.toList.foldl (fun n c => 10 * n + (c.toNat - '0'.toNat)) 0
        if n < bound then some n else none
      else none
  | _ => none

/-- A natural number of 32 bits. -/
def nat32? : Json → Option Nat := natBelow? UInt32.size

/-- A natural number of 64 bits. -/
def nat64? : Json → Option Nat := natBelow? UInt64.size

/-- A text that stands for characters. -/
def text? : Json → Option String
  | text s => s
  | _ => none

/-- The items of a list. -/
def items? : Json → Option (List Json)
  | array items => some items
  | _ => none

/-- The one value of a name among members. -/
def single? (members : List (Option String × Json)) (name : String) : Option Json :=
  match members.filter (·.1 = some name) with
  | [(_, value)] => some value
  | _ => none

/-- The fields of a record, in the order of their names. -/
def fields? (names : List String) : Json → Option (List Json)
  | array items => if items.length = names.length then some items else none
  | object members =>
      if members.all (·.1.isSome) then names.mapM (single? members) else none
  | _ => none

/-- The name of a choice, and its contents if it is written with some. -/
def choice? : Json → Option (String × Option Json)
  | text (some name) => some (name, none)
  | object [(some name, contents)] => some (name, some contents)
  | _ => none

/-- The name of a choice without contents. -/
def plainChoice? (j : Json) : Option String :=
  match j.choice? with
  | some (name, none) => some name
  | some (name, some null) => some name
  | _ => none

end Json

open Json

/-- A span as a record. -/
def Span.toJson (s : Span) : Json :=
  ofMembers [("start", ofNat s.start), ("end", ofNat s.stop), ("line", ofNat s.line),
    ("column", ofNat s.column)]

/-- The span that a record describes. -/
def Span.ofJson? (j : Json) : Option Span := do
  let [start, stop, line, column] ← j.fields? ["start", "end", "line", "column"] | none
  return ⟨← start.nat64?, ← stop.nat64?, ← line.nat32?, ← column.nat32?⟩

/-- A node number is written as a number. -/
def NodeId.toJson (id : NodeId) : Json :=
  ofNat id.index

/-- The node number that a number stands for. -/
def NodeId.ofJson? (j : Json) : Option NodeId :=
  j.nat32?.map NodeId.mk

/-- An operator is a choice without contents. -/
def Operator.toJson (op : Operator) : Json :=
  ofText op.name

/-- The operator that a choice names. -/
def Operator.ofJson? (j : Json) : Option Operator :=
  j.plainChoice?.bind Operator.ofName?

namespace Mutability

/-- The name of a mutability. -/
def name : Mutability → String
  | constant => "Constant"
  | mutable => "Variable"

/-- The mutability of a name. -/
def ofName? (s : String) : Option Mutability :=
  [constant, mutable].find? fun m => m.name == s

/-- A mutability is a choice without contents. -/
def toJson (m : Mutability) : Json :=
  ofText m.name

/-- The mutability that a choice names. -/
def ofJson? (j : Json) : Option Mutability :=
  j.plainChoice?.bind ofName?

end Mutability

/-- A selector is a choice between an operator and a method, which is a record of its name. -/
def Selector.toJson : Selector → Json
  | operator op => ofMembers [("Operator", op.toJson)]
  | method name => ofMembers [("Method", ofMembers [("name", ofText name)])]

/-- The selector that a choice describes. -/
def Selector.ofJson? (j : Json) : Option Selector :=
  match j.choice? with
  | some ("Operator", some contents) => (Operator.ofJson? contents).map .operator
  | some ("Method", some contents) => do
      let [name] ← contents.fields? ["name"] | none
      return .method (← name.text?)
  | _ => none

/-- A dynamic call as a record. -/
def DynamicCall.toJson (c : DynamicCall) : Json :=
  ofMembers [("id", ofNat c.id), ("node", c.node.toJson), ("kind", c.selector.toJson),
    ("arity", ofNat c.arity), ("span", c.span.toJson)]

/-- The dynamic call that a record describes. -/
def DynamicCall.ofJson? (j : Json) : Option DynamicCall := do
  let [id, node, selector, arity, span] ← j.fields? ["id", "node", "kind", "arity", "span"] | none
  return ⟨← id.nat32?, ← NodeId.ofJson? node, ← Selector.ofJson? selector, ← arity.nat64?,
    ← Span.ofJson? span⟩

/-- The options of a resolution as a record. -/
def Resolution.Options.toJson (o : Options) : Json :=
  ofMembers [("globals", array (o.globals.map ofText))]

/-- The options of a resolution that a record describes. -/
def Resolution.Options.ofJson? (j : Json) : Option Options := do
  let [globals] ← j.fields? ["globals"] | none
  return ⟨← (← globals.items?).mapM text?⟩

/-- A caching policy as a record. -/
def Dispatch.Policy.toJson (p : Policy) : Json :=
  ofMembers [("polymorphic_limit", ofNat p.polymorphicLimit)]

/-- The caching policy that a record describes, its limit as written. -/
def Dispatch.Policy.ofJson? (j : Json) : Option Policy := do
  let [limit] ← j.fields? ["polymorphic_limit"] | none
  return ⟨← limit.nat64?⟩

/-- The mode of a call site is a choice without contents. -/
def Dispatch.Mode.toJson (m : Mode) : Json :=
  ofText m.name

/-- The mode of a call site that a choice names. -/
def Dispatch.Mode.ofJson? (j : Json) : Option Mode :=
  j.plainChoice?.bind Mode.ofName?

/-- The counts of a call site as a record. -/
def Dispatch.Stats.toJson (s : Stats) : Json :=
  ofMembers [("mode", s.mode.toJson), ("entries", ofNat s.entries),
    ("resolutions", ofNat s.resolutions), ("invocations", ofNat s.invocations)]

/-- The counts of a call site that a record describes. -/
def Dispatch.Stats.ofJson? (j : Json) : Option Stats := do
  let [mode, entries, resolutions, invocations] ←
    j.fields? ["mode", "entries", "resolutions", "invocations"] | none
  return ⟨← Mode.ofJson? mode, ← entries.nat64?, ← resolutions.nat64?, ← invocations.nat64?⟩

end LateBinding
