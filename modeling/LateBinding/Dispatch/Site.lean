import LateBinding.Dispatch.Runtime

/-!
# Call sites

A call site is a dynamic call together with the answers it keeps.  At first it keeps none.  Each list
of types that it meets for the first time is looked up and kept, up to the limit of the policy; when
one more comes, the site drops its answers and uses the shared table from then on.  A call that finds
no implementation keeps nothing.
-/

namespace LateBinding.Dispatch

/-- How many lists of types a site has met: none, one, several, or more than it keeps answers for. -/
inductive Mode where
  | unlinked
  | monomorphic
  | polymorphic
  | megamorphic
deriving DecidableEq, Repr

namespace Mode

/-- Every mode. -/
def all : List Mode := [unlinked, monomorphic, polymorphic, megamorphic]

/-- The name of a mode. -/
def name : Mode → String
  | unlinked => "Unlinked"
  | monomorphic => "Monomorphic"
  | polymorphic => "Polymorphic"
  | megamorphic => "Megamorphic"

/-- A mode as messages show it. -/
def text : Mode → String
  | unlinked => "unlinked"
  | monomorphic => "monomorphic"
  | polymorphic => "polymorphic"
  | megamorphic => "megamorphic"

/-- The mode of a name. -/
def ofName? (s : String) : Option Mode :=
  all.find? fun m => m.name == s

end Mode

/-- An implementation kept for one list of types. -/
structure Entry where
  signature : List Tag
  target : Target

/-- What a site keeps: answers of its own, the oldest first, or none because it uses the shared
table. -/
inductive Cache where
  | own (entries : List Entry)
  | shared

namespace Cache

/-- The number of answers that a site keeps of its own. -/
def size : Cache → Nat
  | own entries => entries.length
  | shared => 0

/-- The mode that a site is in. -/
def mode : Cache → Mode
  | own [] => .unlinked
  | own [_] => .monomorphic
  | own (_ :: _ :: _) => .polymorphic
  | shared => .megamorphic

end Cache

/-- A dynamic call, the number of answers that it may keep, what it keeps, and how often it has
looked up an implementation and was called. -/
structure Site where
  call : DynamicCall
  limit : Nat
  cache : Cache
  resolutions : Nat
  invocations : Nat

/-- The counts of a site. -/
structure Stats where
  mode : Mode
  entries : Nat
  resolutions : Nat
  invocations : Nat
deriving DecidableEq, Repr

namespace Site

/-- A site that was never called.  It may keep at least one answer. -/
def link (policy : Policy) (call : DynamicCall) : Site where
  call := call
  limit := max policy.polymorphicLimit 1
  cache := .own []
  resolutions := 0
  invocations := 0

/-- The counts of a site. -/
def stats (s : Site) : Stats where
  mode := s.cache.mode
  entries := s.cache.size
  resolutions := s.resolutions
  invocations := s.invocations

/-- The implementation that a site keeps for a list of types. -/
def lookup? (entries : List Entry) (signature : List Tag) : Option Target :=
  (entries.find? (·.signature = signature)).map Entry.target

/-- What is looked up and kept for a call of a site: the implementation, and the site and the runtime
after it. -/
structure Located where
  target : Target
  site : Site
  runtime : Runtime

/-- Keeps an implementation found for a list of types: as an answer of the site's own, or in the
shared table when the site has no room left. -/
def keep (s : Site) (rt : Runtime) (entries : List Entry) (signature : List Tag) (target : Target) :
    Located :=
  if s.limit ≤ entries.length then
    { target := target
      site := { s with cache := .shared, resolutions := s.resolutions + 1 }
      runtime := { rt with shared := rt.shared.insert ⟨s.call.selector, signature⟩ target } }
  else
    { target := target
      site :=
        { s with
          cache := .own (entries ++ [⟨signature, target⟩])
          resolutions := s.resolutions + 1 }
      runtime := rt }

/-- Finds the implementation for operands, in what is kept or else by looking it up. -/
def locate (s : Site) (rt : Runtime) (operands : List Value) : Except DispatchError Located :=
  let signature := Value.tags operands
  match s.cache with
  | .own entries =>
      match lookup? entries signature with
      | some target => .ok ⟨target, s, rt⟩
      | none =>
          (rt.resolve s.call.selector operands).map fun target =>
            s.keep rt entries signature target
  | .shared =>
      match rt.shared.find? ⟨s.call.selector, signature⟩ with
      | some target => .ok ⟨target, s, rt⟩
      | none =>
          (rt.resolve s.call.selector operands).map fun target =>
            { target := target
              site := { s with resolutions := s.resolutions + 1 }
              runtime :=
                { rt with shared := rt.shared.insert ⟨s.call.selector, signature⟩ target } }

/-- The site after one more call. -/
def counted (s : Site) : Site :=
  { s with invocations := s.invocations + 1 }

/-- Calls a site: the outcome, and the site and the runtime after it. -/
def invoke (s : Site) (rt : Runtime) (operands : List Value) :
    Except DispatchError Value × Site × Runtime :=
  if operands.length = s.call.arity then
    match s.counted.locate rt operands with
    | .error e => (.error e, s.counted, rt)
    | .ok found => (found.target.invoke operands, found.site, found.runtime)
  else (.error (.wrongArity s.call.name s.call.arity operands.length), s.counted, rt)

end Site

end LateBinding.Dispatch
