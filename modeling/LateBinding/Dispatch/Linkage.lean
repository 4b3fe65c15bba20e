import LateBinding.Dispatch.Site

/-!
# Linked programs

Linking makes a call site of every dynamic call of a program.  The sites of a program share one
runtime, and a run calls them in any order.
-/

namespace LateBinding.Dispatch

/-- The call sites of a program with the runtime they share. -/
structure Linkage where
  runtime : Runtime
  sites : Array Site

namespace Linkage

/-- The sites of dynamic calls, in order, none called yet. -/
def link (rt : Runtime) (calls : List DynamicCall) : Linkage where
  runtime := rt
  sites := (calls.map (Site.link rt.policy)).toArray

/-- Calls a site; there is no outcome if there is no such site. -/
def invoke? (l : Linkage) (i : Nat) (operands : List Value) :
    Option (Except DispatchError Value) × Linkage :=
  match l.sites[i]? with
  | none => (none, l)
  | some s =>
      let (outcome, site, rt) := s.invoke l.runtime operands
      (some outcome, { runtime := rt, sites := l.sites.setIfInBounds i site })

/-- Calls sites one after the other; the outcomes, and what is left. -/
def run (l : Linkage) : List (Nat × List Value) → List (Option (Except DispatchError Value)) × Linkage
  | [] => ([], l)
  | (i, operands) :: rest =>
      let (outcome, next) := l.invoke? i operands
      let (outcomes, final) := next.run rest
      (outcome :: outcomes, final)

/-- Keeps an implementation in the shared table by hand. -/
def share (l : Linkage) (selector : Selector) (signature : List Tag) (target : Target) : Linkage :=
  { l with
    runtime := { l.runtime with shared := l.runtime.shared.insert ⟨selector, signature⟩ target } }

end Linkage

end LateBinding.Dispatch
