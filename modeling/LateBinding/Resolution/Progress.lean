import LateBinding.Program.DynamicCall
import LateBinding.Resolution.Error
import LateBinding.Scope.Store

/-!
# The state of a resolution

While a program is walked, scopes are opened, names are declared and used, and slots are given out.
Slots belong to a frame: each function has one of its own, which is begun on entering the function
and laid down in a layout on leaving it.
-/

namespace LateBinding.Resolution

open Scope (ScopeId Binding)

/-- A binding from outside that a closure uses, with its slot in the frame of the closure. -/
structure Capture where
  name : String
  slot : Nat
deriving DecidableEq, Repr

/-- The storage of one function: the slots of its parameters, the number of all slots, and the
bindings from outside that it uses, in the order of first use. -/
structure Layout where
  function : NodeId
  name : String
  isClosure : Bool
  params : List Nat
  slotCount : Nat
  captured : List Capture
deriving DecidableEq, Repr

/-- The function being walked: for a closure the scope of the bindings it has from outside, the next
free slot, and the captures found by now. -/
structure Frame where
  environment : Option ScopeId
  nextSlot : Nat
  captured : List Capture

/-- The frame outside all functions. -/
def Frame.outside : Frame := ⟨none, 0, []⟩

/-- All that is known at one point of the walk. -/
structure Progress where
  scopes : Scope.Store
  names : FreshName.Supply
  frame : Frame
  layouts : Array Layout
  calls : Array DynamicCall
  opened : Array (NodeId × ScopeId)
  slots : Array (NodeId × Nat)
  renamed : Array (NodeId × String)

namespace Progress

/-- The state before the walk. -/
def initial : Progress where
  scopes := Scope.Store.empty
  names := FreshName.Supply.initial
  frame := Frame.outside
  layouts := #[]
  calls := #[]
  opened := #[]
  slots := #[]
  renamed := #[]

/-- Turns the refusal of an operation on scopes into an error of the resolution. -/
def ofScope {α : Type} : Except Scope.ScopeError α → Except ResolutionError α
  | .error e => .error (.scope e)
  | .ok a => .ok a

/-- Opens the scope of a node inside another one. -/
def openScope (p : Progress) (node : NodeId) (outer : ScopeId) :
    Except ResolutionError (ScopeId × Progress) := do
  let (inner, scopes) ← ofScope (p.scopes.openInside outer)
  return (inner, { p with scopes := scopes, opened := p.opened.push (node, inner) })

/-- Records the slot of a node. -/
def recordSlot (p : Progress) (node : NodeId) (slot : Nat) : Progress :=
  { p with slots := p.slots.push (node, slot) }

/-- Records a dynamic call. -/
def recordCall (p : Progress) (node : NodeId) (selector : Selector) (arity : Nat) (span : Span) :
    Progress :=
  { p with calls := p.calls.push ⟨p.calls.size, node, selector, arity, span⟩ }

/-- Makes a fresh name. -/
def mint (p : Progress) (tag : String) : String × Progress :=
  let (name, names) := p.names.nextWith tag
  (name, { p with names := names })

/-- Declares a name in a scope, in the next slot of the frame. -/
def declare (p : Progress) (scope : ScopeId) (name : String) (mutability : Mutability) :
    Except ResolutionError (Nat × Progress) := do
  let slot := p.frame.nextSlot
  let scopes ← ofScope (p.scopes.declare scope
    { name := name, mutability := mutability, slot := some slot, captured := false })
  return (slot, { p with scopes := scopes, frame := { p.frame with nextSlot := slot + 1 } })

/-- Declares names in a scope, in the next slots of the frame. -/
def declareAll (p : Progress) (scope : ScopeId) (mutability : Mutability) :
    List String → Except ResolutionError (List Nat × Progress)
  | [] => .ok ([], p)
  | name :: rest => do
      let (slot, p) ← p.declare scope name mutability
      let (slots, p) ← p.declareAll scope mutability rest
      return (slot :: slots, p)

/-- Records that the closure being walked uses a binding from outside, unless that is known. -/
def capture (p : Progress) (environment : ScopeId) (b : Binding) : Progress :=
  if b.captured then p
  else
    { p with
      scopes := p.scopes.setCaptured environment b.name true
      frame :=
        match b.slot with
        | some slot => { p.frame with captured := p.frame.captured ++ [⟨b.name, slot⟩] }
        | none => p.frame }

/-- Uses a name: the slot of its binding, if it has one.  A binding from the environment of the
closure being walked is captured. -/
def use (p : Progress) (scope : ScopeId) (name : String) : Option Nat × Progress :=
  match p.scopes.owner? scope name, p.scopes.lookup? scope name with
  | some owner, some b =>
      (b.slot, if p.frame.environment = some owner then p.capture owner b else p)
  | _, _ => (none, p)

/-- Uses names one by one. -/
def useAll (p : Progress) (scope : ScopeId) : List String → Progress
  | [] => p
  | name :: rest => (p.use scope name).2.useAll scope rest

/-- Uses a name, and records its slot at a node if it has one. -/
def useAt (p : Progress) (scope : ScopeId) (node : NodeId) (name : String) : Progress :=
  match p.use scope name with
  | (some slot, p) => p.recordSlot node slot
  | (none, p) => p

/-- Refers to a name: to its binding, or else to something global. -/
def refer (p : Progress) (globals : List String) (scope : ScopeId) (node : NodeId) (name : String)
    (span : Span) : Except ResolutionError Progress :=
  match p.use scope name with
  | (some slot, p) => .ok (p.recordSlot node slot)
  | (none, p) => if globals.contains name then .ok p else .error (.unresolved name span)

/-- Assigns to a name.  Its binding must be one that can be set again, and belong to the function
being walked: a closure has only copies of the bindings from outside. -/
def assign (p : Progress) (scope : ScopeId) (node : NodeId) (name : String) (span : Span) :
    Except ResolutionError Progress :=
  match p.scopes.lookup? scope name with
  | none => .error (.unresolved name span)
  | some b =>
      if b.isConstant then .error (.constantAssigned name span)
      else if p.frame.environment.isSome && p.frame.environment = p.scopes.owner? scope name then
        .error (.capturedAssigned name span)
      else .ok (p.useAt scope node name)

/-- The scope of a function that is entered: its name, its scope, and its parameters' slots. -/
structure Entry where
  name : String
  scope : ScopeId
  params : List Nat

/-- The name of a function that is entered; a closure gets a fresh one. -/
def nameFunction (p : Progress) (node : NodeId) (name : String) (isClosure : Bool) :
    String × Progress :=
  if isClosure then
    let (fresh, p) := p.mint "closure"
    (fresh, { p with renamed := p.renamed.push (node, fresh) })
  else (name, p)

/-- Begins the frame of a function.  A closure takes a snapshot of everything visible around it,
whose bindings have the first slots of its frame. -/
def beginFrame (p : Progress) (outer : ScopeId) (isClosure : Bool) :
    Except ResolutionError Progress :=
  if isClosure then do
    let (environment, scopes) ← ofScope (p.scopes.snapshot outer false)
    return { p with
      scopes := scopes.clearCaptured environment
      frame := ⟨some environment, (scopes.owned environment).length, []⟩ }
  else .ok { p with frame := ⟨none, 0, []⟩ }

/-- Enters a function: names it, begins its frame, and declares its parameters in a scope inside its
environment, or inside the scope around it if it is no closure. -/
def enterFunction (p : Progress) (outer : ScopeId) (node : NodeId) (name : String)
    (params : List String) (isClosure : Bool) : Except ResolutionError (Entry × Progress) := do
  let (name, p) := p.nameFunction node name isClosure
  let p ← p.beginFrame outer isClosure
  let (scope, p) ← p.openScope node (p.frame.environment.getD outer)
  let p := { p with names := p.names.enter name }
  let (slots, p) ← p.declareAll scope .constant params
  return (⟨name, scope, slots⟩, p)

/-- Leaves a function: lays down its frame and goes back to the frame around it.  The answer names
what the function captured. -/
def leaveFunction (p : Progress) (node : NodeId) (isClosure : Bool) (entry : Entry)
    (around : Frame) : List String × Progress :=
  (p.frame.captured.map Capture.name,
    { p with
      names := p.names.exit
      frame := around
      layouts := p.layouts.push
        { function := node
          name := entry.name
          isClosure := isClosure
          params := entry.params
          slotCount := p.frame.nextSlot
          captured := p.frame.captured } })

end Progress

end LateBinding.Resolution
