import LateBinding.Program.Tree
import LateBinding.Resolution.Progress

/-!
# The walk through a program

The walk goes through the tree once, in source order.  A block, a loop over items and a function each
open a scope; everything else stays in the scope it stands in.  The value of a declaration is walked
before its name is declared, so it does not see the name.
-/

namespace LateBinding.Resolution

open Scope (ScopeId)

mutual

/-- Walks a function in the scope around it; the answer names what it captured. -/
def function (globals : List String) (outer : ScopeId) :
    Tree → Progress → Except ResolutionError (List String × Progress)
  | .mk id node children, p =>
      match node.construct with
      | .function name params isClosure => do
          let (entry, q) ← p.enterFunction outer id name params isClosure
          let q ← body globals entry.scope children q
          return q.leaveFunction id isClosure entry p.frame
      | _ => .error (.malformed .functionExpected)

/-- Walks the children of a function, the first of which must be its block. -/
def body (globals : List String) (scope : ScopeId) :
    List Tree → Progress → Except ResolutionError Progress
  | [], _ => .error (.malformed .functionWithoutBlock)
  | t :: _, p =>
      if t.construct.isBlock then block globals scope t p
      else .error (.malformed .functionWithoutBlock)

/-- Walks a block in a scope of its own. -/
def block (globals : List String) (outer : ScopeId) :
    Tree → Progress → Except ResolutionError Progress
  | .mk id _ children, p => do
      let (scope, p) ← p.openScope id outer
      statements globals scope children p

/-- Walks statements in order. -/
def statements (globals : List String) (scope : ScopeId) :
    List Tree → Progress → Except ResolutionError Progress
  | [], p => .ok p
  | t :: rest, p => do
      let p ← statement globals scope t p
      statements globals scope rest p

/-- Walks one statement. -/
def statement (globals : List String) (scope : ScopeId) :
    Tree → Progress → Except ResolutionError Progress
  | .mk id node children, p =>
      match node.construct with
      | .declaration name mutability => do
          let p ← operands globals scope children p
          let (slot, p) ← p.declare scope name mutability
          return p.recordSlot id slot
      | .destructuring names mutability => do
          let p ← operands globals scope children p
          let (whole, p) := p.mint "destruct"
          let (slot, p) ← p.declare scope whole .constant
          let (_, p) ← (p.recordSlot id slot).declareAll scope mutability names
          return p
      | .assignment name => do
          let p ← operands globals scope children p
          p.assign scope id name node.span
      | .iteration name => iteration globals scope id name children p
      | .returning | .branch | .loop | .evaluation => operands globals scope children p
      | .block => do
          let (inner, p) ← p.openScope id scope
          statements globals inner children p
      | other => .error (.malformed (.notStatement other))

/-- Walks the children of a loop over items: the items in the scope around the loop, then the block
in the scope of the loop, which has the item and what is left of the items. -/
def iteration (globals : List String) (outer : ScopeId) (id : NodeId) (name : String) :
    List Tree → Progress → Except ResolutionError Progress
  | [], _ => .error (.malformed .iterationWithoutIterable)
  | items :: rest, p => do
      let p ← expression globals outer items p
      let (scope, p) ← p.openScope id outer
      let (iterator, p) := p.mint "foreach"
      let (_, p) ← p.declare scope iterator .constant
      let (slot, p) ← p.declare scope name .mutable
      iterationBody globals scope rest (p.recordSlot id slot)

/-- Walks the block of a loop over items. -/
def iterationBody (globals : List String) (scope : ScopeId) :
    List Tree → Progress → Except ResolutionError Progress
  | [], _ => .error (.malformed .iterationWithoutBody)
  | t :: _, p => block globals scope t p

/-- Walks operands and nested blocks in order. -/
def operands (globals : List String) (scope : ScopeId) :
    List Tree → Progress → Except ResolutionError Progress
  | [], p => .ok p
  | t :: rest, p => do
      let p ← if t.construct.isBlock then block globals scope t p else expression globals scope t p
      operands globals scope rest p

/-- Walks an expression. -/
def expression (globals : List String) (scope : ScopeId) :
    Tree → Progress → Except ResolutionError Progress
  | .mk id node children, p =>
      match node.construct with
      | .constant _ => .ok p
      | .reference name => p.refer globals scope id name node.span
      | .binary op | .unary op =>
          operands globals scope children
            (p.recordCall id (.operator op) children.length node.span)
      | .methodCall name =>
          operands globals scope children
            (p.recordCall id (.method name) children.length node.span)
      | .functionCall name => operands globals scope children (p.useAt scope id name)
      | .closure => closure globals scope children p
      | other => .error (.malformed (.notExpression other))

/-- Walks the function of a closure.  What it captured is then used by the function around it, which
captures it in turn if it is a closure that has it from outside. -/
def closure (globals : List String) (scope : ScopeId) :
    List Tree → Progress → Except ResolutionError Progress
  | [], _ => .error (.malformed .closureWithoutFunction)
  | t :: _, p => do
      let (captured, p) ← function globals scope t p
      return p.useAll scope captured

end

/-- Walks the functions of a module. -/
def moduleFunctions (globals : List String) (scope : ScopeId) :
    List Tree → Progress → Except ResolutionError Progress
  | [], p => .ok p
  | t :: rest, p =>
      if t.construct.isFunction then do
        let (_, p) ← function globals scope t p
        moduleFunctions globals scope rest p
      else .error (.malformed (.notAtModuleLevel t.construct))

end LateBinding.Resolution
