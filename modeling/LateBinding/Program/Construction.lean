import LateBinding.Program.Traversal

/-!
# Constructing programs

Programs are built from the leaves up.  An expression is made without a parent and is attached when
another node takes it as an operand; a statement is attached to the end of its block.  A step that
fails stops there, and the nodes it has made by then stay in the forest.
-/

namespace LateBinding

/-- A step of construction, which may fail and keeps what it has made before that. -/
abbrev Building (α : Type) : Type :=
  ExceptT Malformation (StateM Forest) α

namespace Building

/-- Makes a node without links. -/
def make (construct : Construct) (span : Span) : Building NodeId :=
  ExceptT.lift (modifyGet fun f => f.add construct span)

/-- Makes a node the last child of another, if the forest allows it. -/
def attach (parent child : NodeId) : Building Unit :=
  ExceptT.mk fun f =>
    match f.attach parent child with
    | .error e => (.error e, f)
    | .ok f => (.ok (), f)

/-- Makes nodes the last children of another, one by one. -/
def attachAll (parent : NodeId) : List NodeId → Building Unit
  | [] => pure ()
  | child :: rest => do
      attach parent child
      attachAll parent rest

/-- Makes a function with an empty block as its body. -/
def functionNode (name : String) (params : List String) (isClosure : Bool) (span : Span) :
    Building NodeId := do
  let function ← make (.function name params isClosure) span
  let body ← make .block span
  attach function body
  return function

/-- Adds a function to a module. -/
def addFunction (module : NodeId) (name : String) (params : List String) (span : Span) :
    Building NodeId := do
  let function ← functionNode name params false span
  attach module function
  return function

/-- Makes a closure, an expression around a function without a name. -/
def addClosure (params : List String) (span : Span) : Building NodeId := do
  let closure ← make .closure span
  let function ← functionNode "" params true span
  attach closure function
  return closure

/-- Adds a statement with its operands to a block. -/
def addStatement (block : NodeId) (construct : Construct) (operands : List NodeId) (span : Span) :
    Building NodeId := do
  let statement ← make construct span
  attachAll statement operands
  attach block statement
  return statement

/-- Adds the declaration of a name. -/
def addDeclaration (block : NodeId) (name : String) (mutability : Mutability) (value : NodeId)
    (span : Span) : Building NodeId :=
  addStatement block (.declaration name mutability) [value] span

/-- Adds the declaration of several names for the parts of one value. -/
def addDestructuring (block : NodeId) (names : List String) (mutability : Mutability)
    (value : NodeId) (span : Span) : Building NodeId :=
  addStatement block (.destructuring names mutability) [value] span

/-- Adds an assignment. -/
def addAssignment (block : NodeId) (name : String) (value : NodeId) (span : Span) :
    Building NodeId :=
  addStatement block (.assignment name) [value] span

/-- Adds a return, with a value or without. -/
def addReturn (block : NodeId) (value : Option NodeId) (span : Span) : Building NodeId :=
  addStatement block .returning value.toList span

/-- Adds an expression whose value is not used. -/
def addEvaluation (block expression : NodeId) (span : Span) : Building NodeId :=
  addStatement block .evaluation [expression] span

/-- Adds a block as a statement. -/
def addBlock (block : NodeId) (span : Span) : Building NodeId :=
  addStatement block .block [] span

/-- Makes an empty block the last child of a node. -/
def addBody (statement : NodeId) (span : Span) : Building NodeId := do
  let body ← make .block span
  attach statement body
  return body

/-- Adds a conditional; the answer holds its block and the block for the other case, if wanted. -/
def addBranch (block condition : NodeId) (hasElse : Bool) (span : Span) :
    Building (NodeId × Option NodeId) := do
  let statement ← make .branch span
  attach statement condition
  let body ← addBody statement span
  let other ← if hasElse then some <$> addBody statement span else pure none
  attach block statement
  return (body, other)

/-- Adds a statement with one operand and a block; the answer is the block. -/
def addRepetition (block : NodeId) (construct : Construct) (operand : NodeId) (span : Span) :
    Building NodeId := do
  let statement ← make construct span
  attach statement operand
  let body ← addBody statement span
  attach block statement
  return body

/-- Adds a loop that runs while its condition holds. -/
def addLoop (block condition : NodeId) (span : Span) : Building NodeId :=
  addRepetition block .loop condition span

/-- Adds a loop that runs once for each item. -/
def addIteration (block : NodeId) (name : String) (iterable : NodeId) (span : Span) :
    Building NodeId :=
  addRepetition block (.iteration name) iterable span

/-- Makes an expression with its operands. -/
def makeExpression (construct : Construct) (operands : List NodeId) (span : Span) :
    Building NodeId := do
  let expression ← make construct span
  attachAll expression operands
  return expression

/-- Makes a constant. -/
def addConstant (literal : Literal) (span : Span) : Building NodeId :=
  makeExpression (.constant literal) [] span

/-- Makes a reference to a name. -/
def addReference (name : String) (span : Span) : Building NodeId :=
  makeExpression (.reference name) [] span

/-- Makes an operation on two operands. -/
def addBinary (op : Operator) (left right : NodeId) (span : Span) : Building NodeId :=
  if op.arity = 2 then makeExpression (.binary op) [left, right] span
  else throw (.notBinary op)

/-- Makes an operation on one operand. -/
def addUnary (op : Operator) (operand : NodeId) (span : Span) : Building NodeId :=
  if op.arity = 1 then makeExpression (.unary op) [operand] span
  else throw (.notUnary op)

/-- Makes a call of a method on a receiver. -/
def addMethodCall (receiver : NodeId) (name : String) (args : List NodeId) (span : Span) :
    Building NodeId :=
  makeExpression (.methodCall name) (receiver :: args) span

/-- Makes a call of a function by its name. -/
def addFunctionCall (name : String) (args : List NodeId) (span : Span) : Building NodeId :=
  makeExpression (.functionCall name) args span

end Building

namespace Forest

/-- The forest that holds only an empty module, its root. -/
def ofModule (name : String) : Forest :=
  (ofRoot (.module name) Span.synthetic).2

/-- The block below a node that should own one. -/
def firstBlock (f : Forest) (owner : Option NodeId) : Except Malformation NodeId :=
  match owner.bind (f.child? · 0) with
  | some block => .ok block
  | none => .error .functionWithoutBlock

/-- The block that is the body of a function, or of the function of a closure. -/
def body (f : Forest) (id : NodeId) : Except Malformation NodeId :=
  match f.node? id with
  | none => .error (.unknownNode id)
  | some n =>
      match n.construct with
      | .closure => f.firstBlock (f.child? id 0)
      | .function .. => f.firstBlock (some id)
      | other => .error (.noBody other)

end Forest

end LateBinding
