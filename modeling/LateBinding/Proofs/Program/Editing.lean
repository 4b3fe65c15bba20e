import LateBinding.Program.Construction

/-!
# Edits of a forest

All that can be done to a forest, as data: the operations on nodes and links, and the steps of
construction, each with any node numbers whatever.  An edit that fails keeps what it has made before
that, so a sequence of edits can always be carried out to its end.

* `Building.Call`, `Forest.Edit` - the steps of construction, and all edits.
* `Forest.after` - the forest after a sequence of edits.
* `Building.Preserves` - a property of forests that a step of construction keeps, whether it fails
  or not.  What new nodes and single attachments keep, every step keeps (`Building.Call.preserves`),
  and what every single change keeps, every sequence of edits keeps (`Forest.after_induction`).
-/

namespace LateBinding

namespace Building

/-- A step of construction with its arguments. -/
inductive Call where
  | function (module : NodeId) (name : String) (params : List String) (span : Span)
  | closure (params : List String) (span : Span)
  | declaration (block : NodeId) (name : String) (mutability : Mutability) (value : NodeId)
      (span : Span)
  | destructuring (block : NodeId) (names : List String) (mutability : Mutability) (value : NodeId)
      (span : Span)
  | assignment (block : NodeId) (name : String) (value : NodeId) (span : Span)
  | returning (block : NodeId) (value : Option NodeId) (span : Span)
  | branch (block condition : NodeId) (hasElse : Bool) (span : Span)
  | loop (block condition : NodeId) (span : Span)
  | iteration (block : NodeId) (name : String) (iterable : NodeId) (span : Span)
  | nested (block : NodeId) (span : Span)
  | evaluation (block expression : NodeId) (span : Span)
  | constant (literal : Literal) (span : Span)
  | reference (name : String) (span : Span)
  | binary (op : Operator) (left right : NodeId) (span : Span)
  | unary (op : Operator) (operand : NodeId) (span : Span)
  | methodCall (receiver : NodeId) (name : String) (args : List NodeId) (span : Span)
  | functionCall (name : String) (args : List NodeId) (span : Span)

/-- Carries out a step of construction; its answer is left out. -/
def Call.perform : Call → Building Unit
  | .function module name params span => discard (addFunction module name params span)
  | .closure params span => discard (addClosure params span)
  | .declaration block name mutability value span =>
      discard (addDeclaration block name mutability value span)
  | .destructuring block names mutability value span =>
      discard (addDestructuring block names mutability value span)
  | .assignment block name value span => discard (addAssignment block name value span)
  | .returning block value span => discard (addReturn block value span)
  | .branch block condition hasElse span => discard (addBranch block condition hasElse span)
  | .loop block condition span => discard (addLoop block condition span)
  | .iteration block name iterable span => discard (addIteration block name iterable span)
  | .nested block span => discard (addBlock block span)
  | .evaluation block expression span => discard (addEvaluation block expression span)
  | .constant literal span => discard (addConstant literal span)
  | .reference name span => discard (addReference name span)
  | .binary op left right span => discard (addBinary op left right span)
  | .unary op operand span => discard (addUnary op operand span)
  | .methodCall receiver name args span => discard (addMethodCall receiver name args span)
  | .functionCall name args span => discard (addFunctionCall name args span)

/-- A single change of the forest, which is left as it is if the change is refused. -/
def change (edit : Forest → Except Malformation Forest) : Building Unit :=
  ExceptT.mk fun f =>
    match edit f with
    | .error e => (.error e, f)
    | .ok next => (.ok (), next)

/-- The outcome of a step of construction, and the forest after it. -/
def exec {α : Type} (b : Building α) (f : Forest) : Except Malformation α × Forest :=
  (ExceptT.run b).run f

end Building

namespace Forest

/-- All that can be done to a forest: operations on nodes and links, and steps of construction. -/
inductive Edit where
  | add (construct : Construct) (span : Span)
  | attach (parent child : NodeId)
  | detach (child : NodeId)
  | setRoot (id : NodeId)
  | setSlot (id : NodeId) (slot : Nat)
  | setFunctionName (id : NodeId) (name : String)
  | build (call : Building.Call)

/-- Carries out an edit. -/
def Edit.perform : Edit → Building Unit
  | .add construct span => discard (Building.make construct span)
  | .attach parent child => Building.attach parent child
  | .detach child => Building.change (·.detach child)
  | .setRoot id => Building.change (·.setRoot id)
  | .setSlot id slot => Building.change (·.setSlot id slot)
  | .setFunctionName id name => Building.change (·.setFunctionName id name)
  | .build call => call.perform

/-- The forest after edits, carried out one after the other whether they fail or not. -/
def after (f : Forest) (edits : List Edit) : Forest :=
  edits.foldl (fun f edit => (edit.perform.exec f).2) f

/-- The forest to begin with: one with an empty module of a given name, or one without nodes. -/
def initial : Option String → Forest
  | some name => ofModule name
  | none => empty

end Forest

namespace Building

/-! ### What construction keeps -/

/-- A property of forests that a step of construction keeps, whether it fails or not. -/
def Preserves {α : Type} (P : Forest → Prop) (b : Building α) : Prop :=
  ∀ f, P f → P (b.exec f).2

/-- A step after another is taken where the first one has succeeded. -/
theorem exec_bind {α β : Type} (b : Building α) (next : α → Building β) (f : Forest) :
    (b >>= next).exec f =
      match b.exec f with
      | (.ok a, g) => (next a).exec g
      | (.error e, g) => (.error e, g) := by
  show (ExceptT.run (b >>= next)).run f = _
  rw [ExceptT.run_bind, StateT.run_bind]
  unfold exec
  cases hOutcome : (ExceptT.run b).run f with
  | mk outcome g =>
      cases outcome with
      | ok a => rfl
      | error e => rfl

section Preserving

variable {P : Forest → Prop} {α β : Type}

theorem preserves_pure (a : α) : Preserves P (pure a : Building α) :=
  fun _ hP => hP

theorem preserves_throw (e : Malformation) : Preserves P (throw e : Building α) :=
  fun _ hP => hP

theorem Preserves.bind {b : Building α} {next : α → Building β} (hFirst : Preserves P b)
    (hNext : ∀ a, Preserves P (next a)) : Preserves P (b >>= next) := by
  intro f hP
  rw [exec_bind]
  have hMiddle := hFirst f hP
  cases hOutcome : b.exec f with
  | mk outcome g =>
      rw [hOutcome] at hMiddle
      cases outcome with
      | ok a => exact hNext a g hMiddle
      | error e => exact hMiddle

theorem Preserves.map {b : Building α} (hFirst : Preserves P b) (g : α → β) :
    Preserves P (g <$> b) := by
  have hEq : g <$> b = b >>= fun a => pure (g a) := (bind_pure_comp g b).symm
  rw [hEq]
  exact hFirst.bind fun a => preserves_pure (g a)

theorem Preserves.discard {b : Building α} (hFirst : Preserves P b) :
    Preserves P (discard b) :=
  hFirst.map _

/-- A change keeps what it keeps when it is not refused. -/
theorem preserves_change {edit : Forest → Except Malformation Forest}
    (hEdit : ∀ f next, P f → edit f = .ok next → P next) : Preserves P (change edit) := by
  intro f hP
  show P (match edit f with
    | .error e => ((.error e : Except Malformation Unit), f)
    | .ok next => (.ok (), next)).2
  cases hOutcome : edit f with
  | error e => exact hP
  | ok next => exact hEdit f next hP hOutcome

variable (hAdd : ∀ f construct span, P f → P (f.add construct span).2)
  (hAttach : ∀ f parent child next, P f → f.attach parent child = .ok next → P next)

include hAdd in
theorem preserves_make (construct : Construct) (span : Span) : Preserves P (make construct span) :=
  fun f hP => hAdd f construct span hP

include hAttach in
theorem preserves_attach (parent child : NodeId) : Preserves P (attach parent child) :=
  preserves_change fun f next => hAttach f parent child next

include hAttach in
theorem preserves_attachAll (parent : NodeId) (children : List NodeId) :
    Preserves P (attachAll parent children) := by
  induction children with
  | nil => exact preserves_pure ()
  | cons child rest ih => exact (preserves_attach hAttach parent child).bind fun _ => ih

include hAdd hAttach

theorem preserves_functionNode (name : String) (params : List String) (isClosure : Bool)
    (span : Span) : Preserves P (functionNode name params isClosure span) :=
  (preserves_make hAdd _ span).bind fun function =>
    (preserves_make hAdd _ span).bind fun body =>
      (preserves_attach hAttach function body).bind fun _ => preserves_pure function

theorem preserves_addStatement (block : NodeId) (construct : Construct) (operands : List NodeId)
    (span : Span) : Preserves P (addStatement block construct operands span) :=
  (preserves_make hAdd construct span).bind fun statement =>
    (preserves_attachAll hAttach statement operands).bind fun _ =>
      (preserves_attach hAttach block statement).bind fun _ => preserves_pure statement

theorem preserves_addBody (statement : NodeId) (span : Span) :
    Preserves P (addBody statement span) :=
  (preserves_make hAdd _ span).bind fun body =>
    (preserves_attach hAttach statement body).bind fun _ => preserves_pure body

theorem preserves_addBranch (block condition : NodeId) (hasElse : Bool) (span : Span) :
    Preserves P (addBranch block condition hasElse span) := by
  refine (preserves_make hAdd _ span).bind fun statement => ?_
  refine (preserves_attach hAttach statement condition).bind fun _ => ?_
  refine (preserves_addBody hAdd hAttach statement span).bind fun body => ?_
  have hRest : ∀ other : Option NodeId, Preserves P (attach block statement >>= fun _ =>
      (pure (body, other) : Building (NodeId × Option NodeId))) :=
    fun other => (preserves_attach hAttach block statement).bind fun _ => preserves_pure _
  cases hasElse with
  | true => exact ((preserves_addBody hAdd hAttach statement span).map some).bind hRest
  | false => exact (preserves_pure none).bind hRest

theorem preserves_addRepetition (block : NodeId) (construct : Construct) (operand : NodeId)
    (span : Span) : Preserves P (addRepetition block construct operand span) :=
  (preserves_make hAdd construct span).bind fun statement =>
    (preserves_attach hAttach statement operand).bind fun _ =>
      (preserves_addBody hAdd hAttach statement span).bind fun body =>
        (preserves_attach hAttach block statement).bind fun _ => preserves_pure body

theorem preserves_makeExpression (construct : Construct) (operands : List NodeId) (span : Span) :
    Preserves P (makeExpression construct operands span) :=
  (preserves_make hAdd construct span).bind fun expression =>
    (preserves_attachAll hAttach expression operands).bind fun _ => preserves_pure expression

/-- What new nodes and single attachments keep, every step of construction keeps. -/
theorem Call.preserves (call : Call) : Preserves P call.perform := by
  cases call with
  | function module name params span =>
      refine ((preserves_functionNode hAdd hAttach name params false span).bind
        fun function => ?_).discard
      exact (preserves_attach hAttach module function).bind fun _ => preserves_pure function
  | closure params span =>
      refine ((preserves_make hAdd _ span).bind fun closure => ?_).discard
      refine (preserves_functionNode hAdd hAttach "" params true span).bind fun function => ?_
      exact (preserves_attach hAttach closure function).bind fun _ => preserves_pure closure
  | declaration => exact (preserves_addStatement hAdd hAttach _ _ _ _).discard
  | destructuring => exact (preserves_addStatement hAdd hAttach _ _ _ _).discard
  | assignment => exact (preserves_addStatement hAdd hAttach _ _ _ _).discard
  | returning => exact (preserves_addStatement hAdd hAttach _ _ _ _).discard
  | branch => exact (preserves_addBranch hAdd hAttach _ _ _ _).discard
  | loop => exact (preserves_addRepetition hAdd hAttach _ _ _ _).discard
  | iteration => exact (preserves_addRepetition hAdd hAttach _ _ _ _).discard
  | nested => exact (preserves_addStatement hAdd hAttach _ _ _ _).discard
  | evaluation => exact (preserves_addStatement hAdd hAttach _ _ _ _).discard
  | constant => exact (preserves_makeExpression hAdd hAttach _ _ _).discard
  | reference => exact (preserves_makeExpression hAdd hAttach _ _ _).discard
  | binary op left right span =>
      refine Preserves.discard ?_
      unfold addBinary
      split
      · exact preserves_makeExpression hAdd hAttach _ _ _
      · exact preserves_throw _
  | unary op operand span =>
      refine Preserves.discard ?_
      unfold addUnary
      split
      · exact preserves_makeExpression hAdd hAttach _ _ _
      · exact preserves_throw _
  | methodCall => exact (preserves_makeExpression hAdd hAttach _ _ _).discard
  | functionCall => exact (preserves_makeExpression hAdd hAttach _ _ _).discard

end Preserving

end Building

namespace Forest

/-- What every single change of a forest keeps holds after every sequence of edits. -/
theorem after_induction {P : Forest → Prop} {f : Forest} (hStart : P f)
    (hAdd : ∀ f construct span, P f → P (f.add construct span).2)
    (hAttach : ∀ f parent child next, P f → f.attach parent child = .ok next → P next)
    (hDetach : ∀ f child next, P f → f.detach child = .ok next → P next)
    (hRoot : ∀ f id next, P f → f.setRoot id = .ok next → P next)
    (hSlot : ∀ f id slot next, P f → f.setSlot id slot = .ok next → P next)
    (hName : ∀ f id name next, P f → f.setFunctionName id name = .ok next → P next)
    (edits : List Edit) : P (f.after edits) := by
  have hEdit : ∀ edit : Edit, Building.Preserves P edit.perform := by
    intro edit
    cases edit with
    | add construct span => exact (Building.preserves_make hAdd construct span).discard
    | attach parent child => exact Building.preserves_attach hAttach parent child
    | detach child => exact Building.preserves_change fun f next => hDetach f child next
    | setRoot id => exact Building.preserves_change fun f next => hRoot f id next
    | setSlot id slot => exact Building.preserves_change fun f next => hSlot f id slot next
    | setFunctionName id name => exact Building.preserves_change fun f next => hName f id name next
    | build call => exact Building.Call.preserves hAdd hAttach call
  induction edits generalizing f with
  | nil => exact hStart
  | cons edit rest ih => exact ih (hEdit edit f hStart)

end Forest

end LateBinding
