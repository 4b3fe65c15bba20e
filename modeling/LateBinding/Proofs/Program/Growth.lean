import LateBinding.Proofs.Program.Paths

/-!
# What a step of construction leaves alone

A step makes a node, puts its operands and new blocks below it, and adds it to its target last.  Up
to there everything happens beside the forest that was there before: old nodes change in their
parent only, and that parent is a new node.  So nothing has reached the old program when a step
fails, and when it succeeds, one attachment has.

* `Building.Call.operands`, `Building.Call.target?` - what a step takes, and what it adds to.
* `Building.Ensures` - what a step comes to when it succeeds and when it fails.
* `Forest.Beside` - new nodes stand beside a forest and have taken operands from it.
* `Forest.Gathered` - all of them stand below one new node, which can be added nowhere among them.
* `Forest.tree?_congr` - a tree depends on its nodes and on nothing else.
* `Forest.undisturbed_of_error_grown_of_ok` - a failing step leaves the program as it was, and any
  other changes the children of its target only.
-/

namespace LateBinding

namespace Building

/-- The nodes that a step of construction takes as operands. -/
def Call.operands : Call → List NodeId
  | .function .. => []
  | .closure .. => []
  | .declaration _ _ _ value _ => [value]
  | .destructuring _ _ _ value _ => [value]
  | .assignment _ _ value _ => [value]
  | .returning _ value _ => value.toList
  | .branch _ condition _ _ => [condition]
  | .loop _ condition _ => [condition]
  | .iteration _ _ iterable _ => [iterable]
  | .nested .. => []
  | .evaluation _ expression _ => [expression]
  | .constant .. => []
  | .reference .. => []
  | .binary _ left right _ => [left, right]
  | .unary _ operand _ => [operand]
  | .methodCall receiver _ args _ => receiver :: args
  | .functionCall _ args _ => args

/-- The block or the module that a step of construction adds to; an expression is added to
nothing. -/
def Call.target? : Call → Option NodeId
  | .function module _ _ _ => some module
  | .declaration block _ _ _ _ => some block
  | .destructuring block _ _ _ _ => some block
  | .assignment block _ _ _ => some block
  | .returning block _ _ => some block
  | .branch block _ _ _ => some block
  | .loop block _ _ => some block
  | .iteration block _ _ _ => some block
  | .nested block _ => some block
  | .evaluation block _ _ => some block
  | .closure .. | .constant .. | .reference .. | .binary .. | .unary .. | .methodCall ..
  | .functionCall .. => none

/-! ### Success and failure -/

/-- What a step of construction comes to from forests with `P`: `Q` with its answer when it
succeeds, and `E` when it fails. -/
def Ensures {α : Type} (P : Forest → Prop) (b : Building α) (Q : α → Forest → Prop)
    (E : Forest → Prop) : Prop :=
  ∀ g, P g → match b.exec g with
    | (.ok a, next) => Q a next
    | (.error _, next) => E next

section Ensuring

variable {P E : Forest → Prop} {α β : Type} {Q : α → Forest → Prop} {R : β → Forest → Prop}

theorem ensures_pure {a : α} (hAnswer : ∀ g, P g → Q a g) : Ensures P (pure a) Q E :=
  hAnswer

theorem ensures_throw {e : Malformation} (hFailure : ∀ g, P g → E g) :
    Ensures P (throw e : Building α) Q E :=
  hFailure

theorem Ensures.bind {b : Building α} {next : α → Building β} (hFirst : Ensures P b Q E)
    (hNext : ∀ a, Ensures (Q a) (next a) R E) : Ensures P (b >>= next) R E := by
  intro g hP
  rw [exec_bind]
  have hMiddle := hFirst g hP
  cases hOutcome : b.exec g with
  | mk outcome between =>
      rw [hOutcome] at hMiddle
      cases outcome with
      | ok a => exact hNext a between hMiddle
      | error e => exact hMiddle

theorem Ensures.map {b : Building α} {g : α → β} (hFirst : Ensures P b (fun a => R (g a)) E) :
    Ensures P (g <$> b) R E := by
  have hEq : g <$> b = b >>= fun a => pure (g a) := (bind_pure_comp g b).symm
  rw [hEq]
  exact hFirst.bind fun a => ensures_pure fun _ hR => hR

theorem Ensures.discard {b : Building α} {R : Forest → Prop}
    (hFirst : Ensures P b (fun _ => R) E) : Ensures P (discard b) (fun _ => R) E :=
  hFirst.map

/-- An attachment comes to the next forest, or leaves the forest as it is. -/
theorem ensures_attach {parent child : NodeId} {R : Forest → Prop}
    (hNext : ∀ g next, P g → g.attach parent child = .ok next → R next)
    (hFailure : ∀ g, P g → E g) : Ensures P (attach parent child) (fun _ => R) E := by
  intro g hP
  cases hAttach : g.attach parent child with
  | error e =>
      have hExec : (attach parent child).exec g = (.error e, g) := by
        simp only [exec, attach, ExceptT.run_mk, StateT.run, hAttach]
      rw [hExec]
      exact hFailure g hP
  | ok next =>
      have hExec : (attach parent child).exec g = (.ok (), next) := by
        simp only [exec, attach, ExceptT.run_mk, StateT.run, hAttach]
      rw [hExec]
      exact hNext g next hP hAttach

/-- A function is a node with a body. -/
theorem functionNode_eq (name : String) (params : List String) (isClosure : Bool) (span : Span) :
    functionNode name params isClosure span =
      make (.function name params isClosure) span >>= fun function =>
        addBody function span >>= fun _ => pure function := by
  simp only [functionNode, addBody, bind_assoc, pure_bind]

end Ensuring

end Building

namespace Forest

/-! ### Beside a forest -/

/-- New nodes stand beside a forest: old nodes are as they were except for their parents, and who
has another parent than before had none, is an operand or new, and has a new node as its parent. -/
structure Beside (f : Forest) (operands : List NodeId) (g : Forest) : Prop where
  size_le : f.size ≤ g.size
  root : g.root = f.root
  kept : ∀ id n, f.node? id = some n → g.node? id = some { n with parent := g.parent? id }
  stays : ∀ id parent, f.parent? id = some parent → g.parent? id = some parent
  taken : ∀ id parent, g.parent? id = some parent → f.parent? id = none →
    f.size ≤ parent.index ∧ f.root ≠ some id ∧ (f.size ≤ id.index ∨ id ∈ operands)

/-- New nodes stand beside a forest, all of them one node or directly below that one. -/
structure Gathered (f : Forest) (operands : List NodeId) (top : NodeId) (g : Forest) : Prop
    extends Beside f operands g where
  isNew : f.size ≤ top.index
  below : ∀ id, f.size ≤ id.index → id.index < g.size → id = top ∨ g.parent? id = some top

/-- A forest after a step of construction that has succeeded: old nodes are as they were except for
their links, and their children are the same, except that a new one has been appended to those of
the target. -/
structure Grown (f : Forest) (target? : Option NodeId) (g : Forest) : Prop where
  size_le : f.size ≤ g.size
  root : g.root = f.root
  kept : ∀ id n, f.node? id = some n →
    g.node? id = some { n with parent := g.parent? id, children := g.children id }
  children : ∃ added : NodeId, f.size ≤ added.index ∧ ∀ id, id.index < f.size →
    g.children id = if target? = some id then f.children id ++ [added] else f.children id
  target : ∀ target, target? = some target → target.index < f.size

/-- A forest after a step of construction that has failed: old nodes are as they were except for
their parents, the tree of the module is the same, and whatever else there is to see are new nodes
and operands that a new node has taken, which the module does not reach. -/
structure Undisturbed (f : Forest) (module : NodeId) (operands : List NodeId) (g : Forest) :
    Prop where
  size_le : f.size ≤ g.size
  root : g.root = some module
  kept : ∀ id n, f.node? id = some n → g.node? id = some { n with parent := g.parent? id }
  tree : g.tree? module = f.tree? module
  traces : ∀ id, g.node? id ≠ f.node? id →
    (f.size ≤ id.index ∨ id ∈ operands ∧ f.parent? id = none ∧
      ∃ parent, g.parent? id = some parent ∧ f.size ≤ parent.index) ∧
    id ≠ module ∧ ¬g.IsAncestor module id

section Growing

variable {f g next : Forest} {operands : List NodeId} {parent child top : NodeId}

theorem Beside.refl (f : Forest) (operands : List NodeId) : Beside f operands f where
  size_le := Nat.le_refl _
  root := rfl
  kept := by
    intro id n hNode
    rw [hNode, parent?_eq_of_node? hNode]
  stays := fun _ _ hParent => hParent
  taken := by
    intro id parent hParent hFree
    rw [hFree] at hParent
    cases hParent

theorem Beside.add (hBeside : Beside f operands g) (construct : Construct) (span : Span) :
    Beside f operands (g.add construct span).2 where
  size_le := by
    rw [size_add]
    exact Nat.le_succ_of_le hBeside.size_le
  root := hBeside.root
  kept := by
    intro id n hNode
    have hKnown := lt_size_of_node? hNode
    have hLe := hBeside.size_le
    rw [node?_add, if_neg (by omega), parent?_add]
    exact hBeside.kept id n hNode
  stays := by
    intro id parent hParent
    rw [parent?_add]
    exact hBeside.stays id parent hParent
  taken := by
    intro id parent hParent hFree
    rw [parent?_add] at hParent
    exact hBeside.taken id parent hParent hFree

/-- A new node may take operands and new nodes as its children. -/
theorem Beside.attach (hBeside : Beside f operands g) (hNew : f.size ≤ parent.index)
    (hChild : f.size ≤ child.index ∨ child ∈ operands) (hAttach : g.attach parent child = .ok next) :
    Beside f operands next := by
  obtain ⟨-, hKnown, hFree, hRoot, -, rfl⟩ := attach_cases hAttach
  constructor
  · rw [size_link]
    exact hBeside.size_le
  · exact hBeside.root
  · intro id n hNode
    have hOld := lt_size_of_node? hNode
    have hNe : id ≠ parent := by
      rintro rfl
      omega
    rw [node?_link, hBeside.kept id n hNode, parent?_link g parent hKnown]
    simp only [Option.map_some, if_neg hNe]
  · intro id above hAbove
    have hSame := hBeside.stays id above hAbove
    have hNe : id ≠ child := by
      rintro rfl
      rw [hFree] at hSame
      cases hSame
    rw [parent?_link g parent hKnown, if_neg hNe]
    exact hSame
  · intro id above hAbove hNone
    rw [parent?_link g parent hKnown] at hAbove
    split at hAbove
    · rename_i hSame
      subst hSame
      obtain rfl := Option.some.inj hAbove
      exact ⟨hNew, hBeside.root ▸ hRoot, hChild⟩
    · exact hBeside.taken id above hAbove hNone

/-- The first new node. -/
theorem gathered_add (f : Forest) (operands : List NodeId) (construct : Construct) (span : Span) :
    Gathered f operands ⟨f.size⟩ (f.add construct span).2 where
  toBeside := (Beside.refl f operands).add construct span
  isNew := Nat.le_refl _
  below := by
    rintro ⟨i⟩ hNew hKnown
    rw [size_add] at hKnown
    exact Or.inl (congrArg NodeId.mk (by simp only at hNew hKnown; omega))

theorem Gathered.attach (hGathered : Gathered f operands top g)
    (hChild : f.size ≤ child.index ∨ child ∈ operands) (hAttach : g.attach top child = .ok next) :
    Gathered f operands top next where
  toBeside := hGathered.toBeside.attach hGathered.isNew hChild hAttach
  isNew := hGathered.isNew
  below := by
    obtain ⟨-, hKnown, -, -, -, rfl⟩ := attach_cases hAttach
    intro id hNew hLt
    rw [size_link] at hLt
    rw [parent?_link g top hKnown]
    by_cases hSame : id = child
    · exact Or.inr (if_pos hSame)
    · rw [if_neg hSame]
      exact hGathered.below id hNew hLt

/-- A new node with a parent at once. -/
theorem Gathered.attach_add (hGathered : Gathered f operands top g) (construct : Construct)
    (span : Span) (hAttach : (g.add construct span).2.attach top ⟨g.size⟩ = .ok next) :
    Gathered f operands top next where
  toBeside := (hGathered.toBeside.add construct span).attach hGathered.isNew
    (Or.inl hGathered.size_le) hAttach
  isNew := hGathered.isNew
  below := by
    obtain ⟨-, hKnown, -, -, -, rfl⟩ := attach_cases hAttach
    intro id hNew hLt
    rw [size_link, size_add] at hLt
    rw [parent?_link _ top hKnown, parent?_add]
    by_cases hSame : id = ⟨g.size⟩
    · exact Or.inr (if_pos hSame)
    · have hOlder : id.index ≠ g.size := fun hIndex => hSame (congrArg NodeId.mk hIndex)
      rw [if_neg hSame]
      exact hGathered.below id hNew (by omega)

/-- What has been gathered can only be added to an old node: the others lie below it. -/
theorem Gathered.grown (hGathered : Gathered f operands top g)
    (hAttach : g.attach parent top = .ok next) : Grown f (some parent) next := by
  obtain ⟨hParent, hKnown, -, -, hNotAbove, rfl⟩ := attach_cases hAttach
  have hOld : parent.index < f.size := by
    by_contra hNot
    rcases hGathered.below parent (by omega) hParent with rfl | hBelow
    · exact hNotAbove parent .refl rfl
    · exact hNotAbove top (.single hBelow) rfl
  have hChildren : ∀ id, id.index < f.size → g.children id = f.children id := by
    intro id hLt
    obtain ⟨n, hNode⟩ := exists_node? hLt
    rw [children_eq_of_node? hNode, children_eq_of_node? (hGathered.kept id n hNode)]
  constructor
  · rw [size_link]
    exact hGathered.size_le
  · exact hGathered.root
  · intro id n hNode
    have hKept := hGathered.kept id n hNode
    rw [node?_link, hKept, parent?_link g parent hKnown, children_link g top hParent,
      children_eq_of_node? hKept]
    rfl
  · refine ⟨top, hGathered.isNew, fun id hLt => ?_⟩
    rw [children_link g top hParent, hChildren id hLt]
    simp only [Option.some.injEq, eq_comm]
  · rintro target ⟨rfl⟩
    exact hOld

/-- Where nothing is added to an old node, the children of all are the same. -/
theorem Beside.grown (hBeside : Beside f operands g) : Grown f none g where
  size_le := hBeside.size_le
  root := hBeside.root
  kept := by
    intro id n hNode
    have hKept := hBeside.kept id n hNode
    rw [hKept, children_eq_of_node? hKept]
  children := by
    refine ⟨⟨f.size⟩, Nat.le_refl _, fun id hLt => ?_⟩
    obtain ⟨n, hNode⟩ := exists_node? hLt
    rw [children_eq_of_node? hNode, children_eq_of_node? (hBeside.kept id n hNode)]
    rfl
  target := by
    intro target hTarget
    cases hTarget

end Growing

end Forest

namespace Building

open Forest

/-! ### The steps of construction -/

section Gathering

variable {f : Forest} {operands : List NodeId}

theorem ensures_make_first (construct : Construct) (span : Span) :
    Ensures (· = f) (make construct span) (fun top => Gathered f operands top)
      (Beside f operands) := by
  rintro g rfl
  exact gathered_add g operands construct span

theorem ensures_make (construct : Construct) (span : Span) :
    Ensures (Beside f operands) (make construct span)
      (fun id g => Beside f operands g ∧ f.size ≤ id.index) (Beside f operands) :=
  fun _ hBeside => ⟨hBeside.add construct span, hBeside.size_le⟩

theorem ensures_attach_operand {child : NodeId} (top : NodeId) (hChild : child ∈ operands) :
    Ensures (Gathered f operands top) (attach top child) (fun _ => Gathered f operands top)
      (Beside f operands) :=
  ensures_attach (fun _ _ hGathered hAttach => hGathered.attach (Or.inr hChild) hAttach)
    fun _ hGathered => hGathered.toBeside

theorem ensures_attachAll (top : NodeId) {children : List NodeId} (hChildren : children ⊆ operands) :
    Ensures (Gathered f operands top) (attachAll top children) (fun _ => Gathered f operands top)
      (Beside f operands) := by
  induction children with
  | nil => exact ensures_pure fun _ hGathered => hGathered
  | cons child rest ih =>
      obtain ⟨hChild, hRest⟩ := List.cons_subset.mp hChildren
      exact (ensures_attach_operand top hChild).bind fun _ => ih hRest

theorem ensures_attach_last (target top : NodeId) :
    Ensures (Gathered f operands top) (attach target top) (fun _ => Grown f (some target))
      (Beside f operands) :=
  ensures_attach (fun _ _ hGathered hAttach => hGathered.grown hAttach)
    fun _ hGathered => hGathered.toBeside

theorem ensures_addBody (top : NodeId) (span : Span) :
    Ensures (Gathered f operands top) (addBody top span) (fun _ => Gathered f operands top)
      (Beside f operands) := by
  -- between the two changes the new block has no parent yet
  have hMake : Ensures (Gathered f operands top) (make .block span)
      (fun body next => ∃ g, Gathered f operands top g ∧ body = ⟨g.size⟩ ∧
        next = (g.add .block span).2) (Beside f operands) :=
    fun g hGathered => ⟨g, hGathered, rfl, rfl⟩
  refine hMake.bind fun body => Ensures.bind (Q := fun _ => Gathered f operands top) ?_
    fun _ => ensures_pure fun _ hGathered => hGathered
  refine ensures_attach ?_ ?_
  · rintro _ next ⟨g, hGathered, rfl, rfl⟩ hAttach
    exact hGathered.attach_add .block span hAttach
  · rintro _ ⟨g, hGathered, rfl, rfl⟩
    exact hGathered.toBeside.add .block span

theorem ensures_addStatement (block : NodeId) (construct : Construct) (span : Span) :
    Ensures (· = f) (addStatement block construct operands span) (fun _ => Grown f (some block))
      (Beside f operands) :=
  (ensures_make_first construct span).bind fun statement =>
    (ensures_attachAll statement (List.Subset.refl _)).bind fun _ =>
      (ensures_attach_last block statement).bind fun _ => ensures_pure fun _ hGrown => hGrown

theorem ensures_addBranch (block condition : NodeId) (hasElse : Bool) (span : Span) :
    Ensures (· = f) (addBranch block condition hasElse span) (fun _ => Grown f (some block))
      (Beside f [condition]) := by
  refine (ensures_make_first .branch span).bind fun statement => ?_
  refine (ensures_attach_operand statement (List.mem_singleton_self condition)).bind fun _ => ?_
  refine (ensures_addBody statement span).bind fun body => ?_
  have hRest : ∀ other : Option NodeId, Ensures (Gathered f [condition] statement)
      (attach block statement >>= fun _ => (pure (body, other) : Building (NodeId × Option NodeId)))
      (fun _ => Grown f (some block)) (Beside f [condition]) :=
    fun other => (ensures_attach_last block statement).bind fun _ =>
      ensures_pure fun _ hGrown => hGrown
  cases hasElse with
  | true =>
      have hOther : Ensures (Gathered f [condition] statement) (some <$> addBody statement span)
          (fun _ => Gathered f [condition] statement) (Beside f [condition]) :=
        (ensures_addBody statement span).map (R := fun _ => Gathered f [condition] statement)
      exact hOther.bind hRest
  | false => exact (ensures_pure fun _ hGathered => hGathered).bind hRest

theorem ensures_addRepetition (block : NodeId) (construct : Construct) (operand : NodeId)
    (span : Span) :
    Ensures (· = f) (addRepetition block construct operand span) (fun _ => Grown f (some block))
      (Beside f [operand]) :=
  (ensures_make_first construct span).bind fun statement =>
    (ensures_attach_operand statement (List.mem_singleton_self operand)).bind fun _ =>
      (ensures_addBody statement span).bind fun _ =>
        (ensures_attach_last block statement).bind fun _ => ensures_pure fun _ hGrown => hGrown

theorem ensures_addFunction (module : NodeId) (name : String) (params : List String) (span : Span) :
    Ensures (· = f) (addFunction module name params span) (fun _ => Grown f (some module))
      (Beside f []) := by
  have hFunction : Ensures (· = f) (functionNode name params false span)
      (fun function => Gathered f [] function) (Beside f []) := by
    rw [functionNode_eq]
    exact (ensures_make_first _ span).bind fun function =>
      (ensures_addBody function span).bind fun _ => ensures_pure fun _ hGathered => hGathered
  exact hFunction.bind fun function =>
    (ensures_attach_last module function).bind fun _ => ensures_pure fun _ hGrown => hGrown

/-- A closure is new throughout. -/
theorem ensures_addClosure (params : List String) (span : Span) :
    Ensures (· = f) (addClosure params span) (fun _ => Grown f none) (Beside f []) := by
  have hAttach : ∀ {parent child : NodeId}, f.size ≤ parent.index → f.size ≤ child.index →
      Ensures (Beside f []) (attach parent child) (fun _ => Beside f []) (Beside f []) :=
    fun hParent hChild =>
      ensures_attach (fun _ _ hBeside => hBeside.attach hParent (Or.inl hChild)) fun _ h => h
  have hClosure : Ensures (· = f) (make .closure span)
      (fun id g => Beside f [] g ∧ f.size ≤ id.index) (Beside f []) := by
    rintro g rfl
    exact ensures_make .closure span g (Beside.refl g [])
  refine hClosure.bind fun closure => ?_
  intro g ⟨hBeside, hClosureNew⟩
  have hFunction : Ensures (Beside f []) (functionNode "" params true span)
      (fun id g => Beside f [] g ∧ f.size ≤ id.index) (Beside f []) := by
    refine (ensures_make _ span).bind fun function => ?_
    rintro g ⟨hBeside, hFunctionNew⟩
    refine ((ensures_make .block span).bind fun body => ?_) g hBeside
    rintro g ⟨hBeside, hBodyNew⟩
    exact ((hAttach hFunctionNew hBodyNew).bind fun _ =>
      ensures_pure fun _ hBeside => ⟨hBeside, hFunctionNew⟩) g hBeside
  refine (hFunction.bind fun function => ?_) g hBeside
  rintro g ⟨hBeside, hFunctionNew⟩
  exact ((hAttach hClosureNew hFunctionNew).bind (R := fun _ => Grown f none) fun _ =>
    ensures_pure fun _ hBeside => hBeside.grown) g hBeside

theorem ensures_makeExpression (construct : Construct) (span : Span) :
    Ensures (· = f) (makeExpression construct operands span) (fun _ => Grown f none)
      (Beside f operands) :=
  (ensures_make_first construct span).bind fun expression =>
    (ensures_attachAll expression (List.Subset.refl _)).bind fun _ =>
      ensures_pure fun _ hGathered => hGathered.toBeside.grown

/-- Every step of construction that fails stays beside the forest, and every other one adds to its
target. -/
theorem Call.ensures (call : Call) (f : Forest) :
    Ensures (· = f) call.perform (fun _ => Grown f call.target?) (Beside f call.operands) := by
  have hRefused : ∀ g, g = f → ∀ operands, Beside f operands g := by
    rintro g rfl operands
    exact Beside.refl g operands
  cases call with
  | function => exact (ensures_addFunction _ _ _ _).discard
  | closure => exact (ensures_addClosure _ _).discard
  | declaration => exact (ensures_addStatement _ _ _).discard
  | destructuring => exact (ensures_addStatement _ _ _).discard
  | assignment => exact (ensures_addStatement _ _ _).discard
  | returning => exact (ensures_addStatement _ _ _).discard
  | branch => exact (ensures_addBranch _ _ _ _).discard
  | loop => exact (ensures_addRepetition _ _ _ _).discard
  | iteration => exact (ensures_addRepetition _ _ _ _).discard
  | nested => exact (ensures_addStatement _ _ _).discard
  | evaluation => exact (ensures_addStatement _ _ _).discard
  | constant => exact (ensures_makeExpression _ _).discard
  | reference => exact (ensures_makeExpression _ _).discard
  | binary op left right span =>
      refine Ensures.discard ?_
      unfold addBinary
      split
      · exact ensures_makeExpression _ _
      · exact ensures_throw fun g hSame => hRefused g hSame _
  | unary op operand span =>
      refine Ensures.discard ?_
      unfold addUnary
      split
      · exact ensures_makeExpression _ _
      · exact ensures_throw fun g hSame => hRefused g hSame _
  | methodCall => exact (ensures_makeExpression _ _).discard
  | functionCall => exact (ensures_makeExpression _ _).discard

end Gathering

end Building

namespace Forest

/-! ### The program -/

variable {f g : Forest} {operands : List NodeId}

/-- An unknown number has no tree. -/
theorem tree?_eq_none {id : NodeId} (hNode : f.node? id = none) : f.tree? id = none := by
  rw [tree?]
  cases f.size with
  | zero => rfl
  | succ depth => rw [treeTo, hNode, Option.map_none]

/-- The tree of a node depends on the node and those below it, and on nothing else of the forest. -/
theorem Linked.tree?_congr (hLinked : f.Linked) (hOther : g.Linked) {top : NodeId}
    (hSame : ∀ id, Relation.ReflTransGen f.IsParent top id → g.node? id = f.node? id) :
    g.tree? top = f.tree? top := by
  induction top using hLinked.descent.induction with
  | h top ih =>
      have hTop := hSame top .refl
      cases hNode : f.node? top with
      | none => rw [tree?_eq_none hNode, tree?_eq_none (hTop.trans hNode)]
      | some n =>
          obtain ⟨trees, hTrees, hTree⟩ := hLinked.exists_tree? hNode
          obtain ⟨others, hOthers, hOtherTree⟩ := hOther.exists_tree? (hTop.trans hNode)
          have hChildren : n.children.map g.tree? = n.children.map f.tree? := by
            refine List.map_congr_left fun child hChild => ?_
            rw [← children_eq_of_node? hNode] at hChild
            refine ih child hChild fun id hBelow => hSame id ?_
            exact .head ((hLinked.mem_children_iff top child).mp hChild) hBelow
          have hEq : others = trees := by
            refine List.map_injective_iff.mpr (Option.some_injective _) ?_
            rw [← hOthers, hChildren, hTrees]
          rw [hTree, hOtherTree, hEq]

/-- Above new nodes stand new nodes only. -/
theorem Beside.isNew_of_isAncestor (hBeside : Beside f operands g) {above id : NodeId}
    (hAbove : g.IsAncestor above id) (hNew : f.size ≤ id.index) : f.size ≤ above.index := by
  induction hAbove using Relation.TransGen.head_induction_on with
  | single hParent => exact (hBeside.taken _ _ hParent (parent?_eq_none_of_size_le hNew)).1
  | head hParent _ ih => exact (hBeside.taken _ _ hParent (parent?_eq_none_of_size_le ih)).1

/-- What stands beside a forest is no part of its program. -/
theorem Beside.undisturbed (hBeside : Beside f operands g) (hLinked : f.Linked) (hOther : g.Linked)
    {module : NodeId} (hRoot : f.root = some module) : Undisturbed f module operands g := by
  obtain ⟨hKnown, hFree⟩ := hLinked.root_free module hRoot
  have hParent : ∀ id, f.root = some id → g.parent? id = f.parent? id := by
    intro id hSome
    obtain rfl : module = id := Option.some.inj (hRoot.symm.trans hSome)
    cases hAbove : g.parent? module with
    | none => exact hFree.symm
    | some parent => exact absurd hRoot (hBeside.taken module parent hAbove hFree).2.1
  -- an old node with the same parent is the same node
  have hSame : ∀ id, id.index < f.size → g.parent? id = f.parent? id → g.node? id = f.node? id := by
    intro id hLt hEq
    obtain ⟨n, hNode⟩ := exists_node? hLt
    rw [hBeside.kept id n hNode, hEq, parent?_eq_of_node? hNode, hNode]
  refine ⟨hBeside.size_le, hBeside.root.trans hRoot, hBeside.kept, ?_, ?_⟩
  · refine hLinked.tree?_congr hOther fun id hBelow => ?_
    rcases Relation.ReflTransGen.cases_tail hBelow with rfl | ⟨parent, -, hAbove⟩
    · exact hSame _ hKnown (hParent _ hRoot)
    · refine hSame id (lt_size_of_parent? hAbove) ?_
      rw [hBeside.stays id parent hAbove]
      exact hAbove.symm
  · intro id hChanged
    by_cases hLt : id.index < f.size
    · cases hAbove : f.parent? id with
      | some parent =>
          refine absurd (hSame id hLt ?_) hChanged
          rw [hBeside.stays id parent hAbove, hAbove]
      | none =>
          cases hTaker : g.parent? id with
          | none => exact absurd (hSame id hLt (hTaker.trans hAbove.symm)) hChanged
          | some parent =>
              obtain ⟨hNew, hNotRoot, hOperand⟩ := hBeside.taken id parent hTaker hAbove
              refine ⟨Or.inr ⟨hOperand.resolve_left (by omega), rfl, parent, rfl, hNew⟩, ?_, ?_⟩
              · rintro rfl
                exact hNotRoot hRoot
              · intro hReached
                -- the way from the module to the operand would pass the new node
                obtain ⟨last, hTo, hLast⟩ := Relation.TransGen.tail'_iff.mp hReached
                obtain rfl : parent = last := Option.some.inj (hTaker.symm.trans hLast)
                rcases Relation.reflTransGen_iff_eq_or_transGen.mp hTo with rfl | hFurther
                · omega
                · have hModuleNew := hBeside.isNew_of_isAncestor hFurther hNew
                  omega
    · refine ⟨Or.inl (by omega), ?_, ?_⟩
      · rintro rfl
        exact hLt hKnown
      · intro hReached
        have hModuleNew := hBeside.isNew_of_isAncestor hReached (by omega)
        omega

/-- The forest after steps of construction, whether they fail or not, from an empty module on. -/
def built (name : String) (calls : List Building.Call) : Forest :=
  (ofModule name).after (calls.map .build)

theorem linked_built (name : String) (calls : List Building.Call) : (built name calls).Linked :=
  linked_after (some name) (calls.map .build)

/-- Construction leaves the root in its place. -/
theorem root_built (name : String) (calls : List Building.Call) :
    (built name calls).root = some ⟨0⟩ := by
  have hStep : ∀ call : Building.Call,
      Building.Preserves (fun f => f.root = some ⟨0⟩) call.perform := by
    refine Building.Call.preserves (fun f construct span hRoot => hRoot) ?_
    intro f parent child next hRoot hAttach
    obtain ⟨-, -, -, -, -, rfl⟩ := attach_cases hAttach
    exact hRoot
  have hAll : ∀ f : Forest, f.root = some ⟨0⟩ →
      (f.after (calls.map .build)).root = some ⟨0⟩ := by
    induction calls with
    | nil => exact fun f hRoot => hRoot
    | cons call rest ih => exact fun f hRoot => ih _ (hStep call f hRoot)
  exact hAll (ofModule name) rfl

/-- **A step of construction that fails leaves the program alone.**  After any steps of
construction, failed ones included, take any further step with any node numbers whatever.  If it
fails, no old node has other children or another construct, span or slot, the tree of the module is
the same, and the traces are new nodes and operands that a new node has taken, none of which the
module reaches.  If it succeeds, only its target has other children: one new node has been appended
to them. -/
theorem undisturbed_of_error_grown_of_ok (name : String) (calls : List Building.Call)
    (call : Building.Call) :
    match call.perform.exec (built name calls) with
    | (.error _, g) => Undisturbed (built name calls) ⟨0⟩ call.operands g
    | (.ok _, g) => Grown (built name calls) call.target? g := by
  have hEnsured := call.ensures (built name calls) _ rfl
  have hOther : (call.perform.exec (built name calls)).2.Linked :=
    Building.Call.preserves (fun _ construct span hLinked => hLinked.add construct span)
      (fun _ _ _ _ hLinked hAttach => hLinked.attach hAttach) call _ (linked_built name calls)
  cases hOutcome : call.perform.exec (built name calls) with
  | mk outcome g =>
      rw [hOutcome] at hEnsured hOther
      cases outcome with
      | ok answer => exact hEnsured
      | error e => exact hEnsured.undisturbed (linked_built name calls) hOther (root_built name calls)

/-- A declaration in the body of a closure cannot have the closure as its value: it has taken the
closure by the time it is refused by the body. -/
example :
    let call := Building.Call.declaration ⟨3⟩ "x" .constant ⟨1⟩ Span.synthetic
    let outcome := call.perform.exec (built "m" [.closure [] Span.synthetic])
    outcome.1 = .error (.cycle ⟨3⟩ ⟨4⟩) ∧ outcome.2.parent? ⟨1⟩ = some ⟨4⟩ ∧
      outcome.2.descendants ⟨0⟩ = [] :=
  ⟨rfl, rfl, rfl⟩

end Forest

end LateBinding
