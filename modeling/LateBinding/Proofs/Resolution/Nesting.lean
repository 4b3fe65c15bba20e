import LateBinding.Proofs.Resolution.Opening

/-!
# The walk opens scopes as nodes lie in each other

The walk through a tree opens a scope for each node that has one, inside the scope of the innermost
such node around it; a closure comes with an environment in its place.  The proof is one induction
over the tree, with a case for each construct, on walks that succeed.

* `BeginsFrame`, `exists_goesInto` - what a function opens before its block is walked, and
  `environment_eq` - what its environment owns in the end.
* `Covers` - a part of the walk opens what given positions and nodes say.
* `Coverings`, `coverings` - the four kinds of trees that are walked, and that the walk through every
  proper tree covers it.
-/

namespace LateBinding.Resolution

open Lexical (Context Declaration Position)
open Scope (Binding ScopeId)
open FreshName (isReserved)

variable {fresh : NodeId → String} {before : Nat} {c next : Context} {p q r : Progress}
  {scope : ScopeId}

/-! ### Functions -/

/-- The frame of a function was begun within a scope: what the function has around itself shows the
names of the scope, and for a closure it is an environment of its own with copies of the bindings. -/
structure BeginsFrame (isClosure : Bool) (scope : ScopeId) (p q : Progress) : Prop where
  opened : q.opened = p.opened
  scopes : q.frame.environment.toList.map ScopeId.index =
    List.range' p.scopes.size (q.scopes.size - p.scopes.size)
  names : (q.scopes.visible (q.frame.environment.getD scope)).map Binding.name =
    (p.scopes.visible scope).map Binding.name
  named : isClosure = false → q.frame.environment = none
  closure : isClosure = true → ∃ environment, q.frame.environment = some environment ∧
    q.scopes.parent? environment = none ∧
    q.scopes.owned environment = (p.scopes.snapshotBindings scope false).map Binding.plain

/-- What beginning a frame that succeeded has begun. -/
theorem Reflects.of_beginFrame (hReflects : Reflects c p scope) {isClosure : Bool}
    (hKind : isClosure = true ∨ c.declared = []) (hOk : p.beginFrame scope isClosure = .ok q) :
    Begins c p scope q ∧ BeginsFrame isClosure scope p q := by
  cases isClosure with
  | false =>
      obtain ⟨_, hBegin, hBegins⟩ :=
        hReflects.exists_beginFrame_named (hKind.resolve_left Bool.false_ne_true)
      obtain rfl := Except.ok.inj (hBegin.symm.trans hOk)
      cases hOk
      exact ⟨hBegins, rfl, by simp, rfl, fun _ => rfl, by simp⟩
  | true =>
      obtain ⟨_, hBegin, hBegins⟩ := hReflects.exists_beginFrame_closure
      obtain rfl := Except.ok.inj (hBegin.symm.trans hOk)
      obtain ⟨store, hSnapshot, -, hSound, hSize, -, -, hCleared, hParent⟩ :=
        hReflects.sound.exists_snapshot hReflects.known
      simp only [Progress.beginFrame, if_true, hSnapshot] at hOk
      cases hOk
      have hKnown : (⟨p.scopes.size⟩ : ScopeId).index <
          (store.clearCaptured ⟨p.scopes.size⟩).size := by
        rw [hSize]
        exact Nat.lt_succ_self _
      refine ⟨hBegins, rfl, ?_, ?_, by simp, fun _ => ⟨_, rfl, hParent, hCleared⟩⟩
      · show [p.scopes.size] = _
        rw [hSize, Nat.add_sub_cancel_left]
        rfl
      · -- the environment stands on its own, so what it owns is all that is visible from it
        show ((store.clearCaptured ⟨p.scopes.size⟩).visible ⟨p.scopes.size⟩).map Binding.name = _
        rw [hSound.visible_eq hKnown, Scope.Store.visibleAround, hParent,
          Scope.Store.foldl_overlay_nil (hSound.nodup_owned _), hCleared, List.map_map,
          ← Scope.Store.map_name_snapshotBindings _ _ false]
        rfl

/-- A function that was entered has a scope inside its environment, or inside the scope around it if
it is no closure; its parameters are declared after that. -/
theorem Reflects.exists_goesInto (hReflects : Reflects c p scope) (position : Position)
    (hContext : position.context = c) {name : String} {params : List String} {isClosure : Bool}
    (hConstruct : position.construct = .function name params isClosure)
    (hKind : isClosure = true ∨ c.declared = []) {entry : Progress.Entry} {entered : Progress}
    (hOk : p.enterFunction scope position.id name params isClosure = .ok (entry, entered)) :
    ∃ opened : Progress,
      GoesInto ⟨position, entry.scope, opened.frame.environment⟩ c scope p c.enter opened ∧
      Reflects c.enter opened entry.scope ∧
      opened.declareAll entry.scope .constant params = .ok (entry.params, entered) ∧
      (isClosure = true → ∃ environment, opened.frame.environment = some environment ∧
        environment.index < opened.scopes.size ∧
        opened.scopes.parent? entry.scope = some environment ∧
        opened.scopes.parent? environment = none ∧
        opened.scopes.owned environment =
          (p.scopes.snapshotBindings scope false).map Binding.plain) := by
  obtain ⟨begun, opened, hBegin, hOpen, -, hDeclare⟩ := Progress.exists_of_enterFunction hOk
  obtain ⟨hNamed, hScopes, -, -⟩ := hReflects.nameFunction position.id name isClosure
  have hNamedOpened : (p.nameFunction position.id name isClosure).2.opened = p.opened := by
    cases isClosure <;> rfl
  obtain ⟨hBegins, hFrame⟩ := hNamed.of_beginFrame hKind hBegin
  obtain ⟨hOpens, hInner⟩ := hBegins.mirrors.of_openScope hOpen
  have hGrown := hBegins.size_le
  have hSize := hOpens.size
  have hOld := hBegins.tables
  have hIndices := hFrame.scopes
  have hNames := hFrame.names
  rw [hScopes] at hGrown hOld hIndices hNames
  refine ⟨{ opened with names := opened.names.enter entry.name }, ?_,
    hInner.congr rfl rfl (Nat.le_refl _), hDeclare, ?_⟩
  · exact {
      context := hContext
      opened := by
        show opened.opened.toList = _
        rw [hOpens.opened, hFrame.opened, hNamedOpened]
        rfl
      size_le := by
        show p.scopes.size ≤ opened.scopes.size
        omega
      scopes := by
        show (opened.frame.environment.toList ++ [entry.scope]).map ScopeId.index =
          List.range' p.scopes.size (opened.scopes.size - p.scopes.size)
        have hCount : opened.scopes.size - p.scopes.size =
            (begun.scopes.size - p.scopes.size) + 1 := by omega
        have hMiddle : p.scopes.size + (begun.scopes.size - p.scopes.size) = begun.scopes.size := by
          omega
        rw [List.map_append, hOpens.frame, hIndices, hCount, ← List.range'_append_1, hMiddle,
          hOpens.new]
        rfl
      tables := by
        intro id hLt
        show opened.scopes.table? id = p.scopes.table? id
        rw [hOpens.tables id (by omega), hOld id hLt]
      environment := by
        show opened.frame.environment ≠ some scope
        rw [hOpens.frame]
        intro hEnvironment
        have hNew := hBegins.new scope hEnvironment
        rw [hScopes] at hNew
        have := hReflects.known
        omega
      parent := by
        intro hNot
        have hPlain : isClosure = false := by
          simpa [hConstruct, Construct.isClosureFunction] using hNot
        show opened.scopes.parent? entry.scope = some scope
        rw [hOpens.parent, hFrame.named hPlain]
        rfl
      tells := by
        intro fresh before hTells
        have hInside := hOpens.tells (c := c.enter) (forall₂_titled_congr hNames hTells.visible)
        exact ⟨hInside.visible, hInside.owned, hInside.before_le⟩ }
  · intro hClosure
    obtain ⟨environment, hEnvironment, hAlone, hOwned⟩ := hFrame.closure hClosure
    have hKnown : environment.index < begun.scopes.size := by
      have hMem : environment.index ∈ begun.frame.environment.toList.map ScopeId.index := by
        rw [hEnvironment]
        exact List.mem_cons_self
      rw [hIndices, List.mem_range'_1] at hMem
      omega
    have hTable := hOpens.tables environment hKnown
    rw [hScopes] at hOwned
    refine ⟨environment, ?_, ?_, ?_, ?_, ?_⟩
    · rw [← hEnvironment, ← hOpens.frame]
    · show environment.index < opened.scopes.size
      omega
    · show opened.scopes.parent? entry.scope = some environment
      rw [hOpens.parent, hEnvironment]
      rfl
    · show opened.scopes.parent? environment = none
      rw [Scope.Store.parent?_congr (Scope.Store.view_congr hTable), hAlone]
    · show opened.scopes.owned environment = _
      rw [Scope.Store.owned_congr hTable, hOwned]

/-- In the end the environment of a closure owns copies of what was visible around the closure,
marked if the closure has captured them. -/
theorem Reflects.environment_eq (hReflects : Reflects c p scope)
    (hTells : Tells fresh before c p scope) {position : Position}
    (hContext : position.context = c) {bs : List Binding}
    (hPlain : bs.map Binding.plain = (p.scopes.snapshotBindings scope false).map Binding.plain)
    (hMarks : ∀ b ∈ bs, b.captured = true ↔ b.name ∈ position.captures.map Capture.name) :
    bs = position.environment fresh position.captures := by
  have hShown := hReflects.shows.length_eq
  have hLength : bs.length = (p.scopes.visible scope).length := by
    simpa [Scope.Store.snapshotBindings] using congrArg List.length hPlain
  apply List.ext_getElem
  · rw [hLength, hShown, ← hContext, Position.environment, List.length_mapIdx]
  · intro i hI hJ
    have hBound : i < (p.scopes.visible scope).length := by omega
    have hCopy : bs[i].plain =
        { (p.scopes.visible scope)[i] with slot := some i, captured := false } := by
      have hAt := congrArg (fun l => l[i]?) hPlain
      simpa [Scope.Store.snapshotBindings, hI, hBound, Binding.plain] using hAt
    have hDeclaration : i < c.visible.length := by omega
    have hTitle := (hTells.visible.get hBound hDeclaration).title
    have hMutability := (hReflects.shows.get hBound hDeclaration).mutability
    have hMark := hMarks bs[i] (List.getElem_mem hI)
    have hEntry : (position.environment fresh position.captures)[i] =
        { name := c.visible[i].title fresh
          mutability := c.visible[i].mutability
          slot := some i
          captured := decide (c.visible[i].title fresh ∈ position.captures.map Capture.name) } := by
      simp only [Position.environment, List.getElem_mapIdx, hContext]
    rw [hEntry]
    generalize bs[i] = b at hCopy hMark
    obtain ⟨name, mutability, slot, captured⟩ := b
    simp only [Binding.plain, Binding.mk.injEq] at hCopy hMark ⊢
    obtain ⟨rfl, rfl, rfl, -⟩ := hCopy
    simp only [List.get_eq_getElem] at hTitle hMutability
    refine ⟨hTitle, hMutability.symm, rfl, ?_⟩
    rw [hTitle] at hMark
    rw [Bool.eq_iff_iff, hMark, decide_eq_true_iff]

/-! ### Parts of the walk -/

/-- An assignment that succeeds uses its name. -/
theorem eq_useAt_of_assign {id : NodeId} {name : String} {span : Span}
    (hOk : p.assign scope id name span = .ok q) : q = p.useAt scope id name := by
  unfold Progress.assign at hOk
  split at hOk
  · cases hOk
  · split at hOk
    · cases hOk
    · split at hOk
      · cases hOk
      · exact (Except.ok.inj hOk).symm

/-- A part of the walk opens the scopes of given positions, in those of given nodes. -/
def Covers (c : Context) (around : NodeId) (scope : ScopeId) (p : Progress) (qs : List Position)
    (nodes : List (Tree × NodeId)) (next : Context) (q : Progress) : Prop :=
  Unfolds c around scope p (withScope qs) (temporaries qs) nodes next q

section Covers

variable {around : NodeId} {qs rest : List Position} {nodes others : List (Tree × NodeId)}
  {middle : Context}

theorem Covers.trans (hFirst : Covers c around scope p qs nodes middle q)
    (hSecond : Covers middle around scope q rest others next r) :
    Covers c around scope p (qs ++ rest) (nodes ++ others) next r := by
  unfold Covers
  rw [withScope_append, temporaries_append]
  exact Unfolds.trans hFirst hSecond

/-- A position without a scope is passed by a step that opens nothing. -/
theorem covers_of_unfolds (hUnfolds : Unfolds c around scope p [] [] [] next q) {x : Position}
    (hScope : x.construct.hasScope = false) (hTemporary : x.construct.hasTemporary = false) :
    Covers c around scope p [x] [] next q := by
  simpa [Covers, withScope, temporaries, hScope, hTemporary] using hUnfolds

end Covers

/-! ### The induction hypothesis -/

/-- The walk through a tree of each kind, if it succeeds, covers the tree. -/
structure Coverings (globals : List String) (t : Tree) : Prop where
  expression : t.construct.isExpression = true → ∀ (around) {c p scope q}, Reflects c p scope →
    expression globals scope t p = .ok q →
    Covers c around scope p (t.positions c) (t.scopeNodes around) (c.after t) q
  statement : t.construct.isStatement = true → ∀ (around) {c p scope q}, Reflects c p scope →
    statement globals scope t p = .ok q →
    Covers c around scope p (t.positions c) (t.scopeNodes around) (c.after t) q
  block : t.construct.isBlock = true → ∀ (around) {c p scope q}, Reflects c p scope →
    block globals scope t p = .ok q →
    Covers c around scope p (t.positions c) (t.scopeNodes around) (c.after t) q
  function : t.construct.isFunction = true → ∀ (around) {c p scope result}, Reflects c p scope →
    t.construct.isClosureFunction = true ∨ c.declared = [] →
    function globals scope t p = .ok result →
    Covers c around scope p (t.positions c) (t.scopeNodes around) c result.2

section Lists

variable {globals : List String} (around : NodeId) {ts : List Tree}
  (hTrees : ∀ t ∈ ts, Coverings globals t)

include hTrees

/-- Statements are walked in order. -/
theorem covers_statements (hStatements : ∀ t ∈ ts, t.construct.isStatement = true)
    (hReflects : Reflects c p scope) (hOk : statements globals scope ts p = .ok q) :
    Covers c around scope p (Tree.positionsAll c ts) (Tree.scopeNodesAll around ts)
      (c.afterAll ts) q := by
  induction ts generalizing c p with
  | nil =>
      cases hOk
      exact hReflects.unfolds_refl around
  | cons t rest ih =>
      rw [statements] at hOk
      obtain ⟨middle, hFirst, hRest⟩ := exists_of_bind_eq_ok hOk
      have hHead := (hTrees t List.mem_cons_self).statement
        (hStatements t List.mem_cons_self) around hReflects hFirst
      exact hHead.trans (ih (fun s hS => hTrees s (List.mem_cons_of_mem t hS))
        (fun s hS => hStatements s (List.mem_cons_of_mem t hS)) hHead.reflects_next hRest)

/-- Operands are walked in order. -/
theorem covers_operands
    (hOperands : ∀ t ∈ ts, t.construct.isExpression = true ∨ t.construct.isBlock = true)
    (hReflects : Reflects c p scope) (hOk : operands globals scope ts p = .ok q) :
    Covers c around scope p (Tree.positionsAll c ts) (Tree.scopeNodesAll around ts)
      (c.afterAll ts) q := by
  induction ts generalizing c p with
  | nil =>
      cases hOk
      exact hReflects.unfolds_refl around
  | cons t rest ih =>
      have hCoverings := hTrees t List.mem_cons_self
      have hRest : ∀ {middle}, Covers c around scope p (t.positions c) (t.scopeNodes around)
            (c.after t) middle → operands globals scope rest middle = .ok q →
          Covers c around scope p (Tree.positionsAll c (t :: rest))
            (Tree.scopeNodesAll around (t :: rest)) (c.afterAll (t :: rest)) q :=
        fun hHead hOk => hHead.trans (ih (fun s hS => hTrees s (List.mem_cons_of_mem t hS))
          (fun s hS => hOperands s (List.mem_cons_of_mem t hS)) hHead.reflects_next hOk)
      rw [operands] at hOk
      split at hOk
      · rename_i hBlock
        obtain ⟨middle, hFirst, hOk⟩ := exists_of_bind_eq_ok hOk
        exact hRest (hCoverings.block hBlock around hReflects hFirst) hOk
      · rename_i hBlock
        obtain ⟨middle, hFirst, hOk⟩ := exists_of_bind_eq_ok hOk
        have hExpression := (hOperands t List.mem_cons_self).resolve_right hBlock
        exact hRest (hCoverings.expression hExpression around hReflects hFirst) hOk

/-- The functions of a module are walked in order. -/
theorem covers_moduleFunctions (hFunctions : ∀ t ∈ ts, t.construct.isFunction = true)
    (hReflects : Reflects c p scope) (hDeclared : c.declared = [])
    (hOk : moduleFunctions globals scope ts p = .ok q) :
    Covers c around scope p (Tree.positionsAll c ts) (Tree.scopeNodesAll around ts)
      (c.afterAll ts) q := by
  induction ts generalizing c p with
  | nil =>
      cases hOk
      exact hReflects.unfolds_refl around
  | cons t rest ih =>
      have hFunction := hFunctions t List.mem_cons_self
      rw [moduleFunctions, if_pos hFunction] at hOk
      obtain ⟨⟨captured, middle⟩, hFirst, hRest⟩ := exists_of_bind_eq_ok hOk
      have hHead := (hTrees t List.mem_cons_self).function hFunction around hReflects
        (Or.inr hDeclared) hFirst
      rw [Tree.positionsAll, Context.afterAll_cons, Tree.after_of_isFunction hFunction]
      exact hHead.trans (ih (fun s hS => hTrees s (List.mem_cons_of_mem t hS))
        (fun s hS => hFunctions s (List.mem_cons_of_mem t hS)) hHead.reflects_next hDeclared hRest)

end Lists

/-! ### Nodes -/

section Nodes

variable {globals : List String} {around id : NodeId} {node : Node} {children : List Tree}
  (hProper : (Tree.mk id node children).IsProper)

include hProper

/-- An expression without children opens nothing. -/
theorem covers_leaf (hExpression : node.construct.isExpression = true) (hNil : children = [])
    (hReflects : Reflects c p scope) {slots : List (NodeId × Nat)} {captures : List Capture}
    {layouts : List Layout}
    (hAdvances : Advances scope p slots captures layouts (c.after (.mk id node children)) q)
    (hRests : Rests p q) :
    Covers c around scope p ((Tree.mk id node children).positions c)
      ((Tree.mk id node children).scopeNodes around) (c.after (.mk id node children)) q := by
  subst hNil
  obtain ⟨hScope, hTemporary⟩ := Construct.hasScope_of_isExpression hExpression
  rw [Tree.after_of_isExpression hProper hExpression] at hAdvances ⊢
  rw [Tree.positions_leaf, Tree.scopeNodes, hScope, if_neg Bool.false_ne_true]
  exact covers_of_unfolds (unfolds_of_rests around hReflects hAdvances hRests rfl) hScope hTemporary

variable (hChildren : ∀ t ∈ children, Coverings globals t)

include hChildren

/-- A node that is nothing but its operands opens what these open, after a step that opens
nothing. -/
theorem covers_head (hOperands : node.construct.hasOperands = true)
    (hBinds : node.construct.bindsInBlock = false)
    (hAssignment : ∀ name, node.construct ≠ .assignment name) (hReflects : Reflects c p scope)
    {slots : List (NodeId × Nat)} {captures : List Capture} {layouts : List Layout}
    (hAdvances : Advances scope p slots captures layouts c q) (hRests : Rests p q)
    (hOk : operands globals scope children q = .ok r) :
    Covers c around scope p ((Tree.mk id node children).positions c)
      ((Tree.mk id node children).scopeNodes around) (c.after (.mk id node children)) r := by
  have hFunction := Construct.isFunction_eq_false_of_hasOperands hOperands
  have hScope := Construct.hasScope_of_hasOperands hOperands
  have hTemporary : node.construct.hasTemporary = false := by
    cases hConstruct : node.construct <;>
      simp_all [Construct.hasTemporary, Construct.bindsInBlock, Construct.hasOperands]
  rw [Tree.positions_of_first c id children hFunction hBinds hAssignment
      (Construct.ne_iteration_of_hasOperands hOperands),
    after_eq_afterAll hProper hOperands hBinds, Tree.scopeNodes, hScope, if_neg Bool.false_ne_true]
  exact (covers_of_unfolds (x := ⟨c, .mk id node children⟩)
    (unfolds_of_rests around hReflects hAdvances hRests rfl) hScope hTemporary).trans
    (covers_operands around hChildren (isOperand_of_mem_children hProper hOperands)
      hAdvances.reflects hOk)

/-- A statement that binds in its block or assigns does so after its value. -/
theorem covers_last
    (hKind : node.construct.bindsInBlock = true ∨ ∃ name, node.construct = .assignment name)
    (hReflects : Reflects c p scope) {middle : Progress}
    (hValue : operands globals scope children p = .ok middle)
    (hLast : Reflects c middle scope → Covers c around scope middle [⟨c, .mk id node children⟩] []
      (c.after (.mk id node children)) q) :
    Covers c around scope p ((Tree.mk id node children).positions c)
      ((Tree.mk id node children).scopeNodes around) (c.after (.mk id node children)) q := by
  have hOperands : node.construct.hasOperands = true := by
    rcases hKind with hBinds | ⟨name, hConstruct⟩
    · exact Construct.hasOperands_of_bindsInBlock hBinds
    · rw [hConstruct]
      rfl
  have hScope := Construct.hasScope_of_hasOperands hOperands
  obtain ⟨hZero, hPositions, -⟩ := follows_value hProper
    (fun t hMem => walks globals (hProper.of_mem_children hMem)) hKind hReflects
  have hAfter : c.afterAll children = c := by
    rw [c.afterAll_eq fun t hMem => Construct.bindsInBlock_eq_false_of_isExpression
      (Tree.isExpression_of_value hProper hKind hMem), hZero]
    rfl
  have hFirst := covers_operands around hChildren
    (isOperand_of_mem_children hProper hOperands) hReflects hValue
  rw [hAfter] at hFirst
  rw [hPositions, Tree.scopeNodes, hScope, if_neg Bool.false_ne_true,
    ← List.append_nil (Tree.scopeNodesAll around children)]
  exact hFirst.trans (hLast hFirst.reflects_next)

/-- A declaration declares one binding after its value. -/
theorem covers_declaration {name : String} {mutability : Mutability}
    (hConstruct : node.construct = .declaration name mutability) (hReflects : Reflects c p scope)
    (hOk : statement globals scope (.mk id node children) p = .ok q) :
    Covers c around scope p ((Tree.mk id node children).positions c)
      ((Tree.mk id node children).scopeNodes around) (c.after (.mk id node children)) q := by
  have hPlain : isReserved name = false :=
    hProper.names_plain name (by simp [hConstruct, Construct.names])
  have hBinds : node.construct.bindsInBlock = true := by
    rw [hConstruct]
    rfl
  rw [statement] at hOk
  simp only [hConstruct] at hOk
  obtain ⟨middle, hValue, hOk⟩ := exists_of_bind_eq_ok hOk
  obtain ⟨⟨slot, declared⟩, hDeclare, hOk⟩ := exists_of_bind_eq_ok hOk
  cases hOk
  refine covers_last hProper hChildren (Or.inl hBinds) hReflects hValue fun hMiddle => ?_
  have hAfter : c.after (.mk id node children) = c.declare id 0 (some name) mutability := by
    rw [c.after_mk_eq_extend hBinds (Tree.declarationCountAll_of_value hProper (Or.inl hBinds)),
      hConstruct]
    rfl
  have hDeclared := hMiddle.unfolds_declareNamed around hPlain hDeclare id 0
  have hRecorded := unfolds_of_rests around hDeclared.reflects_next
    (hDeclared.reflects_next.advances_recordSlot id slot) (rests_recordSlot ..) rfl
  rw [hAfter]
  exact covers_of_unfolds (hDeclared.trans hRecorded) (by rw [Position.construct_mk, hConstruct]; rfl)
    (by rw [Position.construct_mk, hConstruct]; rfl)

/-- Taking a value apart declares the value under a fresh name, and then the names. -/
theorem covers_destructuring {names : List String} {mutability : Mutability}
    (hConstruct : node.construct = .destructuring names mutability)
    (hReflects : Reflects c p scope)
    (hOk : statement globals scope (.mk id node children) p = .ok q) :
    Covers c around scope p ((Tree.mk id node children).positions c)
      ((Tree.mk id node children).scopeNodes around) (c.after (.mk id node children)) q := by
  have hPlain : ∀ name ∈ names, isReserved name = false := fun name hMem =>
    hProper.names_plain name (by simpa [hConstruct, Construct.names] using hMem)
  have hBinds : node.construct.bindsInBlock = true := by
    rw [hConstruct]
    rfl
  rw [statement] at hOk
  simp only [hConstruct] at hOk
  obtain ⟨middle, hValue, hOk⟩ := exists_of_bind_eq_ok hOk
  obtain ⟨⟨slot, whole⟩, hWhole, hOk⟩ := exists_of_bind_eq_ok hOk
  obtain ⟨⟨slots, declared⟩, hDeclare, hOk⟩ := exists_of_bind_eq_ok hOk
  cases hOk
  refine covers_last hProper hChildren (Or.inl hBinds) hReflects hValue fun hMiddle => ?_
  have hAfter : c.after (.mk id node children) = (c.declare id 0 none .constant).declareAll id 1
      (names.map fun name => (some name, mutability)) := by
    rw [c.after_mk_eq_extend hBinds (Tree.declarationCountAll_of_value hProper (Or.inl hBinds)),
      hConstruct]
    rfl
  have hFirst := hMiddle.unfolds_declareFresh around hWhole id 0
  have hRecorded := unfolds_of_rests around hFirst.reflects_next
    (hFirst.reflects_next.advances_recordSlot id slot) (rests_recordSlot ..) rfl
  have hNamed := hRecorded.reflects_next.unfolds_declareAll around hPlain hDeclare id 1
  rw [hAfter]
  simpa [Covers, withScope, temporaries, hConstruct, Construct.hasScope, Construct.hasTemporary]
    using (hFirst.trans hRecorded).trans hNamed

/-- An assignment opens what its value opens. -/
theorem covers_assignment {name : String} (hConstruct : node.construct = .assignment name)
    (hReflects : Reflects c p scope)
    (hOk : statement globals scope (.mk id node children) p = .ok q) :
    Covers c around scope p ((Tree.mk id node children).positions c)
      ((Tree.mk id node children).scopeNodes around) (c.after (.mk id node children)) q := by
  have hPlain : isReserved name = false :=
    hProper.names_plain name (by simp [hConstruct, Construct.names])
  rw [statement] at hOk
  simp only [hConstruct] at hOk
  obtain ⟨middle, hValue, hOk⟩ := exists_of_bind_eq_ok hOk
  obtain rfl := eq_useAt_of_assign hOk
  refine covers_last hProper hChildren (Or.inr ⟨name, hConstruct⟩) hReflects hValue
    fun hMiddle => ?_
  have hAfter : c.after (.mk id node children) = c := by
    rw [c.after_mk_eq (by rw [hConstruct]; rfl) (by rw [hConstruct]; rfl),
      Tree.declarationCountAll_of_value hProper (Or.inr ⟨name, hConstruct⟩), hConstruct]
    rfl
  rw [hAfter]
  exact covers_of_unfolds (unfolds_of_rests around hMiddle (hMiddle.advances_useAt hPlain id)
    (rests_useAt ..) rfl) (by rw [Position.construct_mk, hConstruct]; rfl)
    (by rw [Position.construct_mk, hConstruct]; rfl)

/-- A block is walked in a scope of its own. -/
theorem covers_block (hConstruct : node.construct = .block) (hReflects : Reflects c p scope)
    (hOk : block globals scope (.mk id node children) p = .ok q) :
    Covers c around scope p ((Tree.mk id node children).positions c)
      ((Tree.mk id node children).scopeNodes around) (c.after (.mk id node children)) q := by
  have hStatements : ∀ t ∈ children, t.construct.isStatement = true := by
    have hAdmits := hProper.admits
    rw [hConstruct] at hAdmits
    intro t hMem
    exact List.all_eq_true.mp hAdmits _ (List.mem_map_of_mem hMem)
  have hPositions : (Tree.mk id node children).positions c =
      ⟨c, .mk id node children⟩ :: Tree.positionsAll c children := by
    simp only [Tree.positions, hConstruct]
  have hAfter : c.after (.mk id node children) =
      { c with made := (c.afterAll children).made } := by
    rw [c.after_mk_eq (by rw [hConstruct]; rfl) (by rw [hConstruct]; rfl), hConstruct,
      Context.made_afterAll]
    simp [Construct.bindings]
  have hEnding : (⟨c, .mk id node children⟩ : Position).ending = c.afterAll children := by
    simp [Position.ending, hConstruct, Tree.children]
  rw [block] at hOk
  obtain ⟨⟨inner, opened⟩, hOpen, hOk⟩ := exists_of_bind_eq_ok hOk
  obtain ⟨hOpens, hInner⟩ := hReflects.of_openScope hOpen
  have hBelow := covers_statements id hChildren hStatements hInner hOk
  have hScope := hOpens.unfolds around ⟨c, .mk id node children⟩ hReflects rfl
    (by rw [Position.construct_mk, hConstruct]; rfl) hBelow (by rw [hEnding])
    (c.inherited_afterAll children)
  rw [hPositions, hAfter]
  simpa [Covers, withScope, temporaries, Tree.scopeNodes, hConstruct, Construct.hasScope,
    Construct.hasTemporary] using hScope

/-- A loop over items walks the items, and then binds in a scope of its own, where its block is
walked. -/
theorem covers_iteration {name : String} (hConstruct : node.construct = .iteration name)
    (hReflects : Reflects c p scope)
    (hOk : statement globals scope (.mk id node children) p = .ok q) :
    Covers c around scope p ((Tree.mk id node children).positions c)
      ((Tree.mk id node children).scopeNodes around) (c.after (.mk id node children)) q := by
  have hPlain : isReserved name = false :=
    hProper.names_plain name (by simp [hConstruct, Construct.names])
  obtain ⟨items, body, rfl, hItems, hBody⟩ := hProper.exists_of_iteration hConstruct
  have hItemsProper : items.IsProper := hProper.of_mem_children List.mem_cons_self
  have hItemsAfter := Tree.after_of_isExpression hItemsProper hItems c
  have hItemsCount := Tree.declarationCount_of_isExpression hItemsProper hItems
  have hPositions : (Tree.mk id node [items, body]).positions c = items.positions c ++
      ⟨c, .mk id node [items, body]⟩ :: body.positions (c.extend id node.construct) := by
    simp only [Tree.positions, hConstruct, Tree.iterationPositions, Tree.positionsAll,
      List.append_nil]
  have hAfter : c.after (.mk id node [items, body]) =
      { c with made := ((c.extend id node.construct).after body).made } := by
    rw [c.after_mk_eq (by rw [hConstruct]; rfl) (by rw [hConstruct]; rfl), Context.made_after,
      Context.made_extend, Tree.declarationCountAll, Tree.declarationCountAll,
      Tree.declarationCountAll, hItemsCount]
    simp [Nat.add_assoc]
  have hExtend : c.extend id node.construct =
      (c.declare id 0 none .constant).declare id 1 (some name) .mutable := by
    rw [hConstruct]
    rfl
  have hEnding : (⟨c, .mk id node [items, body]⟩ : Position).ending =
      c.extend id node.construct := by
    simp [Position.ending, hConstruct]
  rw [statement] at hOk
  simp only [hConstruct] at hOk
  rw [iteration] at hOk
  obtain ⟨afterItems, hItemsOk, hOk⟩ := exists_of_bind_eq_ok hOk
  obtain ⟨⟨inner, opened⟩, hOpen, hOk⟩ := exists_of_bind_eq_ok hOk
  obtain ⟨⟨first, iterator⟩, hIterator, hOk⟩ := exists_of_bind_eq_ok hOk
  obtain ⟨⟨second, declared⟩, hItem, hOk⟩ := exists_of_bind_eq_ok hOk
  simp only [iterationBody] at hOk
  have hRead := (hChildren items List.mem_cons_self).expression hItems around hReflects
    hItemsOk
  rw [hItemsAfter] at hRead
  obtain ⟨hOpens, hInner⟩ := hRead.reflects_next.of_openScope hOpen
  -- in its scope the loop binds what is left of the items, then the item, and walks its block
  have hFirst := hInner.unfolds_declareFresh id hIterator id 0
  have hSecond := hFirst.reflects_next.unfolds_declareNamed id hPlain hItem id 1
  have hRecorded := unfolds_of_rests id hSecond.reflects_next
    (hSecond.reflects_next.advances_recordSlot id second) (rests_recordSlot ..) rfl
  have hBlock := (hChildren body (List.mem_cons_of_mem _ List.mem_cons_self)).block hBody id
    hRecorded.reflects_next hOk
  rw [← hExtend] at hBlock hRecorded hSecond
  have hInside := ((hFirst.trans hSecond).trans hRecorded).trans hBlock
  have hLoop := hOpens.unfolds around ⟨c, .mk id node [items, body]⟩ hRead.reflects_next rfl
    (by rw [Position.construct_mk, hConstruct]; rfl) hInside
    (by rw [hEnding, Context.after_eq _ _ (Construct.bindsInBlock_eq_false_of_isBlock hBody)])
    (by rw [Context.inherited_after, Context.inherited_extend])
  rw [hPositions, hAfter]
  have hBoth := (Unfolds.trans hRead hLoop).of_nodes
    ((Tree.mk id node [items, body]).scopeNodes around) ?_
  · simpa [Covers, withScope, temporaries, hConstruct, Construct.hasScope,
      Construct.hasTemporary] using hBoth
  · intro y hY hClosure
    simp only [Tree.scopeNodes, hConstruct, Construct.hasScope, if_true, Tree.scopeNodesAll,
      List.append_nil, List.mem_cons, List.mem_append] at hY ⊢
    rcases hY with rfl | hY | hY
    · exact Or.inr (Or.inl rfl)
    · exact Or.inl (Tree.mem_scopeNodes_of_isExpression hItemsProper hItems id around hY hClosure)
    · exact Or.inr (Or.inr (by simpa using hY))

/-- A function is walked in a scope of its own, inside its environment if it is that of a closure. -/
theorem covers_function {name : String} {params : List String} {isClosure : Bool}
    (hConstruct : node.construct = .function name params isClosure) (hReflects : Reflects c p scope)
    (hKind : isClosure = true ∨ c.declared = []) {result : List String × Progress}
    (hOk : function globals scope (.mk id node children) p = .ok result) :
    Covers c around scope p ((Tree.mk id node children).positions c)
      ((Tree.mk id node children).scopeNodes around) c result.2 := by
  have hPlain : ∀ param ∈ params, isReserved param = false := fun param hMem =>
    hProper.names_plain param (Construct.mem_names_of_mem_params hConstruct hMem)
  obtain ⟨t, rfl, hBlock⟩ := hProper.exists_of_function hConstruct
  have hPositions : (Tree.mk id node [t]).positions c =
      ⟨c, .mk id node [t]⟩ :: t.positions (c.enter.extend id node.construct) := by
    simp only [Tree.positions, hConstruct, Tree.positionsAll, List.append_nil]
  have hEnding : (⟨c, .mk id node [t]⟩ : Position).ending = c.enter.extend id node.construct := by
    simp [Position.ending, hConstruct]
  have hIsFunction : (Tree.mk id node [t]).construct.isFunction = true := by
    show node.construct.isFunction = true
    rw [hConstruct]
    rfl
  have hClosureKind : (Tree.mk id node [t]).construct.isClosureFunction = isClosure := by
    show node.construct.isClosureFunction = isClosure
    rw [hConstruct]
    rfl
  obtain ⟨hCaptures, hAdvances⟩ := ((walks globals hProper).function hIsFunction hReflects
    (by rwa [hClosureKind])).of_eq_ok hOk
  rw [function] at hOk
  simp only [hConstruct] at hOk
  obtain ⟨⟨entry, entered⟩, hEnter, hOk⟩ := exists_of_bind_eq_ok hOk
  obtain ⟨last, hBody, hOk⟩ := exists_of_bind_eq_ok hOk
  cases hOk
  rw [body, if_pos hBlock] at hBody
  obtain ⟨opened, hInto, hInner, hDeclare, hEnvironment⟩ :=
    hReflects.exists_goesInto ⟨c, .mk id node [t]⟩ rfl hConstruct hKind hEnter
  have hParams := hInner.unfolds_declareAll id hPlain hDeclare id 0
  have hExtend : c.enter.declareAll id 0 (params.map fun param => (some param, .constant)) =
      c.enter.extend id node.construct := by
    rw [hConstruct]
    rfl
  rw [hExtend] at hParams
  have hInside := hParams.trans ((hChildren t List.mem_cons_self).block hBlock id
    hParams.reflects_next hBody)
  have hUnfolds := unfolds_of_inner around (o := ⟨⟨c, .mk id node [t]⟩, entry.scope,
    opened.frame.environment⟩) hReflects ⟨_, _, _, hAdvances⟩ rfl hInto hInside
    (by rw [hEnding, Context.after_eq _ _ (Construct.bindsInBlock_eq_false_of_isBlock hBlock)])
    rfl rfl ?_
  · rw [hPositions]
    simpa [Covers, withScope, temporaries, Tree.scopeNodes, hConstruct, Construct.hasScope,
      Construct.hasTemporary] using hUnfolds
  · intro hClosure fresh before hTells hParent
    obtain ⟨environment, hFrame, hKnown, hScope, hAlone, hOwned⟩ :=
      hEnvironment (by rwa [← hClosureKind])
    obtain ⟨_, _, _, hMoved⟩ := hInside.advances
    have hView := hMoved.views environment hKnown (by
      rintro rfl
      exact hInner.inside hFrame)
    refine ⟨environment, hFrame, hParent.trans hScope,
      (Scope.Store.parent?_congr hView).trans hAlone, ?_⟩
    refine hReflects.environment_eq hTells rfl ?_ ?_
    · rw [Scope.Store.map_plain_owned_congr hView, hOwned, List.map_map]
      rfl
    · intro b hMem
      rw [← hCaptures]
      exact hInside.reflects_next.marks environment (hMoved.environment.trans hFrame) b hMem

/-- A closure opens what its function opens. -/
theorem covers_closure (hConstruct : node.construct = .closure) (hReflects : Reflects c p scope)
    (hOk : closure globals scope children p = .ok q) :
    Covers c around scope p ((Tree.mk id node children).positions c)
      ((Tree.mk id node children).scopeNodes around) (c.after (.mk id node children)) q := by
  obtain ⟨t, rfl, hClosure⟩ := hProper.exists_of_closure hConstruct
  have hFunction := Construct.isFunction_of_isClosureFunction hClosure
  have hPositions : (Tree.mk id node [t]).positions c = [⟨c, .mk id node [t]⟩] ++ t.positions c := by
    simp only [Tree.positions, hConstruct, Tree.positionsAll, List.append_nil, List.singleton_append]
  have hAfter : c.after (.mk id node [t]) = c := by
    apply Tree.after_of_isExpression hProper
    show node.construct.isExpression = true
    rw [hConstruct]
    rfl
  rw [closure] at hOk
  obtain ⟨⟨captured, left⟩, hFunctionOk, hOk⟩ := exists_of_bind_eq_ok hOk
  cases hOk
  have hCovers := (hChildren t List.mem_cons_self).function hFunction around hReflects
    (Or.inl hClosure) hFunctionOk
  have hCaptures := (((walks globals (hProper.of_mem_children List.mem_cons_self)).function hFunction
    hReflects (Or.inl hClosure)).of_eq_ok hFunctionOk).1
  simp only at hCaptures hCovers
  -- what is captured was found where the closure stands, so it has a name of the program
  have hPlain : ∀ name ∈ captured, isReserved name = false := by
    rw [hCaptures]
    intro name hMem
    obtain ⟨k, hK, rfl⟩ := List.mem_map.mp hMem
    obtain ⟨d, hLookup, -⟩ := exists_lookup?_of_mem_captures hK
    exact hReflects.isReserved_of_lookup? hLookup
  have hUsed : Covers c around scope left [] [] c (left.useAll scope captured) :=
    unfolds_of_rests around hCovers.reflects_next
      (hCovers.reflects_next.advances_useAll hPlain) (rests_useAll ..) rfl
  have hHere := covers_of_unfolds (x := ⟨c, .mk id node [t]⟩)
    (hReflects.unfolds_refl around) (by rw [Position.construct_mk, hConstruct]; rfl)
    (by rw [Position.construct_mk, hConstruct]; rfl)
  have hAll := (hHere.trans hCovers).trans hUsed
  rw [hPositions, hAfter]
  simpa [Tree.scopeNodes, hConstruct, Construct.hasScope] using hAll

end Nodes

/-! ### All trees -/

/-- The walk through every proper tree covers it. -/
theorem coverings (globals : List String) {t : Tree} (hProper : t.IsProper) :
    Coverings globals t := by
  induction t using Tree.induction_children with
  | mk id node children ih =>
      have hChildren : ∀ t ∈ children, Coverings globals t :=
        fun t hMem => ih t hMem (hProper.of_mem_children hMem)
      refine ⟨?_, ?_, ?_, ?_⟩
      · intro hExpression around c p scope q hReflects hOk
        have hAdvances := ((walks globals hProper).expression hExpression hReflects).of_eq_ok hOk
        change node.construct.isExpression = true at hExpression
        rw [expression] at hOk
        cases hConstruct : node.construct <;> simp only [hConstruct] at hOk
        case constant literal =>
          cases hOk
          exact covers_leaf hProper hExpression (hProper.eq_nil_of_leaf hExpression
            (by rw [hConstruct]; rfl) (by simp [hConstruct])) hReflects hAdvances (Rests.refl p)
        case reference name =>
          exact covers_leaf hProper hExpression (hProper.eq_nil_of_leaf hExpression
            (by rw [hConstruct]; rfl) (by simp [hConstruct])) hReflects hAdvances (rests_refer hOk)
        case functionCall name =>
          have hPlain : isReserved name = false :=
            hProper.names_plain name (by simp [hConstruct, Construct.names])
          exact covers_head hProper hChildren (by rw [hConstruct]; rfl) (by rw [hConstruct]; rfl)
            (by simp [hConstruct]) hReflects (hReflects.advances_useAt hPlain id)
            (rests_useAt ..) hOk
        case closure => exact covers_closure hProper hChildren hConstruct hReflects hOk
        case binary | unary | methodCall =>
          exact covers_head hProper hChildren (by rw [hConstruct]; rfl) (by rw [hConstruct]; rfl)
            (by simp [hConstruct]) hReflects (hReflects.advances_recordCall ..)
            (rests_recordCall ..) hOk
        all_goals cases hOk
      · intro hStatement around c p scope q hReflects hOk
        cases hConstruct : node.construct
        case block =>
          rw [statement] at hOk
          simp only [hConstruct] at hOk
          exact covers_block hProper hChildren hConstruct hReflects (by rw [block]; exact hOk)
        case declaration name mutability =>
          exact covers_declaration hProper hChildren hConstruct hReflects hOk
        case destructuring names mutability =>
          exact covers_destructuring hProper hChildren hConstruct hReflects hOk
        case iteration name => exact covers_iteration hProper hChildren hConstruct hReflects hOk
        case assignment name => exact covers_assignment hProper hChildren hConstruct hReflects hOk
        case returning | branch | loop | evaluation =>
          rw [statement] at hOk
          simp only [hConstruct] at hOk
          exact covers_head hProper hChildren (by rw [hConstruct]; rfl) (by rw [hConstruct]; rfl)
            (by simp [hConstruct]) hReflects hReflects.refl (Rests.refl p) hOk
        all_goals
          change node.construct.isStatement = true at hStatement
          rw [hConstruct] at hStatement
          cases hStatement
      · intro hBlock around c p scope q hReflects hOk
        change node.construct.isBlock = true at hBlock
        cases hConstruct : node.construct <;> simp [hConstruct, Construct.isBlock] at hBlock
        exact covers_block hProper hChildren hConstruct hReflects hOk
      · intro hFunction around c p scope result hReflects hKind hOk
        change node.construct.isFunction = true at hFunction
        change node.construct.isClosureFunction = true ∨ _ at hKind
        cases hConstruct : node.construct <;> simp [hConstruct, Construct.isFunction] at hFunction
        rw [hConstruct] at hKind
        exact covers_function hProper hChildren hConstruct hReflects hKind hOk

end LateBinding.Resolution
