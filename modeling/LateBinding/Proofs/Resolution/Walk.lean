import LateBinding.Proofs.Resolution.Frame

/-!
# The walk follows the positions

The walk through a tree stops at the first position with a fault, in the order in which positions
are read, with the error of this fault; if there is none, it ends in a state that stands for the
context after the tree, and has recorded the slot, the captures and the layout of each position.
The proof is one induction over the tree with a case for each construct.

* `Follows` - a part of the walk succeeds or fails as its positions say; `Follows.bind` puts parts
  together.
* `Reads` - what a part of the walk has done, said by its positions.
* `Walks`, `walks` - the four kinds of trees that are walked, and that all proper trees are walked
  as their positions say.
-/

namespace LateBinding.Resolution

open Lexical (Context Declaration Position)
open Scope (Binding ScopeId)
open FreshName (MadeBefore isReserved)

/-! ### Results and positions -/

/-- A result is the error of the first fault among positions, or satisfies a condition if there is
no fault. -/
def Follows {α : Type} (globals : List String) (qs : List Position)
    (result : Except ResolutionError α) (post : α → Prop) : Prop :=
  match qs.findSome? (·.fault? globals) with
  | some e => result = .error e
  | none => ∃ a, result = .ok a ∧ post a

section Follows

variable {α β : Type} {globals : List String} {qs : List Position}
  {result : Except ResolutionError α} {post : α → Prop}

/-- Where no position has a fault, the walk goes on. -/
theorem follows_ok {a : α} (hFaults : ∀ q ∈ qs, q.fault? globals = none) (hPost : post a) :
    Follows globals qs (.ok a) post := by
  have hNone : qs.findSome? (·.fault? globals) = none := by
    rw [List.findSome?_eq_none_iff]
    exact hFaults
  unfold Follows
  rw [hNone]
  exact ⟨a, rfl, hPost⟩

/-- A fault at the first position is the error. -/
theorem follows_error {q : Position} {e : ResolutionError} (hFault : q.fault? globals = some e) :
    Follows globals (q :: qs) (.error e) post := by
  unfold Follows
  rw [List.findSome?_cons, hFault]

/-- One part of the walk after another. -/
theorem Follows.bind {rest : List Position} {next : α → Except ResolutionError β} {post' : β → Prop}
    (hFirst : Follows globals qs result post)
    (hNext : ∀ a, post a → Follows globals rest (next a) post') :
    Follows globals (qs ++ rest) (result >>= next) post' := by
  unfold Follows at hFirst
  cases hFault : qs.findSome? (·.fault? globals) with
  | some e =>
      rw [hFault] at hFirst
      simp only [Follows, List.findSome?_append, hFault, Option.some_or, hFirst]
      rfl
  | none =>
      rw [hFault] at hFirst
      obtain ⟨a, rfl, hPost⟩ := hFirst
      have hRest := hNext a hPost
      unfold Follows at hRest ⊢
      rw [List.findSome?_append, hFault, Option.none_or]
      exact hRest

/-- A weaker condition. -/
theorem Follows.imp {post' : α → Prop} (hFollows : Follows globals qs result post)
    (hImp : ∀ a, post a → post' a) : Follows globals qs result post' := by
  unfold Follows at hFollows ⊢
  split
  · rename_i e hFault
    rwa [hFault] at hFollows
  · rename_i hFault
    rw [hFault] at hFollows
    obtain ⟨a, hResult, hPost⟩ := hFollows
    exact ⟨a, hResult, hImp a hPost⟩

/-- What follows positions and succeeds has the result they say. -/
theorem Follows.of_eq_ok (hFollows : Follows globals qs result post) {a : α}
    (hOk : result = .ok a) : post a := by
  unfold Follows at hFollows
  split at hFollows
  · rw [hOk] at hFollows
    cases hFollows
  · obtain ⟨b, hResult, hPost⟩ := hFollows
    obtain rfl := Except.ok.inj (hOk.symm.trans hResult)
    exact hPost

/-- A position without a fault comes first. -/
theorem Follows.cons {q : Position} (hFault : q.fault? globals = none)
    (hFollows : Follows globals qs result post) : Follows globals (q :: qs) result post := by
  unfold Follows at hFollows ⊢
  rw [List.findSome?_cons, hFault]
  exact hFollows

end Follows

/-! ### What positions record -/

/-- The walk has read positions: the slots, captures and layouts that it has added are theirs. -/
def Reads (c : Context) (scope : ScopeId) (p : Progress) (qs : List Position) (next : Context)
    (q : Progress) : Prop :=
  Advances scope p (qs.filterMap Position.record?)
    (qs.filterMap (Position.capture? c.depth c.inherited)) (qs.filterMap Position.layout?) next q

section Reads

variable {c middle next : Context} {scope : ScopeId} {p q r : Progress} {qs rest : List Position}

/-- Positions are read one after the other. -/
theorem Reads.trans (hFirst : Reads c scope p qs middle q) (hSecond : Reads middle scope q rest next r)
    (hDepth : middle.depth = c.depth) (hInherited : middle.inherited = c.inherited) :
    Reads c scope p (qs ++ rest) next r := by
  unfold Reads at hFirst hSecond ⊢
  rw [hDepth, hInherited] at hSecond
  rw [List.filterMap_append, List.filterMap_append, List.filterMap_append]
  exact Advances.trans hFirst hSecond

/-- Nothing is read. -/
theorem Reflects.reads_nil (hReflects : Reflects c p scope) : Reads c scope p [] c p :=
  hReflects.refl

/-- A position is read by recording what it records. -/
theorem reads_singleton {x : Position}
    (hAdvances : Advances scope p x.record?.toList (x.capture? c.depth c.inherited).toList
      x.layout?.toList next q) : Reads c scope p [x] next q := by
  have hSingle : ∀ {β : Type} (f : Position → Option β), [x].filterMap f = (f x).toList := by
    intro β f
    cases hFound : f x <;> simp [hFound]
  unfold Reads
  rw [hSingle, hSingle, hSingle]
  exact hAdvances

/-- A position that is not about a declaration and not a function records nothing. -/
theorem Reflects.reads_silent (hReflects : Reflects c p scope) {x : Position}
    (hBinding : x.binding? = none) (hUse : x.use? = none) (hLayout : x.layout? = none) :
    Reads c scope p [x] c p := by
  apply reads_singleton
  simp only [Position.record?, Position.slot?, Position.capture?, hBinding, hUse, hLayout,
    Option.map_none, Option.bind_none, Option.toList_none]
  exact hReflects.refl

end Reads

/-! ### The induction hypothesis -/

/-- What the walk does with the trees of each kind. -/
structure Walks (globals : List String) (t : Tree) : Prop where
  expression : t.construct.isExpression = true → ∀ {c p scope}, Reflects c p scope →
    Follows globals (t.positions c) (expression globals scope t p)
      (Reads c scope p (t.positions c) (c.after t))
  statement : t.construct.isStatement = true → ∀ {c p scope}, Reflects c p scope →
    Follows globals (t.positions c) (statement globals scope t p)
      (Reads c scope p (t.positions c) (c.after t))
  block : t.construct.isBlock = true → ∀ {c p scope}, Reflects c p scope →
    Follows globals (t.positions c) (block globals scope t p)
      (Reads c scope p (t.positions c) (c.after t))
  function : t.construct.isFunction = true → ∀ {c p scope}, Reflects c p scope →
    t.construct.isClosureFunction = true ∨ c.declared = [] →
    Follows globals (t.positions c) (function globals scope t p) fun result =>
      result.1 = (Position.captures ⟨c, t⟩).map Capture.name ∧
      Advances scope p ((t.positions c).filterMap Position.record?) []
        ((t.positions c).filterMap Position.layout?) c result.2

section Lists

variable {globals : List String} {ts : List Tree} (hTrees : ∀ t ∈ ts, Walks globals t)

include hTrees

/-- Statements are walked in order. -/
theorem follows_statements (hStatements : ∀ t ∈ ts, t.construct.isStatement = true) {c : Context}
    {p : Progress} {scope : ScopeId} (hReflects : Reflects c p scope) :
    Follows globals (Tree.positionsAll c ts) (statements globals scope ts p)
      (Reads c scope p (Tree.positionsAll c ts) (c.afterAll ts)) := by
  induction ts generalizing c p with
  | nil =>
      rw [statements]
      exact follows_ok (by simp [Tree.positionsAll]) hReflects.reads_nil
  | cons t rest ih =>
      rw [statements, Tree.positionsAll]
      refine ((hTrees t List.mem_cons_self).statement (hStatements t List.mem_cons_self)
        hReflects).bind ?_
      intro q hRead
      have hRest := ih (fun s hS => hTrees s (List.mem_cons_of_mem t hS))
        (fun s hS => hStatements s (List.mem_cons_of_mem t hS)) hRead.reflects
      exact hRest.imp fun r hNext => hRead.trans hNext (c.depth_after t) (c.inherited_after t)

/-- Operands are walked in order. -/
theorem follows_operands
    (hOperands : ∀ t ∈ ts, t.construct.isExpression = true ∨ t.construct.isBlock = true)
    {c : Context} {p : Progress} {scope : ScopeId} (hReflects : Reflects c p scope) :
    Follows globals (Tree.positionsAll c ts) (operands globals scope ts p)
      (Reads c scope p (Tree.positionsAll c ts) (c.afterAll ts)) := by
  induction ts generalizing c p with
  | nil =>
      rw [operands]
      exact follows_ok (by simp [Tree.positionsAll]) hReflects.reads_nil
  | cons t rest ih =>
      have hWalks := hTrees t List.mem_cons_self
      have hRest : ∀ q, Reads c scope p (t.positions c) (c.after t) q →
          Follows globals (Tree.positionsAll (c.after t) rest) (operands globals scope rest q)
            (Reads c scope p (t.positions c ++ Tree.positionsAll (c.after t) rest)
              (c.afterAll (t :: rest))) := by
        intro q hRead
        have hNext := ih (fun s hS => hTrees s (List.mem_cons_of_mem t hS))
          (fun s hS => hOperands s (List.mem_cons_of_mem t hS)) hRead.reflects
        exact hNext.imp fun r hNext => hRead.trans hNext (c.depth_after t) (c.inherited_after t)
      rw [operands, Tree.positionsAll]
      by_cases hBlock : t.construct.isBlock = true
      · rw [if_pos hBlock]
        exact (hWalks.block hBlock hReflects).bind hRest
      · rw [if_neg hBlock]
        have hExpression := (hOperands t List.mem_cons_self).resolve_right hBlock
        exact (hWalks.expression hExpression hReflects).bind hRest

end Lists

/-! ### Nodes -/

section Nodes

variable {globals : List String} {id : NodeId} {node : Node} {children : List Tree}
  (hProper : (Tree.mk id node children).IsProper) (hChildren : ∀ t ∈ children, Walks globals t)
  {c : Context} {p q : Progress} {scope : ScopeId}

include hProper

/-- The operands of a node are expressions and blocks. -/
theorem isOperand_of_mem_children (hOperands : node.construct.hasOperands = true) :
    ∀ t ∈ children, t.construct.isExpression = true ∨ t.construct.isBlock = true :=
  fun _ hMem => Construct.isOperand_of_admits hOperands hProper.admits _ (List.mem_map_of_mem hMem)

/-- After a node that is nothing but its operands, what is declared is what is declared after
these. -/
theorem after_eq_afterAll (hOperands : node.construct.hasOperands = true)
    (hBinds : node.construct.bindsInBlock = false) :
    c.after (.mk id node children) = c.afterAll children := by
  have hFunction := Construct.isFunction_eq_false_of_hasOperands hOperands
  have hBelow : ∀ t ∈ children, t.construct.bindsInBlock = false := by
    intro t hMem
    rcases isOperand_of_mem_children hProper hOperands t hMem with hExpression | hBlock
    · exact Construct.bindsInBlock_eq_false_of_isExpression hExpression
    · exact Construct.bindsInBlock_eq_false_of_isBlock hBlock
  rw [c.after_mk_eq hFunction hBinds, c.afterAll_eq hBelow,
    Construct.bindings_eq_nil hFunction hBinds (Construct.ne_iteration_of_hasOperands hOperands),
    List.length_nil, Nat.zero_add]

include hChildren

/-- A node with operands, after it has itself been read. -/
theorem follows_head (hOperands : node.construct.hasOperands = true)
    (hBinds : node.construct.bindsInBlock = false)
    (hAssignment : ∀ name, node.construct ≠ .assignment name)
    (hFault : (⟨c, .mk id node children⟩ : Position).fault? globals = none)
    (hHead : Reads c scope p [⟨c, .mk id node children⟩] c q) :
    Follows globals ((Tree.mk id node children).positions c) (operands globals scope children q)
      (Reads c scope p ((Tree.mk id node children).positions c)
        (c.after (.mk id node children))) := by
  have hKinds := isOperand_of_mem_children hProper hOperands
  have hFunction := Construct.isFunction_eq_false_of_hasOperands hOperands
  have hLoop := Construct.ne_iteration_of_hasOperands hOperands
  rw [Tree.positions_of_first c id children hFunction hBinds hAssignment hLoop,
    after_eq_afterAll hProper hOperands hBinds]
  refine Follows.cons hFault ?_
  refine (follows_operands hChildren hKinds hHead.reflects).imp ?_
  intro r hRead
  exact hHead.trans hRead rfl rfl

/-- A block is walked in a scope of its own. -/
theorem follows_block (hConstruct : node.construct = .block) (hReflects : Reflects c p scope) :
    Follows globals ((Tree.mk id node children).positions c)
      (block globals scope (.mk id node children) p)
      (Reads c scope p ((Tree.mk id node children).positions c)
        (c.after (.mk id node children))) := by
  have hStatements : ∀ t ∈ children, t.construct.isStatement = true := by
    have hAdmits := hProper.admits
    rw [hConstruct] at hAdmits
    intro t hMem
    exact List.all_eq_true.mp hAdmits _ (List.mem_map_of_mem hMem)
  have hPositions : (Tree.mk id node children).positions c =
      ⟨c, .mk id node children⟩ :: Tree.positionsAll c children := by
    simp only [Tree.positions, hConstruct]
  have hAfter : c.after (.mk id node children) =
      { c with made := (c.afterAll children).made } := by
    rw [c.after_mk_eq (by rw [hConstruct]; rfl) (by rw [hConstruct]; rfl), hConstruct,
      Context.made_afterAll]
    simp [Construct.bindings]
  obtain ⟨opened, hOpen, hOpens, hInner⟩ := hReflects.exists_openScope id
  rw [hPositions, hAfter, block, hOpen]
  refine Follows.cons (by simp [Position.fault?, hConstruct, Construct.bindings]) ?_
  -- what the block declares stays in its scope; only the number of declarations goes on
  refine (follows_statements hChildren hStatements hInner).imp ?_
  intro r hRead
  have hSilent : Reads c scope p [⟨c, .mk id node children⟩] c p := by
    apply hReflects.reads_silent
    · simp [Position.binding?, hConstruct]
    · simp [Position.use?, hConstruct]
    · simp [Position.layout?, hConstruct, Construct.isFunction]
  have hBelow : Reads c scope p (Tree.positionsAll c children)
      { c with made := (c.afterAll children).made } r :=
    hReflects.advances_of_opens hOpens hRead (c.inherited_afterAll children)
  exact hSilent.trans hBelow rfl rfl

/-- A node that is nothing but its operands is walked through these. -/
theorem follows_operation (hOperands : node.construct.hasOperands = true)
    (hBinds : node.construct.bindsInBlock = false)
    (hCall : ∀ name, node.construct ≠ .functionCall name)
    (hAssignment : ∀ name, node.construct ≠ .assignment name)
    (hFirst : Advances scope p [] [] [] c q) :
    Follows globals ((Tree.mk id node children).positions c) (operands globals scope children q)
      (Reads c scope p ((Tree.mk id node children).positions c)
        (c.after (.mk id node children))) := by
  have hBinding : (⟨c, .mk id node children⟩ : Position).binding? = none := by
    cases hConstruct : node.construct <;> simp_all [Position.binding?, Construct.hasOperands,
      Construct.bindsInBlock]
  have hUse : (⟨c, .mk id node children⟩ : Position).use? = none := by
    cases hConstruct : node.construct <;> simp_all [Position.use?, Construct.hasOperands]
  have hLayout : (⟨c, .mk id node children⟩ : Position).layout? = none := by
    cases hConstruct : node.construct <;> simp_all [Position.layout?, Construct.hasOperands,
      Construct.isFunction]
  apply follows_head hProper hChildren hOperands hBinds hAssignment
  · cases hConstruct : node.construct <;> simp_all [Position.fault?, Construct.bindings,
      Construct.hasOperands, Construct.bindsInBlock]
  · apply reads_singleton
    simpa [Position.record?, Position.slot?, Position.capture?, hBinding, hUse, hLayout] using hFirst

/-- The call of a function uses the name of the function, if it is declared, before its operands. -/
theorem follows_functionCall {name : String} (hConstruct : node.construct = .functionCall name)
    (hReflects : Reflects c p scope) :
    Follows globals ((Tree.mk id node children).positions c)
      (operands globals scope children (p.useAt scope id name))
      (Reads c scope p ((Tree.mk id node children).positions c)
        (c.after (.mk id node children))) := by
  have hPlain : isReserved name = false :=
    hProper.names_plain name (by simp [hConstruct, Construct.names])
  apply follows_head hProper hChildren
  · rw [hConstruct]
    rfl
  · rw [hConstruct]
    rfl
  · simp [hConstruct]
  · simp [Position.fault?, hConstruct, Construct.bindings]
  · apply reads_singleton
    have hUsed := hReflects.advances_useAt hPlain id
    simpa [Position.record?, Position.slot?, Position.binding?, Position.capture?, Position.use?,
      Position.layout?, Construct.isFunction, hConstruct, Function.comp_def, Context.capture?]
      using hUsed

omit hChildren in
/-- A constant changes nothing. -/
theorem follows_constant {literal : Literal} (hConstruct : node.construct = .constant literal)
    (hReflects : Reflects c p scope) :
    Follows globals ((Tree.mk id node children).positions c) (.ok p)
      (Reads c scope p ((Tree.mk id node children).positions c)
        (c.after (.mk id node children))) := by
  obtain rfl := hProper.eq_nil_of_leaf (by rw [hConstruct]; rfl) (by rw [hConstruct]; rfl)
    (by rw [hConstruct]; simp)
  have hExpression : (Tree.mk id node []).construct.isExpression = true := by
    show node.construct.isExpression = true
    rw [hConstruct]
    rfl
  rw [Tree.positions_leaf, Tree.after_of_isExpression hProper hExpression]
  refine follows_ok (by simp [Position.fault?, hConstruct, Construct.bindings]) ?_
  apply hReflects.reads_silent
  · simp [Position.binding?, hConstruct]
  · simp [Position.use?, hConstruct]
  · simp [Position.layout?, hConstruct, Construct.isFunction]

omit hChildren in
/-- A reference uses a name that is declared, or is to something global. -/
theorem follows_reference {name : String} (hConstruct : node.construct = .reference name)
    (hReflects : Reflects c p scope) :
    Follows globals ((Tree.mk id node children).positions c)
      (p.refer globals scope id name node.span)
      (Reads c scope p ((Tree.mk id node children).positions c)
        (c.after (.mk id node children))) := by
  have hPlain : isReserved name = false :=
    hProper.names_plain name (by simp [hConstruct, Construct.names])
  obtain rfl := hProper.eq_nil_of_leaf (by rw [hConstruct]; rfl) (by rw [hConstruct]; rfl)
    (by rw [hConstruct]; simp)
  have hExpression : (Tree.mk id node []).construct.isExpression = true := by
    show node.construct.isExpression = true
    rw [hConstruct]
    rfl
  rw [Tree.positions_leaf, Tree.after_of_isExpression hProper hExpression]
  have hUsed := hReflects.advances_useAt hPlain id
  unfold Progress.useAt at hUsed
  unfold Progress.refer
  cases hLookup : c.lookup? name with
  | some d =>
      obtain ⟨r, hUse, -⟩ := hReflects.exists_use hLookup
      rw [hUse] at hUsed ⊢
      refine follows_ok (by simp [Position.fault?, hConstruct, hLookup]) (reads_singleton ?_)
      simpa [Position.record?, Position.slot?, Position.binding?, Position.capture?, Position.use?,
        Position.layout?, Construct.isFunction, hConstruct, hLookup, Context.capture?] using hUsed
  | none =>
      rw [hReflects.use_eq_none hPlain hLookup]
      -- a name that is not declared may be global, and then it has no slot
      by_cases hGlobal : globals.contains name = true
      · simp only [hGlobal, if_true]
        refine follows_ok ?_ (reads_singleton ?_)
        · simp only [List.mem_singleton, forall_eq, Position.fault?, Position.construct_mk,
            hConstruct, hLookup, hGlobal, Option.isSome_none, Bool.false_or, if_true]
        · simpa [Position.record?, Position.slot?, Position.binding?, Position.capture?,
            Position.use?, Position.layout?, Construct.isFunction, hConstruct, hLookup]
            using hReflects.refl
      · simp only [hGlobal]
        apply follows_error
        simp only [Position.fault?, Position.construct_mk, hConstruct, hLookup, hGlobal,
          Option.isSome_none, Bool.false_or]
        rfl

/-- The value of a statement that binds or assigns is walked first, and declares nothing. -/
theorem follows_value
    (hKind : node.construct.bindsInBlock = true ∨ ∃ name, node.construct = .assignment name)
    (hReflects : Reflects c p scope) :
    Tree.declarationCountAll children = 0 ∧
      (Tree.mk id node children).positions c =
        Tree.positionsAll c children ++ [⟨c, .mk id node children⟩] ∧
      Follows globals (Tree.positionsAll c children) (operands globals scope children p)
        (Reads c scope p (Tree.positionsAll c children) c) := by
  have hZero := Tree.declarationCountAll_of_value hProper hKind
  have hExpressions : ∀ t ∈ children, t.construct.isExpression = true := fun t hMem =>
    Tree.isExpression_of_value hProper hKind hMem
  have hAfter : c.afterAll children = c := by
    rw [c.afterAll_eq fun t hMem =>
      Construct.bindsInBlock_eq_false_of_isExpression (hExpressions t hMem), hZero]
    rfl
  refine ⟨hZero, Tree.positions_of_last c id children hKind, ?_⟩
  have hFollows := follows_operands hChildren (fun t hMem => Or.inl (hExpressions t hMem)) hReflects
  rwa [hAfter] at hFollows

/-- A declaration declares its name after its value. -/
theorem follows_declaration {name : String} {mutability : Mutability}
    (hConstruct : node.construct = .declaration name mutability) (hReflects : Reflects c p scope) :
    Follows globals ((Tree.mk id node children).positions c)
      (statement globals scope (.mk id node children) p)
      (Reads c scope p ((Tree.mk id node children).positions c)
        (c.after (.mk id node children))) := by
  have hPlain : isReserved name = false :=
    hProper.names_plain name (by simp [hConstruct, Construct.names])
  obtain ⟨hZero, hPositions, hValue⟩ := follows_value hProper hChildren
    (Or.inl (by rw [hConstruct]; rfl)) hReflects
  have hAfter : c.after (.mk id node children) = c.declare id 0 (some name) mutability := by
    rw [c.after_mk_eq_extend (by rw [hConstruct]; rfl) hZero, hConstruct]
    rfl
  rw [hPositions, hAfter, statement]
  simp only [hConstruct]
  refine hValue.bind ?_
  intro q hRead
  by_cases hName : name = ""
  · subst hName
    rw [hRead.reflects.declare_empty]
    exact follows_error (by simp [Position.fault?, hConstruct, Construct.bindings])
  · obtain ⟨r, hDeclare, hAdvances⟩ :=
      hRead.reflects.exists_declareNamed hName hPlain mutability id 0
    rw [hDeclare]
    refine follows_ok (by simp [Position.fault?, hConstruct, Construct.bindings, hName]) ?_
    refine hRead.trans (reads_singleton ?_) rfl rfl
    have hBoth := hAdvances.trans (hAdvances.reflects.advances_recordSlot id q.frame.nextSlot)
    simpa [Position.record?, Position.slot?, Position.binding?, Position.capture?, Position.use?,
      Position.layout?, Construct.isFunction, hConstruct, Context.slot, hRead.reflects.next]
      using hBoth

/-- Taking a value apart declares the value under a fresh name, and then the names. -/
theorem follows_destructuring {names : List String} {mutability : Mutability}
    (hConstruct : node.construct = .destructuring names mutability)
    (hReflects : Reflects c p scope) :
    Follows globals ((Tree.mk id node children).positions c)
      (statement globals scope (.mk id node children) p)
      (Reads c scope p ((Tree.mk id node children).positions c)
        (c.after (.mk id node children))) := by
  have hPlain : ∀ name ∈ names, isReserved name = false := fun name hMem =>
    hProper.names_plain name (by simpa [hConstruct, Construct.names] using hMem)
  obtain ⟨hZero, hPositions, hValue⟩ := follows_value hProper hChildren
    (Or.inl (by rw [hConstruct]; rfl)) hReflects
  have hAfter : c.after (.mk id node children) = (c.declare id 0 none .constant).declareAll id 1
      (names.map fun name => (some name, mutability)) := by
    rw [c.after_mk_eq_extend (by rw [hConstruct]; rfl) hZero, hConstruct]
    rfl
  rw [hPositions, hAfter, statement]
  simp only [hConstruct]
  refine hValue.bind ?_
  intro q hRead
  obtain ⟨whole, hDeclare, hWhole⟩ :=
    hRead.reflects.exists_declareFresh "destruct" .constant id 0
  -- the node records the slot of the whole value, not those of its parts
  have hRecorded := hWhole.trans (hWhole.reflects.advances_recordSlot id q.frame.nextSlot)
  rw [hDeclare]
  by_cases hNames : "" ∈ names
  · have hError := hRecorded.reflects.declareAll_eq_error mutability hPlain hNames
    show Follows globals _ ((whole.recordSlot id q.frame.nextSlot).declareAll scope mutability names
      >>= _) _
    rw [hError]
    exact follows_error (by simp [Position.fault?, hConstruct, Construct.bindings, hNames])
  · obtain ⟨r, hParts, hAdvances⟩ :=
      hRecorded.reflects.exists_declareAll mutability hPlain hNames id 1
    show Follows globals _ ((whole.recordSlot id q.frame.nextSlot).declareAll scope mutability names
      >>= _) _
    rw [hParts]
    refine follows_ok (by simp [Position.fault?, hConstruct, Construct.bindings, hNames]) ?_
    refine hRead.trans (reads_singleton ?_) rfl rfl
    -- the parts get the slots after the whole
    have hBoth := hRecorded.trans hAdvances
    simpa [Position.record?, Position.slot?, Position.binding?, Position.capture?, Position.use?,
      Position.layout?, Construct.isFunction, hConstruct, Context.slot, hRead.reflects.next]
      using hBoth

/-- An assignment finds its name after its value. -/
theorem follows_assignment {name : String} (hConstruct : node.construct = .assignment name)
    (hReflects : Reflects c p scope) :
    Follows globals ((Tree.mk id node children).positions c)
      (statement globals scope (.mk id node children) p)
      (Reads c scope p ((Tree.mk id node children).positions c)
        (c.after (.mk id node children))) := by
  have hPlain : isReserved name = false :=
    hProper.names_plain name (by simp [hConstruct, Construct.names])
  obtain ⟨hZero, hPositions, hValue⟩ := follows_value hProper hChildren
    (Or.inr ⟨name, hConstruct⟩) hReflects
  have hAfter : c.after (.mk id node children) = c := by
    rw [c.after_mk_eq (by rw [hConstruct]; rfl) (by rw [hConstruct]; rfl), hZero, hConstruct]
    rfl
  rw [hPositions, hAfter, statement]
  simp only [hConstruct]
  refine hValue.bind ?_
  intro q hRead
  unfold Progress.assign
  cases hLookup : c.lookup? name with
  | none =>
      rw [hRead.reflects.lookup?_eq_none hPlain hLookup]
      exact follows_error (by simp [Position.fault?, hConstruct, hLookup, Position.span, Tree.node])
  | some d =>
      obtain ⟨b, hBinding, hShows⟩ := hRead.reflects.exists_lookup? hPlain hLookup
      have hIsSome := Scope.Store.isSome_owner? q.scopes scope name
      rw [hBinding] at hIsSome
      obtain ⟨owner, hOwner⟩ := Option.isSome_iff_exists.mp hIsSome
      have hOutside := hRead.reflects.owner name d hLookup
      have hDepth := hRead.reflects.nested d (Context.mem_declared_of_lookup? hLookup).1
      rw [hOwner] at hOutside
      simp only [hBinding, hOwner, Binding.isConstant, ← hShows.mutability, decide_eq_true_eq]
      -- a constant is refused first, whatever function it belongs to
      by_cases hConstant : d.mutability = .constant
      · rw [if_pos hConstant]
        exact follows_error (by
          simp [Position.fault?, hConstruct, hLookup, hConstant, Position.span, Tree.node])
      · rw [if_neg hConstant]
        by_cases hOwn : d.depth = c.depth
        · -- the function itself owns the name: the environment owns only what was declared outside
          have hEnvironment : q.frame.environment ≠ some owner := by
            intro hSame
            have := hOutside.mp hSame.symm
            omega
          rw [if_neg (by simp [hEnvironment])]
          refine follows_ok ?_ (hRead.trans (reads_singleton ?_) rfl rfl)
          · simp [Position.fault?, hConstruct, hLookup, hConstant, hOwn]
          · have hUsed := hRead.reflects.advances_useAt hPlain id
            have hCapture : c.capture? name = none := by
              simp [Context.capture?, hLookup, hOwn]
            rw [hCapture, hLookup] at hUsed
            simpa [Position.record?, Position.slot?, Position.binding?, Position.capture?,
              Position.use?, Position.layout?, Construct.isFunction, hConstruct, hLookup] using hUsed
        · have hEnvironment : q.frame.environment = some owner :=
            (hOutside.mpr (by omega)).symm
          rw [if_pos (by simp [hEnvironment])]
          exact follows_error (by
            simp [Position.fault?, hConstruct, hLookup, hConstant, hOwn, Position.span, Tree.node])

/-- A loop over items walks the items, and then binds in a scope of its own, where its block is
walked. -/
theorem follows_iteration {name : String} (hConstruct : node.construct = .iteration name)
    (hReflects : Reflects c p scope) :
    Follows globals ((Tree.mk id node children).positions c)
      (statement globals scope (.mk id node children) p)
      (Reads c scope p ((Tree.mk id node children).positions c)
        (c.after (.mk id node children))) := by
  have hPlain : isReserved name = false :=
    hProper.names_plain name (by simp [hConstruct, Construct.names])
  obtain ⟨items, body, rfl, hItems, hBody⟩ := hProper.exists_of_iteration hConstruct
  have hWalksItems := hChildren items (by simp)
  have hWalksBody := hChildren body (by simp)
  have hItemsAfter := Tree.after_of_isExpression (hProper.of_mem_children (by simp)) hItems c
  have hItemsCount := Tree.declarationCount_of_isExpression (hProper.of_mem_children (by simp)) hItems
  have hPositions : (Tree.mk id node [items, body]).positions c = items.positions c ++
      ([⟨c, .mk id node [items, body]⟩] ++ body.positions (c.extend id node.construct)) := by
    simp only [Tree.positions, hConstruct, Tree.iterationPositions, Tree.positionsAll,
      List.append_nil, List.singleton_append]
  have hAfter : c.after (.mk id node [items, body]) =
      { c with made := ((c.extend id node.construct).after body).made } := by
    rw [c.after_mk_eq (by rw [hConstruct]; rfl) (by rw [hConstruct]; rfl), Context.made_after,
      Context.made_extend, Tree.declarationCountAll, Tree.declarationCountAll,
      Tree.declarationCountAll, hItemsCount]
    simp [Nat.add_assoc]
  have hExtend : c.extend id node.construct =
      (c.declare id 0 none .constant).declare id 1 (some name) .mutable := by
    rw [hConstruct]
    rfl
  rw [hPositions, hAfter, hExtend, statement]
  simp only [hConstruct]
  rw [iteration]
  -- the items do not see what the loop binds
  refine (hWalksItems.expression hItems hReflects).bind ?_
  intro q hRead
  rw [hItemsAfter] at hRead
  obtain ⟨opened, hOpen, hOpens, hInner⟩ := hRead.reflects.exists_openScope id
  obtain ⟨iterator, hIterator, hFresh⟩ := hInner.exists_declareFresh "foreach" .constant id 0
  rw [hOpen]
  show Follows globals _ ((opened.mint "foreach").2.declare _ (opened.mint "foreach").1 _ >>= _) _
  rw [hIterator]
  show Follows globals _ (iterator.declare _ name .mutable >>= _) _
  by_cases hName : name = ""
  · subst hName
    rw [hFresh.reflects.declare_empty]
    exact follows_error (by simp [Position.fault?, hConstruct, Construct.bindings])
  · obtain ⟨r, hDeclare, hNamed⟩ :=
      hFresh.reflects.exists_declareNamed hName hPlain .mutable id 1
    have hRecorded := (hFresh.trans hNamed).trans
      (hNamed.reflects.advances_recordSlot id iterator.frame.nextSlot)
    have hHead : Reads c ⟨q.scopes.size⟩ opened [⟨c, .mk id node [items, body]⟩]
        ((c.declare id 0 none .constant).declare id 1 (some name) .mutable)
        (r.recordSlot id iterator.frame.nextSlot) := by
      apply reads_singleton
      simpa [Position.record?, Position.slot?, Position.binding?, Position.capture?, Position.use?,
        Position.layout?, Construct.isFunction, hConstruct, Context.slot, hFresh.reflects.next,
        Nat.add_assoc] using hRecorded
    rw [hDeclare]
    show Follows globals _ (iterationBody globals _ [body] _) _
    rw [iterationBody, List.singleton_append]
    refine Follows.cons (by simp [Position.fault?, hConstruct, Construct.bindings, hName]) ?_
    refine (hWalksBody.block hBody hHead.reflects).imp ?_
    intro last hBlock
    have hInside := hHead.trans hBlock (by simp) (by simp)
    exact hRead.trans (hRead.reflects.advances_of_opens hOpens hInside (by simp)) rfl rfl

/-- A function is walked in a frame of its own, and laid down after the functions inside it. -/
theorem follows_function {name : String} {params : List String} {isClosure : Bool}
    (hConstruct : node.construct = .function name params isClosure) (hReflects : Reflects c p scope)
    (hKind : isClosure = true ∨ c.declared = []) :
    Follows globals ((Tree.mk id node children).positions c)
      (function globals scope (.mk id node children) p) fun result =>
        result.1 = (Position.captures ⟨c, .mk id node children⟩).map Capture.name ∧
        Advances scope p (((Tree.mk id node children).positions c).filterMap Position.record?) []
          (((Tree.mk id node children).positions c).filterMap Position.layout?) c result.2 := by
  have hPlain : ∀ param ∈ params, isReserved param = false := fun param hMem =>
    hProper.names_plain param (Construct.mem_names_of_mem_params hConstruct hMem)
  obtain ⟨t, rfl, hBlock⟩ := hProper.exists_of_function hConstruct
  have hWalks := hChildren t List.mem_cons_self
  have hPositions : (Tree.mk id node [t]).positions c =
      ⟨c, .mk id node [t]⟩ :: Tree.positionsAll (c.enter.extend id node.construct) [t] := by
    simp only [Tree.positions, hConstruct]
  have hInside : (⟨c, .mk id node [t]⟩ : Position).inside =
      t.positions (c.enter.extend id node.construct) := by
    rw [Position.inside]
    show Tree.positionsAll (c.enter.extend id node.construct) [t] = _
    rw [Tree.positionsAll, Tree.positionsAll, List.append_nil]
  have hBody : Tree.positionsAll (c.enter.extend id node.construct) [t] =
      t.positions (c.enter.extend id node.construct) := hInside
  rw [hPositions, hBody, function]
  simp only [hConstruct]
  by_cases hParams : "" ∈ params
  · rw [hReflects.enterFunction_eq_error id name hKind hPlain hParams]
    exact follows_error (by simp [Position.fault?, hConstruct, Construct.bindings, hParams])
  · obtain ⟨entry, q, hEnter, hSlots, hEnters⟩ :=
      hReflects.exists_enterFunction id name hKind hPlain hParams
    rw [hEnter]
    refine Follows.cons (by simp [Position.fault?, hConstruct, Construct.bindings, hParams]) ?_
    show Follows globals _ (body globals entry.scope [t] q >>= _) _
    rw [body, if_pos hBlock, ← List.append_nil (t.positions _)]
    refine (hWalks.block hBlock hEnters.reflects).bind ?_
    intro r hRead
    refine follows_ok (by simp) ?_
    -- the frame began without captures, so all that it has come from the block
    have hCaptured : r.frame.captured = Position.captures ⟨c, .mk id node [t]⟩ := by
      have hAll := hRead.captured
      rw [hEnters.captured, List.nil_append, Context.depth_extend, Context.inherited_extend] at hAll
      rw [hAll, Position.captures, hInside, hConstruct]
    refine ⟨by rw [← hCaptured]; rfl, ?_⟩
    have hLeft := hReflects.advances_leaveFunction hEnters hRead id isClosure
    -- the layout with what the frame has counted at the end of the block
    have hLayout : (⟨c, .mk id node [t]⟩ : Position).layout? =
        some ⟨id, "", isClosure, entry.params,
          ((c.enter.extend id node.construct).after t).inherited.length +
            ((c.enter.extend id node.construct).after t).made,
          ((t.positions (c.enter.extend id node.construct)).filterMap
            (Position.capture? (c.enter.extend id node.construct).depth
              (c.enter.extend id node.construct).inherited)).eraseDups⟩ := by
      have hIsFunction : (Construct.function name params isClosure).isFunction = true := rfl
      rw [Position.layout?, Position.construct_mk, hConstruct, if_pos hIsFunction, Position.layout,
        Position.captures, hInside]
      simp [hConstruct, hSlots, Construct.bindings, Construct.isClosureFunction, Tree.children,
        Tree.declarationCountAll, Nat.add_assoc]
    have hRecord : (⟨c, .mk id node [t]⟩ : Position).record? = none := by
      simp [Position.record?, Position.slot?, Position.binding?, hConstruct]
    rw [List.append_nil, List.filterMap_cons_none hRecord, List.filterMap_cons_some hLayout,
      hConstruct]
    exact hLeft

end Nodes

/-! ### Closures -/

section Closures

variable {c : Context} {p : Progress} {scope : ScopeId} {t : Tree}

/-- What a closure has from outside was declared where the closure stands. -/
theorem exists_lookup?_of_mem_captures {k : Capture}
    (hMem : k ∈ (⟨c, t⟩ : Position).captures) :
    ∃ d, c.lookup? k.name = some d ∧ k.slot = c.position k.name := by
  rw [Position.captures, List.mem_eraseDups, List.mem_filterMap] at hMem
  obtain ⟨q, hInside, hCapture⟩ := hMem
  obtain ⟨name, -, hName⟩ := Option.bind_eq_some_iff.mp hCapture
  obtain ⟨d, hLookup, hDepth⟩ := Option.bind_eq_some_iff.mp hName
  split at hDepth
  · rename_i hOutside
    cases hDepth
    exact ⟨d, Tree.lookup?_of_mem_inside hInside hLookup hOutside, rfl⟩
  · cases hDepth

/-- What a closure has from outside, and what the function around it has from outside because of
that. -/
theorem eraseDups_append_captures (hFunction : t.construct.isFunction = true)
    (l : List Capture) :
    (l ++ ((⟨c, t⟩ : Position).captures.map Capture.name).filterMap c.capture?).eraseDups =
      (l ++ (t.positions c).filterMap (Position.capture? c.depth c.inherited)).eraseDups := by
  have hPositions : t.positions c = ⟨c, t⟩ :: (⟨c, t⟩ : Position).inside :=
    Tree.positions_of_isFunction ⟨c, t⟩ hFunction
  have hUse : (⟨c, t⟩ : Position).capture? c.depth c.inherited = none := by
    rw [Position.capture?, Position.use?_of_isFunction (q := ⟨c, t⟩) hFunction, Option.bind_none]
  have hEach : ∀ q ∈ (⟨c, t⟩ : Position).inside,
      (q.capture? c.enter.depth c.enter.inherited).bind (fun k => c.capture? k.name) =
        q.capture? c.depth c.inherited := by
    intro q hInside
    unfold Position.capture?
    cases hName : q.use? with
    | none => rfl
    | some name =>
        cases hLookup : q.context.lookup? name with
        | none => simp [hLookup]
        | some d =>
            simp only [Option.bind_some, hLookup]
            by_cases hDepth : d.depth < c.enter.depth
            · -- found where the closure stands: captured further out if it was declared there
              have hFound : c.lookup? name = some d :=
                Tree.lookup?_of_mem_inside hInside hLookup hDepth
              rw [if_pos hDepth]
              simp [Context.capture?, hFound]
            · have hOutside : ¬ d.depth < c.depth := fun h => hDepth (Nat.lt_succ_of_lt h)
              rw [if_neg hDepth, if_neg hOutside]
              rfl
  rw [hPositions, List.filterMap_cons_none hUse, Position.captures, List.filterMap_map,
    Occurrence.eraseDups_append_filterMap_eraseDups, List.filterMap_filterMap]
  congr 2
  exact List.filterMap_congr hEach

end Closures

/-! ### All trees -/

section Trees

variable {globals : List String} {id : NodeId} {node : Node} {children : List Tree} {c : Context}
  {p : Progress} {scope : ScopeId}

/-- A closure is walked through its function, and what that has from outside is used around it. -/
theorem follows_closure (hProper : (Tree.mk id node children).IsProper)
    (hChildren : ∀ t ∈ children, Walks globals t) (hConstruct : node.construct = .closure)
    (hReflects : Reflects c p scope) :
    Follows globals ((Tree.mk id node children).positions c) (closure globals scope children p)
      (Reads c scope p ((Tree.mk id node children).positions c)
        (c.after (.mk id node children))) := by
  obtain ⟨t, rfl, hClosure⟩ := hProper.exists_of_closure hConstruct
  have hFunction := Construct.isFunction_of_isClosureFunction hClosure
  have hWalks := hChildren t List.mem_cons_self
  have hPositions : (Tree.mk id node [t]).positions c =
      ⟨c, .mk id node [t]⟩ :: (t.positions c ++ []) := by
    simp only [Tree.positions, hConstruct, Tree.positionsAll]
  have hAfter : c.after (.mk id node [t]) = c := by
    apply Tree.after_of_isExpression hProper
    show node.construct.isExpression = true
    rw [hConstruct]
    rfl
  rw [hPositions, hAfter, closure]
  refine Follows.cons (by simp [Position.fault?, hConstruct, Construct.bindings]) ?_
  refine (hWalks.function hFunction hReflects (Or.inl hClosure)).bind ?_
  rintro ⟨captured, q⟩ ⟨hNames, hAdvances⟩
  refine follows_ok (by simp) ?_
  simp only at hNames hAdvances
  subst hNames
  -- what is captured was found where the closure stands, so it has a name of the program
  have hPlain : ∀ name ∈ (Position.captures ⟨c, t⟩).map Capture.name, isReserved name = false := by
    intro name hMem
    obtain ⟨k, hK, rfl⟩ := List.mem_map.mp hMem
    obtain ⟨d, hLookup, -⟩ := exists_lookup?_of_mem_captures hK
    exact hReflects.isReserved_of_lookup? hLookup
  have hUsed := hAdvances.trans (hAdvances.reflects.advances_useAll hPlain)
  rw [List.append_nil, List.append_nil, List.nil_append] at hUsed
  have hSilent : Reads c scope p [⟨c, .mk id node [t]⟩] c p := by
    apply hReflects.reads_silent
    · simp [Position.binding?, hConstruct]
    · simp [Position.use?, hConstruct]
    · simp [Position.layout?, hConstruct, Construct.isFunction]
  have hBelow : Reads c scope p (t.positions c ++ []) c
      (q.useAll scope ((Position.captures ⟨c, t⟩).map Capture.name)) := by
    rw [List.append_nil]
    refine { hUsed with captured := ?_ }
    rw [hUsed.captured, eraseDups_append_captures hFunction]
  exact hSilent.trans hBelow rfl rfl

/-- All proper trees are walked as their positions say. -/
theorem walks (globals : List String) {t : Tree} (hProper : t.IsProper) : Walks globals t := by
  induction t using Tree.induction_children with
  | mk id node children ih =>
      have hChildren : ∀ t ∈ children, Walks globals t :=
        fun t hMem => ih t hMem (hProper.of_mem_children hMem)
      refine ⟨?_, ?_, ?_, ?_⟩
      · intro hExpression c p scope hReflects
        change node.construct.isExpression = true at hExpression
        rw [expression]
        cases hConstruct : node.construct <;> simp [hConstruct, Construct.isExpression] at hExpression
        case constant literal => exact follows_constant hProper hConstruct hReflects
        case reference name => exact follows_reference hProper hConstruct hReflects
        case functionCall name =>
          exact follows_functionCall hProper hChildren hConstruct hReflects
        case closure => exact follows_closure hProper hChildren hConstruct hReflects
        all_goals
          apply follows_operation hProper hChildren
          all_goals first
            | exact hReflects.advances_recordCall _ _ _ _
            | simp [hConstruct, Construct.hasOperands, Construct.bindsInBlock]
      · intro hStatement c p scope hReflects
        change node.construct.isStatement = true at hStatement
        cases hConstruct : node.construct <;> simp [hConstruct, Construct.isStatement] at hStatement
        case block =>
          have hBlock := follows_block hProper hChildren hConstruct hReflects
          rw [block] at hBlock
          rw [statement]
          simpa only [hConstruct] using hBlock
        case declaration name mutability =>
          exact follows_declaration hProper hChildren hConstruct hReflects
        case destructuring names mutability =>
          exact follows_destructuring hProper hChildren hConstruct hReflects
        case assignment name => exact follows_assignment hProper hChildren hConstruct hReflects
        case iteration name => exact follows_iteration hProper hChildren hConstruct hReflects
        all_goals
          rw [statement]
          simp only [hConstruct]
          apply follows_operation hProper hChildren
          all_goals first
            | exact hReflects.refl
            | simp [hConstruct, Construct.hasOperands, Construct.bindsInBlock]
      · intro hBlock c p scope hReflects
        change node.construct.isBlock = true at hBlock
        cases hConstruct : node.construct <;> simp [hConstruct, Construct.isBlock] at hBlock
        exact follows_block hProper hChildren hConstruct hReflects
      · intro hFunction c p scope hReflects hKind
        change node.construct.isFunction = true at hFunction
        change node.construct.isClosureFunction = true ∨ _ at hKind
        cases hConstruct : node.construct <;> simp [hConstruct, Construct.isFunction] at hFunction
        rw [hConstruct] at hKind
        exact follows_function hProper hChildren hConstruct hReflects hKind

/-- The functions of a module are walked in order. -/
theorem follows_moduleFunctions {ts : List Tree} (hProper : ∀ t ∈ ts, t.IsProper)
    (hFunctions : ∀ t ∈ ts, t.construct.isFunction = true) (hDeclared : c.declared = [])
    (hReflects : Reflects c p scope) :
    Follows globals (Tree.positionsAll c ts) (moduleFunctions globals scope ts p)
      (Advances scope p ((Tree.positionsAll c ts).filterMap Position.record?) []
        ((Tree.positionsAll c ts).filterMap Position.layout?) (c.afterAll ts)) := by
  induction ts generalizing c p with
  | nil =>
      rw [moduleFunctions]
      exact follows_ok (by simp [Tree.positionsAll]) hReflects.refl
  | cons t rest ih =>
      have hFunction := hFunctions t List.mem_cons_self
      rw [moduleFunctions, if_pos hFunction, Tree.positionsAll, Context.afterAll_cons,
        Tree.after_of_isFunction hFunction]
      refine ((walks globals (hProper t List.mem_cons_self)).function hFunction hReflects
        (Or.inr hDeclared)).bind ?_
      rintro ⟨captured, q⟩ ⟨-, hAdvances⟩
      have hRest := ih (fun s hS => hProper s (List.mem_cons_of_mem t hS))
        (fun s hS => hFunctions s (List.mem_cons_of_mem t hS)) hDeclared hAdvances.reflects
      refine hRest.imp ?_
      intro r hNext
      rw [List.filterMap_append, List.filterMap_append]
      exact hAdvances.trans hNext

end Trees

end LateBinding.Resolution
