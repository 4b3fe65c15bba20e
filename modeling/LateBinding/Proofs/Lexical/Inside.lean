import Mathlib.Data.List.Perm.Basic
import LateBinding.Proofs.Lexical.Lookup

/-!
# The positions inside a tree

However the nodes of a construct are ordered, a node is read after some of its children and before
the others, and each child is read as a tree of its own.  From this it follows that every node of a
tree has one position, that the positions of a tree below form a part of the list in one order, and
that what every step into a tree keeps holds at all its positions.

* `positions_of_isFunction`, `positions_of_last`, `positions_of_first` - where a node stands.
* `Splits`, `positions_induction` - a node between its children, and induction along positions.
* `perm_subtrees` - the positions are the nodes of the tree.
* `sublist_positions` - the positions of what stands at a position.
* `Onward`, `rel_context` - what the contexts of positions keep of the first one;
  `lookup?_of_mem_inside` - what is found inside a function.
-/

namespace LateBinding.Tree

open Lexical

/-! ### A node and its children -/

/-- A function stands before everything inside it. -/
theorem positions_of_isFunction (q : Position) (hFunction : q.construct.isFunction = true) :
    q.tree.positions q.context = q :: q.inside := by
  obtain ⟨c, id, node, children⟩ := q
  rw [Position.construct_mk] at hFunction
  cases hConstruct : node.construct with
  | function name params isClosure => simp [positions, Position.inside, hConstruct, Tree.children]
  | _ => simp [hConstruct, Construct.isFunction] at hFunction

section Nodes

variable (c : Context) (id : NodeId) {node : Node} (children : List Tree)

/-- A statement that binds in its block or assigns stands after its value. -/
theorem positions_of_last
    (hKind : node.construct.bindsInBlock = true ∨ ∃ name, node.construct = .assignment name) :
    (mk id node children).positions c = positionsAll c children ++ [⟨c, mk id node children⟩] := by
  rcases hKind with hBinds | ⟨name, hConstruct⟩
  · cases hConstruct : node.construct <;> simp [hConstruct, Construct.bindsInBlock] at hBinds <;>
      simp only [positions, hConstruct]
  · simp only [positions, hConstruct]

/-- Every other node that is neither a function nor a loop over items stands before what is below
it. -/
theorem positions_of_first (hFunction : node.construct.isFunction = false)
    (hBinds : node.construct.bindsInBlock = false)
    (hAssignment : ∀ name, node.construct ≠ .assignment name)
    (hLoop : ∀ name, node.construct ≠ .iteration name) :
    (mk id node children).positions c = ⟨c, mk id node children⟩ :: positionsAll c children := by
  cases hConstruct : node.construct with
  | assignment name => exact absurd hConstruct (hAssignment name)
  | iteration name => exact absurd hConstruct (hLoop name)
  | function name params isClosure => simp [hConstruct, Construct.isFunction] at hFunction
  | declaration name mutability => simp [hConstruct, Construct.bindsInBlock] at hBinds
  | destructuring names mutability => simp [hConstruct, Construct.bindsInBlock] at hBinds
  | _ => simp only [positions, hConstruct]

end Nodes

/-- A node is read after the first of its children, in its own context, and before the rest, which
are read in the same context, inside the function that the node is, or with what the node binds. -/
structure Splits (c : Context) (id : NodeId) (node : Node) (first rest : List Tree)
    (next : Context) : Prop where
  positions : (mk id node (first ++ rest)).positions c =
    positionsAll c first ++ ⟨c, mk id node (first ++ rest)⟩ :: positionsAll next rest
  next : next = c ∨
    node.construct.isFunction = true ∧ first = [] ∧ next = c.enter.extend id node.construct ∨
    node.construct.isFunction = false ∧ next = c.extend id node.construct

/-- Every node splits its children. -/
theorem exists_splits (c : Context) (id : NodeId) (node : Node) (children : List Tree) :
    ∃ first rest next, children = first ++ rest ∧ Splits c id node first rest next := by
  by_cases hFunction : node.construct.isFunction = true
  · refine ⟨[], children, c.enter.extend id node.construct, rfl, ?_,
      Or.inr (Or.inl ⟨hFunction, rfl, rfl⟩)⟩
    cases hConstruct : node.construct <;> simp [hConstruct, Construct.isFunction] at hFunction
    simp only [positions, hConstruct, positionsAll, List.nil_append]
  by_cases hLoop : ∃ name, node.construct = .iteration name
  · obtain ⟨name, hConstruct⟩ := hLoop
    cases children with
    | nil =>
        refine ⟨[], [], c, rfl, ?_, Or.inl rfl⟩
        simp only [positions, hConstruct, iterationPositions, positionsAll, List.nil_append]
    | cons items rest =>
        -- the items are read first
        refine ⟨[items], rest, c.extend id node.construct, rfl, ?_,
          Or.inr (Or.inr ⟨by rw [hConstruct]; rfl, rfl⟩)⟩
        simp only [positions, hConstruct, iterationPositions, positionsAll, List.append_nil,
          List.singleton_append]
  by_cases hKind : node.construct.bindsInBlock = true ∨ ∃ name, node.construct = .assignment name
  · refine ⟨children, [], c, (List.append_nil children).symm, ?_, Or.inl rfl⟩
    rw [List.append_nil, positions_of_last c id children hKind, positionsAll]
  · refine ⟨[], children, c, rfl, ?_, Or.inl rfl⟩
    rw [not_or, Bool.not_eq_true] at hKind
    rw [Bool.not_eq_true] at hFunction
    rw [List.nil_append, positions_of_first c id children hFunction hKind.1
      (fun name hConstruct => hKind.2 ⟨name, hConstruct⟩)
      (fun name hConstruct => hLoop ⟨name, hConstruct⟩), positionsAll, List.nil_append]

/-- A node without children has one position. -/
theorem positions_leaf (c : Context) (id : NodeId) (node : Node) :
    (mk id node []).positions c = [⟨c, mk id node []⟩] := by
  obtain ⟨first, rest, next, hChildren, hSplits⟩ := exists_splits c id node []
  obtain ⟨rfl, rfl⟩ := List.append_eq_nil_iff.mp hChildren.symm
  exact hSplits.positions

/-- What holds of trees read one after the other, and of a node whenever it holds of the children
before and after it, holds of all trees. -/
theorem positions_induction {P : Context → Tree → Prop} {Q : Context → List Tree → Prop}
    (nil : ∀ c, Q c []) (cons : ∀ c t rest, P c t → Q (c.after t) rest → Q c (t :: rest))
    (node : ∀ c id node first rest next, Splits c id node first rest next → Q c first →
      Q next rest → P c (mk id node (first ++ rest))) :
    (∀ c t, P c t) ∧ ∀ c ts, Q c ts := by
  have hAll : ∀ ts, (∀ t ∈ ts, ∀ c, P c t) → ∀ c, Q c ts := by
    intro ts
    induction ts with
    | nil => exact fun _ => nil
    | cons t rest ih =>
        intro hTrees c
        exact cons c t rest (hTrees t List.mem_cons_self c)
          (ih (fun s hS => hTrees s (List.mem_cons_of_mem t hS)) (c.after t))
  have hTree : ∀ t c, P c t := by
    intro t
    induction t using induction_children with
    | mk id n children ih =>
        intro c
        obtain ⟨first, rest, next, rfl, hSplits⟩ := exists_splits c id n children
        exact node c id n first rest next hSplits
          (hAll first (fun t hT => ih t (List.mem_append_left rest hT)) c)
          (hAll rest (fun t hT => ih t (List.mem_append_right first hT)) next)
  exact ⟨fun c t => hTree t c, fun c ts => hAll ts (fun t _ => hTree t) c⟩

/-- A node stands at a position of its own. -/
theorem mem_positions_self (c : Context) (t : Tree) : ⟨c, t⟩ ∈ t.positions c := by
  obtain ⟨id, node, children⟩ := t
  obtain ⟨first, rest, next, rfl, hSplits⟩ := exists_splits c id node children
  rw [hSplits.positions]
  exact List.mem_append_right _ List.mem_cons_self

/-! ### Contexts -/

/-- A relation that every step into a tree and along it keeps. -/
structure Onward (R : Context → Context → Prop) : Prop where
  refl : ∀ c, R c c
  trans : ∀ {a b c}, R a b → R b c → R a c
  after : ∀ c t, R c (c.after t)
  extend : ∀ c id construct, R c (c.extend id construct)
  enter : ∀ c, R c c.enter

/-- Contexts stand further on with every step. -/
theorem onward_extends : Onward Context.Extends where
  refl := Context.Extends.refl
  trans := Context.Extends.trans
  after := Context.extends_after
  extend := Context.extends_extend
  enter := Context.extends_enter

/-- No step declares anything further in than it stands. -/
theorem onward_nested : Onward fun c further => c.Nested → further.Nested where
  refl := fun _ hNested => hNested
  trans := fun hFirst hSecond hNested => hSecond (hFirst hNested)
  after := fun _ t hNested => hNested.after t
  extend := fun _ id construct hNested => hNested.extend id construct
  enter := fun _ hNested => hNested.enter

/-- Only entering a function changes the names that are known from outside. -/
theorem onward_inherited : Onward fun c further =>
    c.depth ≤ further.depth ∧ (further.depth = c.depth → further.inherited = c.inherited) where
  refl := fun c => ⟨Nat.le_refl _, fun _ => rfl⟩
  trans := by
    rintro a b c ⟨hAB, hABSame⟩ ⟨hBC, hBCSame⟩
    refine ⟨Nat.le_trans hAB hBC, fun hDepth => ?_⟩
    rw [hBCSame (by omega), hABSame (by omega)]
  after := fun c t => ⟨by simp, by simp⟩
  extend := fun c id construct => ⟨by simp, by simp⟩
  enter := fun c => ⟨by simp, by simp⟩

section Contexts

variable {R : Context → Context → Prop} (hOnward : Onward R)

include hOnward

/-- What every step keeps holds at all positions. -/
theorem rel_context : (∀ (c : Context) (t : Tree), ∀ q ∈ t.positions c, R c q.context) ∧
    ∀ (c : Context) (ts : List Tree), ∀ q ∈ positionsAll c ts, R c q.context := by
  apply positions_induction (P := fun c t => ∀ q ∈ t.positions c, R c q.context)
    (Q := fun c ts => ∀ q ∈ positionsAll c ts, R c q.context)
  · intro c q hMem
    cases hMem
  · intro c t rest hTree hRest q hMem
    rcases List.mem_append.mp hMem with hMem | hMem
    · exact hTree q hMem
    · exact hOnward.trans (hOnward.after c t) (hRest q hMem)
  · intro c id node first rest next hSplits hFirst hRest q hMem
    -- into a function two steps are made: entering it and declaring its parameters
    have hStep : R c next := by
      rcases hSplits.next with rfl | ⟨-, -, rfl⟩ | ⟨-, rfl⟩
      · exact hOnward.refl next
      · exact hOnward.trans (hOnward.enter c) (hOnward.extend _ _ _)
      · exact hOnward.extend _ _ _
    rw [hSplits.positions, List.mem_append, List.mem_cons] at hMem
    rcases hMem with hMem | rfl | hMem
    · exact hFirst q hMem
    · exact hOnward.refl c
    · exact hOnward.trans hStep (hRest q hMem)

/-- What every step keeps holds at every position of a tree. -/
theorem rel_context_of_mem_positions {c : Context} {t : Tree} {q : Position}
    (hMem : q ∈ t.positions c) : R c q.context :=
  (rel_context hOnward).1 c t q hMem

/-- What every step keeps holds at every position of trees. -/
theorem rel_context_of_mem_positionsAll {c : Context} {ts : List Tree} {q : Position}
    (hMem : q ∈ positionsAll c ts) : R c q.context :=
  (rel_context hOnward).2 c ts q hMem

end Contexts

/-- Every position of trees stands further on than the trees. -/
theorem extends_of_mem_positionsAll {c : Context} {ts : List Tree} {q : Position}
    (hMem : q ∈ positionsAll c ts) : c.Extends q.context :=
  rel_context_of_mem_positionsAll onward_extends hMem

/-- What is found inside a function, but was declared outside it, was found where the function
stands. -/
theorem lookup?_of_mem_inside {F q : Position} (hInside : q ∈ F.inside) {name : String}
    {d : Declaration} (hLookup : q.context.lookup? name = some d)
    (hOutside : d.depth < F.context.enter.depth) : F.context.lookup? name = some d := by
  have hExtends := (F.context.enter.extends_extend F.id F.construct).trans
    (extends_of_mem_positionsAll hInside)
  exact Context.lookup?_of_extends hExtends hLookup hOutside

/-! ### Nodes -/

/-- The positions of trees are their nodes, each once. -/
theorem perm_positions :
    (∀ (c : Context) (t : Tree), ((t.positions c).map Position.tree).Perm t.subtrees) ∧
      ∀ (c : Context) (ts : List Tree),
        ((positionsAll c ts).map Position.tree).Perm (subtreesAll ts) := by
  apply positions_induction
    (P := fun c t => ((t.positions c).map Position.tree).Perm t.subtrees)
    (Q := fun c ts => ((positionsAll c ts).map Position.tree).Perm (subtreesAll ts))
  · exact fun c => List.Perm.refl _
  · intro c t rest hTree hRest
    rw [positionsAll, subtreesAll, List.map_append]
    exact hTree.append hRest
  · intro c id node first rest next hSplits hFirst hRest
    rw [hSplits.positions, subtrees, List.map_append, List.map_cons]
    refine List.perm_middle.trans (List.Perm.cons _ ?_)
    rw [subtreesAll_eq_flatMap, List.flatMap_append, ← subtreesAll_eq_flatMap,
      ← subtreesAll_eq_flatMap]
    exact hFirst.append hRest

theorem perm_subtrees (t : Tree) (c : Context) :
    ((t.positions c).map Position.tree).Perm t.subtrees :=
  perm_positions.1 c t

theorem perm_subtreesAll (ts : List Tree) (c : Context) :
    ((positionsAll c ts).map Position.tree).Perm (subtreesAll ts) :=
  perm_positions.2 c ts

/-- What stands at a position has its positions among those around it, in order. -/
theorem sublist_of_mem_positions :
    (∀ (c : Context) (t : Tree), ∀ q ∈ t.positions c,
      (q.tree.positions q.context).Sublist (t.positions c)) ∧
    ∀ (c : Context) (ts : List Tree), ∀ q ∈ positionsAll c ts,
      (q.tree.positions q.context).Sublist (positionsAll c ts) := by
  apply positions_induction
    (P := fun c t => ∀ q ∈ t.positions c,
      (q.tree.positions q.context).Sublist (t.positions c))
    (Q := fun c ts => ∀ q ∈ positionsAll c ts,
      (q.tree.positions q.context).Sublist (positionsAll c ts))
  · intro c q hMem
    cases hMem
  · intro c t rest hTree hRest q hMem
    rw [positionsAll] at hMem ⊢
    rcases List.mem_append.mp hMem with hMem | hMem
    · exact (hTree q hMem).trans (List.sublist_append_left _ _)
    · exact (hRest q hMem).trans (List.sublist_append_right _ _)
  · intro c id node first rest next hSplits hFirst hRest q hMem
    have hPositions := hSplits.positions
    rw [hPositions, List.mem_append, List.mem_cons] at hMem
    rcases hMem with hMem | rfl | hMem
    · rw [hPositions]
      exact (hFirst q hMem).trans (List.sublist_append_left _ _)
    · exact List.Sublist.refl _
    · rw [hPositions]
      exact (hRest q hMem).trans
        ((List.sublist_cons_self _ _).trans (List.sublist_append_right _ _))

theorem sublist_positions {t : Tree} {c : Context} {q : Position} (hMem : q ∈ t.positions c) :
    (q.tree.positions q.context).Sublist (t.positions c) :=
  sublist_of_mem_positions.1 c t q hMem

theorem sublist_positionsAll {ts : List Tree} {c : Context} {q : Position}
    (hMem : q ∈ positionsAll c ts) :
    (q.tree.positions q.context).Sublist (positionsAll c ts) :=
  sublist_of_mem_positions.2 c ts q hMem

end LateBinding.Tree
