import Mathlib.Data.List.Nodup
import LateBinding.Proofs.Lexical.Inside

/-!
# The declarations of a function

A function owns what it declares itself, not what functions inside it declare.  Its declarations are
numbered by their ranks without gaps, and are different by their nodes and places, so each of the
two says which declaration is meant.

* `Context.declarations`, `Position.makes`, `madeBy` - what a node, a position and a list of
  positions declare for the function around them.
* `Position.own`, `Position.declarations` - the positions and the declarations of a function.
* `Position.map_rank_declarations`, `Position.nodup_declarations` - the ranks of the declarations of
  a function, and their nodes and places.
* `Tree.mem_declared_or_madeBy` - what stands in the contexts of a function.
* `Position.of_lookup?`, `Position.of_binding?` - what is found at a position of a function, and
  what the position is about; `Position.slot?_lt` and `Position.slot_eq_iff` - the slots of its
  positions.
-/

namespace LateBinding

namespace Lexical

/-! ### Declarations of nodes -/

/-- The declarations that a node makes for its bindings, from a place on. -/
def Context.declarations (c : Context) (node : NodeId) :
    Nat → List (Option String × Mutability) → List Declaration
  | _, [] => []
  | place, (name, mutability) :: rest =>
      ⟨node, place, name, mutability, c.depth, c.made⟩ ::
        (c.declare node place name mutability).declarations node (place + 1) rest

section Declarations

variable (c : Context) (node : NodeId) (place : Nat) (bindings : List (Option String × Mutability))

/-- Declaring what a node binds adds these declarations. -/
theorem Context.declared_declareAll : (c.declareAll node place bindings).declared =
    c.declared ++ c.declarations node place bindings := by
  induction bindings generalizing c place with
  | nil => simp [declareAll, declarations]
  | cons b rest ih =>
      rw [declareAll, ih, declared_declare, List.append_assoc, List.singleton_append, declarations]

/-- The declarations of a node count on. -/
theorem Context.map_rank_declarations :
    (c.declarations node place bindings).map Declaration.rank =
      List.range' c.made bindings.length := by
  induction bindings generalizing c place with
  | nil => rfl
  | cons b rest ih =>
      rw [declarations, List.map_cons, ih, made_declare, List.length_cons, List.range'_succ]

/-- The declarations of a node have different places. -/
theorem Context.map_node_declarations :
    (c.declarations node place bindings).map (fun d => (d.node, d.place)) =
      (List.range' place bindings.length).map fun place => (node, place) := by
  induction bindings generalizing c place with
  | nil => rfl
  | cons b rest ih =>
      rw [declarations, List.map_cons, ih, List.length_cons, List.range'_succ, List.map_cons]

/-- The declarations of a node are different. -/
theorem Context.nodup_declarations :
    ((c.declarations node place bindings).map fun d => (d.node, d.place)).Nodup := by
  rw [map_node_declarations]
  exact List.Nodup.map (fun a b hSame => congrArg Prod.snd hSame) List.nodup_range'

/-- The declarations of a node are made by the node, for the function around it. -/
theorem Context.of_mem_declarations {d : Declaration}
    (hMem : d ∈ c.declarations node place bindings) : d.node = node ∧ d.depth = c.depth := by
  induction bindings generalizing c place with
  | nil => cases hMem
  | cons b rest ih =>
      rcases List.mem_cons.mp hMem with rfl | hMem
      · exact ⟨rfl, rfl⟩
      · exact ih (c.declare node place b.1 b.2) (place + 1) hMem

end Declarations

/-! ### Declarations of positions -/

/-- What a position declares for the function around it.  The parameters of a function belong to the
function itself. -/
def Position.makes (q : Position) : List Declaration :=
  if q.construct.isFunction then [] else q.context.declarations q.id 0 q.construct.bindings

/-- A position that is not a function declares what its node binds. -/
theorem Position.makes_eq (q : Position) (hFunction : q.construct.isFunction = false) :
    q.makes = q.context.declarations q.id 0 q.construct.bindings := by
  rw [makes, hFunction, if_neg Bool.false_ne_true]

/-- The declarations of a position are made by its node, for the function around it. -/
theorem Position.of_mem_makes {q : Position} {d : Declaration} (hMem : d ∈ q.makes) :
    d.node = q.id ∧ d.depth = q.context.depth := by
  rw [makes] at hMem
  split at hMem
  · cases hMem
  · exact Context.of_mem_declarations _ _ _ _ hMem

/-- What positions declare for a function, given the number of functions around its contents. -/
def madeBy (depth : Nat) (qs : List Position) : List Declaration :=
  (qs.filter (·.context.depth = depth)).flatMap Position.makes

theorem madeBy_append (depth : Nat) (qs rest : List Position) :
    madeBy depth (qs ++ rest) = madeBy depth qs ++ madeBy depth rest := by
  rw [madeBy, List.filter_append, List.flatMap_append]
  rfl

/-- A position in the function itself comes with what it declares. -/
theorem madeBy_cons {depth : Nat} {q : Position} (hOwn : q.context.depth = depth)
    (rest : List Position) : madeBy depth (q :: rest) = q.makes ++ madeBy depth rest := by
  simp [madeBy, hOwn]

/-- A tree at its own position comes with what it declares. -/
theorem madeBy_mk (c : Context) (t : Tree) (rest : List Position) :
    madeBy c.depth (⟨c, t⟩ :: rest) = (⟨c, t⟩ : Position).makes ++ madeBy c.depth rest :=
  madeBy_cons rfl rest

/-- Positions of other functions declare nothing for a function. -/
theorem madeBy_eq_nil {depth : Nat} {qs : List Position}
    (hOther : ∀ q ∈ qs, q.context.depth ≠ depth) : madeBy depth qs = [] := by
  have hNone : qs.filter (·.context.depth = depth) = [] := by
    rw [List.filter_eq_nil_iff]
    intro q hMem
    simpa using hOther q hMem
  rw [madeBy, hNone]
  rfl

/-- What is declared is declared by a position. -/
theorem mem_madeBy {depth : Nat} {qs : List Position} {d : Declaration} :
    d ∈ madeBy depth qs ↔ ∃ q ∈ qs, q.context.depth = depth ∧ d ∈ q.makes := by
  simp [madeBy, and_assoc]

/-- Positions with different nodes make different declarations. -/
theorem nodup_map_node_madeBy {depth : Nat} {qs : List Position}
    (hDistinct : (qs.map Position.id).Nodup) :
    ((madeBy depth qs).map fun d => (d.node, d.place)).Nodup := by
  induction qs with
  | nil => exact List.nodup_nil
  | cons q rest ih =>
      rw [List.map_cons, List.nodup_cons] at hDistinct
      by_cases hOwn : q.context.depth = depth
      · rw [madeBy_cons hOwn, List.map_append]
        refine List.Nodup.append ?_ (ih hDistinct.2) ?_
        · rw [Position.makes]
          split
          · exact List.nodup_nil
          · exact Context.nodup_declarations _ _ _ _
        · -- other positions have other nodes
          intro pair hHead hRest
          obtain ⟨d, hD, rfl⟩ := List.mem_map.mp hHead
          obtain ⟨e, hE, hSame⟩ := List.mem_map.mp hRest
          obtain ⟨x, hX, -, hMakes⟩ := mem_madeBy.mp hE
          have hNode : x.id = q.id := by
            rw [← (Position.of_mem_makes hMakes).1, ← (Position.of_mem_makes hD).1]
            exact congrArg Prod.fst hSame
          exact hDistinct.1 (hNode ▸ List.mem_map_of_mem hX)
      · have hSkip : madeBy depth (q :: rest) = madeBy depth rest := by
          simp [madeBy, hOwn]
        rw [hSkip]
        exact ih hDistinct.2

end Lexical

namespace Tree

open Lexical

/-! ### Ranks -/

/-- The ranks of what trees declare one after the other count on. -/
theorem map_rank_madeBy_all {ts : List Tree}
    (hTrees : ∀ t ∈ ts, ∀ c : Context, (madeBy c.depth (t.positions c)).map Declaration.rank =
      List.range' c.made t.declarationCount) (c : Context) :
    (madeBy c.depth (positionsAll c ts)).map Declaration.rank =
      List.range' c.made (declarationCountAll ts) := by
  induction ts generalizing c with
  | nil => rfl
  | cons t rest ih =>
      have hRest := ih (fun s hS => hTrees s (List.mem_cons_of_mem t hS)) (c.after t)
      rw [Context.depth_after, Context.made_after] at hRest
      rw [positionsAll, madeBy_append, List.map_append, hTrees t List.mem_cons_self c, hRest,
        declarationCountAll, ← List.range'_append_1]

/-- A node makes its declarations for the function around it, counting on, unless it is a
function. -/
theorem map_rank_makes (c : Context) (id : NodeId) (node : Node) (children : List Tree)
    (hFunction : node.construct.isFunction = false) :
    (⟨c, mk id node children⟩ : Position).makes.map Declaration.rank =
      List.range' c.made node.construct.bindings.length := by
  rw [Position.makes_eq ⟨c, mk id node children⟩ hFunction]
  exact c.map_rank_declarations id 0 _

section Nodes

variable {c : Context} {id : NodeId} {node : Node} {children : List Tree}

/-- A function makes no declarations for the function around it. -/
theorem map_rank_madeBy_of_isFunction (hFunction : node.construct.isFunction = true) :
    (madeBy c.depth ((mk id node children).positions c)).map Declaration.rank =
      List.range' c.made (mk id node children).declarationCount := by
  have hPositions : (mk id node children).positions c = ⟨c, mk id node children⟩ ::
      positionsAll (c.enter.extend id node.construct) children :=
    positions_of_isFunction ⟨c, mk id node children⟩ hFunction
  have hMakes : (⟨c, mk id node children⟩ : Position).makes = [] := if_pos hFunction
  have hNone : (mk id node children).declarationCount = 0 :=
    declarationCount_of_isFunction hFunction
  rw [hPositions, madeBy_mk, hMakes, madeBy_eq_nil, hNone]
  · rfl
  · -- what is declared inside the function is declared further in
    intro q hMem
    have hDepth := (extends_of_mem_positionsAll hMem).depth_le
    rw [Context.depth_extend, Context.depth_enter] at hDepth
    omega

variable (hProper : (mk id node children).IsProper)
  (hBelow : ∀ t ∈ children, ∀ c : Context, (madeBy c.depth (t.positions c)).map Declaration.rank =
    List.range' c.made t.declarationCount)

include hProper hBelow

/-- A statement that binds in its block declares after its value, which declares nothing. -/
theorem map_rank_madeBy_of_bindsInBlock (hBinds : node.construct.bindsInBlock = true) :
    (madeBy c.depth ((mk id node children).positions c)).map Declaration.rank =
      List.range' c.made (mk id node children).declarationCount := by
  have hFunction := Construct.isFunction_eq_false_of_bindsInBlock hBinds
  have hZero := declarationCountAll_of_value hProper (Or.inl hBinds)
  have hAll := map_rank_madeBy_all hBelow c
  rw [hZero] at hAll
  rw [positions_of_last c id children (Or.inl hBinds), madeBy_append, List.map_append, hAll,
    madeBy_mk, List.map_append, map_rank_makes c id node children hFunction,
    Context.declarationCount_mk hFunction, hZero]
  simp [madeBy]

/-- A loop over items declares after its items, which declare nothing, and before its block. -/
theorem map_rank_madeBy_of_iteration {name : String}
    (hConstruct : node.construct = .iteration name) :
    (madeBy c.depth ((mk id node children).positions c)).map Declaration.rank =
      List.range' c.made (mk id node children).declarationCount := by
  have hFunction : node.construct.isFunction = false := by
    rw [hConstruct]
    rfl
  obtain ⟨items, body, rfl, hItems, -⟩ := hProper.exists_of_iteration hConstruct
  have hZero := declarationCount_of_isExpression (hProper.of_mem_children (by simp)) hItems
  have hItemsRanks := hBelow items (by simp) c
  have hBodyRanks := hBelow body (by simp) (c.extend id node.construct)
  rw [hZero] at hItemsRanks
  rw [Context.depth_extend, Context.made_extend] at hBodyRanks
  have hPositions : (mk id node [items, body]).positions c = items.positions c ++
      ⟨c, mk id node [items, body]⟩ :: body.positions (c.extend id node.construct) := by
    simp only [positions, hConstruct, iterationPositions, positionsAll, List.append_nil]
  rw [hPositions, madeBy_append, List.map_append, hItemsRanks, madeBy_mk, List.map_append,
    map_rank_makes c id node _ hFunction, hBodyRanks, Context.declarationCount_mk hFunction]
  simp [declarationCountAll, hZero, List.range'_append_1]

omit hProper in
/-- Every other node declares what is declared below it. -/
theorem map_rank_madeBy_of_silent (hFunction : node.construct.isFunction = false)
    (hBinds : node.construct.bindsInBlock = false)
    (hLoop : ∀ name, node.construct ≠ .iteration name) :
    (madeBy c.depth ((mk id node children).positions c)).map Declaration.rank =
      List.range' c.made (mk id node children).declarationCount := by
  have hBindings := Construct.bindings_eq_nil hFunction hBinds hLoop
  have hMakes := map_rank_makes c id node children hFunction
  rw [hBindings, List.length_nil, List.range'_zero, List.map_eq_nil_iff] at hMakes
  have hSame : madeBy c.depth ((mk id node children).positions c) =
      madeBy c.depth (positionsAll c children) := by
    by_cases hAssignment : ∃ name, node.construct = .assignment name
    · rw [positions_of_last c id children (Or.inr hAssignment), madeBy_append, madeBy_mk, hMakes]
      simp [madeBy]
    · rw [positions_of_first c id children hFunction hBinds
        (fun name hConstruct => hAssignment ⟨name, hConstruct⟩) hLoop, madeBy_mk, hMakes,
        List.nil_append]
  rw [hSame, map_rank_madeBy_all hBelow c, Context.declarationCount_mk hFunction, hBindings,
    List.length_nil, Nat.zero_add]

end Nodes

/-- The declarations that a tree makes for the function around it count on from those before. -/
theorem map_rank_madeBy {t : Tree} (hProper : t.IsProper) (c : Context) :
    (madeBy c.depth (t.positions c)).map Declaration.rank =
      List.range' c.made t.declarationCount := by
  induction t using induction_children generalizing c with
  | mk id node children ih =>
      have hBelow : ∀ t ∈ children, ∀ c : Context,
          (madeBy c.depth (t.positions c)).map Declaration.rank =
            List.range' c.made t.declarationCount :=
        fun t hMem => ih t hMem (hProper.of_mem_children hMem)
      by_cases hFunction : node.construct.isFunction = true
      · exact map_rank_madeBy_of_isFunction hFunction
      by_cases hBinds : node.construct.bindsInBlock = true
      · exact map_rank_madeBy_of_bindsInBlock hProper hBelow hBinds
      by_cases hLoop : ∃ name, node.construct = .iteration name
      · obtain ⟨name, hConstruct⟩ := hLoop
        exact map_rank_madeBy_of_iteration hProper hBelow hConstruct
      · rw [Bool.not_eq_true] at hFunction hBinds
        exact map_rank_madeBy_of_silent hBelow hFunction hBinds
          fun name hConstruct => hLoop ⟨name, hConstruct⟩

/-! ### Declarations in contexts -/

/-- What is declared after a tree was declared before it or at it. -/
theorem mem_declared_after {c : Context} {t : Tree} {d : Declaration}
    (hMem : d ∈ (c.after t).declared) :
    d ∈ c.declared ∨ d ∈ madeBy c.depth (t.positions c) := by
  by_cases hBinds : t.construct.bindsInBlock = true
  · have hDeclared : (c.after t).declared = (c.extend t.id t.construct).declared := by
      rw [Context.after, if_pos hBinds]
    rw [hDeclared, Context.extend, Context.declared_declareAll, List.mem_append] at hMem
    refine hMem.imp_right fun hNew => mem_madeBy.mpr ⟨⟨c, t⟩, ?_, rfl, ?_⟩
    · exact mem_positions_self c t
    · rw [Position.makes_eq ⟨c, t⟩ (Construct.isFunction_eq_false_of_bindsInBlock hBinds)]
      exact hNew
  · rw [Bool.not_eq_true] at hBinds
    rw [c.after_eq t hBinds] at hMem
    exact Or.inl hMem

/-- What stands in the contexts of a function was declared before the trees or is declared in
them. -/
theorem mem_declared_or_madeBy :
    (∀ (c : Context) (t : Tree), ∀ q ∈ t.positions c, q.context.depth = c.depth →
      ∀ d ∈ q.context.declared, d ∈ c.declared ∨ d ∈ madeBy c.depth (t.positions c)) ∧
    ∀ (c : Context) (ts : List Tree), ∀ q ∈ positionsAll c ts, q.context.depth = c.depth →
      ∀ d ∈ q.context.declared, d ∈ c.declared ∨ d ∈ madeBy c.depth (positionsAll c ts) := by
  apply positions_induction
    (P := fun c t => ∀ q ∈ t.positions c, q.context.depth = c.depth →
      ∀ d ∈ q.context.declared, d ∈ c.declared ∨ d ∈ madeBy c.depth (t.positions c))
    (Q := fun c ts => ∀ q ∈ positionsAll c ts, q.context.depth = c.depth →
      ∀ d ∈ q.context.declared, d ∈ c.declared ∨ d ∈ madeBy c.depth (positionsAll c ts))
  · intro c q hMem
    cases hMem
  · intro c t rest hTree hRest q hMem hDepth d hD
    rw [positionsAll] at hMem ⊢
    rw [madeBy_append, List.mem_append]
    rcases List.mem_append.mp hMem with hMem | hMem
    · exact (hTree q hMem hDepth d hD).imp_right Or.inl
    · have hLater := hRest q hMem (hDepth.trans (c.depth_after t).symm) d hD
      rw [Context.depth_after] at hLater
      rcases hLater with hAfter | hMade
      · exact (mem_declared_after hAfter).imp_right Or.inl
      · exact Or.inr (Or.inr hMade)
  · intro c id node first rest next hSplits hFirst hRest q hMem hDepth d hD
    rw [hSplits.positions, madeBy_append, madeBy_mk, List.mem_append, List.mem_append]
    rw [hSplits.positions, List.mem_append, List.mem_cons] at hMem
    rcases hMem with hMem | rfl | hMem
    · exact (hFirst q hMem hDepth d hD).imp_right Or.inl
    · exact Or.inl hD
    · rcases hSplits.next with rfl | ⟨-, -, rfl⟩ | ⟨hFunction, rfl⟩
      · exact (hRest q hMem hDepth d hD).imp_right fun hMade => Or.inr (Or.inr hMade)
      · -- inside another function
        have hFurther := (extends_of_mem_positionsAll hMem).depth_le
        rw [Context.depth_extend, Context.depth_enter] at hFurther
        omega
      · have hBelow := hRest q hMem (hDepth.trans (c.depth_extend _ _).symm) d hD
        rw [Context.depth_extend, Context.extend, Context.declared_declareAll,
          List.mem_append] at hBelow
        rcases hBelow with (hBefore | hHere) | hMade
        · exact Or.inl hBefore
        · refine Or.inr (Or.inr (Or.inl ?_))
          rw [Position.makes_eq ⟨c, mk id node (first ++ rest)⟩ hFunction]
          exact hHere
        · exact Or.inr (Or.inr (Or.inr hMade))

end Tree

namespace Lexical.Position

/-! ### The function around a position -/

/-- The positions of a function that are not in a function inside it. -/
def own (F : Position) : List Position :=
  F.inside.filter (·.context.depth = F.context.enter.depth)

/-- The declarations of a function: its parameters, and what its own positions declare. -/
def declarations (F : Position) : List Declaration :=
  F.context.enter.declarations F.id 0 F.construct.bindings ++
    madeBy F.context.enter.depth F.inside

/-- The names that a function has from outside are known wherever the function itself is read. -/
theorem inherited_of_mem_own {F q : Position} (hOwn : q ∈ F.own) :
    q.context.inherited = F.context.visible.map Declaration.name := by
  obtain ⟨hInside, hDepth⟩ := List.mem_filter.mp hOwn
  obtain ⟨-, hSame⟩ := Tree.rel_context_of_mem_positionsAll Tree.onward_inherited hInside
  rw [Context.depth_extend, Context.inherited_extend, Context.inherited_enter] at hSame
  exact hSame (of_decide_eq_true hDepth)

/-- What a position is about, it declares itself or finds under a name. -/
theorem mem_makes_or_lookup? {q : Position} {d : Declaration} (hBinding : q.binding? = some d) :
    d ∈ q.makes ∨ ∃ name, q.context.lookup? name = some d := by
  cases hConstruct : q.construct <;>
    simp only [binding?, hConstruct, reduceCtorEq, Option.some.injEq] at hBinding
  case reference | functionCall | assignment => exact Or.inr ⟨_, hBinding⟩
  all_goals
    subst hBinding
    left
    rw [makes_eq q (by rw [hConstruct]; rfl), hConstruct]
    simp [Construct.bindings, Context.declarations, Context.declare]

/-- The declarations of a function count from nothing on. -/
theorem map_rank_declarations {F : Position} (hProper : F.tree.IsProper) :
    F.declarations.map Declaration.rank =
      List.range (F.construct.bindings.length + Tree.declarationCountAll F.tree.children) := by
  obtain ⟨c, ⟨id, node, children⟩⟩ := F
  have hAll := Tree.map_rank_madeBy_all
    (fun t hMem => Tree.map_rank_madeBy (hProper.of_mem_children hMem))
    (c.enter.extend id node.construct)
  rw [Context.depth_extend, Context.made_extend, Context.made_enter] at hAll
  have hParams := c.enter.map_rank_declarations id 0 node.construct.bindings
  rw [Context.made_enter] at hParams
  rw [List.range_eq_range', ← List.range'_append_1]
  exact (List.map_append ..).trans (congrArg₂ _ hParams hAll)

/-- The declarations of a function are different by their nodes and places. -/
theorem nodup_declarations {F : Position} (hFunction : F.construct.isFunction = true)
    (hDistinct : ((F.tree.positions F.context).map Position.id).Nodup) :
    (F.declarations.map fun d => (d.node, d.place)).Nodup := by
  rw [Tree.positions_of_isFunction F hFunction, List.map_cons, List.nodup_cons] at hDistinct
  rw [declarations, List.map_append]
  refine List.Nodup.append (Context.nodup_declarations _ _ _ _)
    (nodup_map_node_madeBy hDistinct.2) ?_
  -- the parameters have the node of the function, the others nodes inside it
  intro pair hParam hMade
  obtain ⟨d, hD, rfl⟩ := List.mem_map.mp hParam
  obtain ⟨e, hE, hSame⟩ := List.mem_map.mp hMade
  obtain ⟨x, hX, -, hMakes⟩ := mem_madeBy.mp hE
  have hNode : x.id = F.id := by
    rw [← (of_mem_makes hMakes).1, ← (Context.of_mem_declarations _ _ _ _ hD).1]
    exact congrArg Prod.fst hSame
  exact hDistinct.1 (hNode ▸ List.mem_map_of_mem hX)

/-- What is found at a position of a function is a declaration of the function, or was found where
the function stands. -/
theorem of_lookup? {F q : Position} (hNested : F.context.Nested) (hOwn : q ∈ F.own) {name : String}
    {d : Declaration} (hLookup : q.context.lookup? name = some d) :
    d.depth = q.context.depth ∧ d ∈ F.declarations ∨
      d.depth ≠ q.context.depth ∧ F.context.lookup? name = some d := by
  obtain ⟨hInside, hDecide⟩ := List.mem_filter.mp hOwn
  have hDepth : q.context.depth = F.context.enter.depth := of_decide_eq_true hDecide
  by_cases hHere : d.depth = q.context.depth
  · refine Or.inl ⟨hHere, ?_⟩
    have hDeclared := Tree.mem_declared_or_madeBy.2 _ _ q hInside
      (hDepth.trans (Context.depth_extend _ _ _).symm) d
      (Context.mem_declared_of_lookup? hLookup).1
    rw [Context.depth_extend, Context.extend, Context.declared_declareAll, List.mem_append,
      or_assoc] at hDeclared
    rcases hDeclared with hOutside | hMem
    · -- what was declared outside the function is not of the function
      have hBefore := hNested d hOutside
      rw [Context.depth_enter] at hDepth
      omega
    · exact List.mem_append.mpr hMem
  · have hNestedQ := Tree.rel_context_of_mem_positionsAll Tree.onward_nested hInside
      (hNested.enter.extend F.id F.construct)
    have hFurther := hNestedQ d (Context.mem_declared_of_lookup? hLookup).1
    exact Or.inr ⟨hHere, Tree.lookup?_of_mem_inside hInside hLookup (by omega)⟩

/-- A position of a function is about a declaration of the function, or about one that is known
under its name from outside. -/
theorem of_binding? {F q : Position} (hNested : F.context.Nested) (hOwn : q ∈ F.own)
    {d : Declaration} (hBinding : q.binding? = some d) :
    d.depth = q.context.depth ∧ d ∈ F.declarations ∨
      d.depth ≠ q.context.depth ∧ d.name ∈ F.context.visible.map Declaration.name := by
  rcases mem_makes_or_lookup? hBinding with hMakes | ⟨name, hLookup⟩
  · obtain ⟨hInside, hDecide⟩ := List.mem_filter.mp hOwn
    refine Or.inl ⟨(of_mem_makes hMakes).2, List.mem_append_right _ ?_⟩
    exact mem_madeBy.mpr ⟨q, hInside, of_decide_eq_true hDecide, hMakes⟩
  · refine (of_lookup? hNested hOwn hLookup).imp_right fun ⟨hDepth, hBefore⟩ => ⟨hDepth, ?_⟩
    exact List.mem_map_of_mem (Context.mem_visible_of_lookup? hBefore)

/-! ### Slots -/

section Slots

variable {F q : Position} (hNested : F.context.Nested) (hOwn : q ∈ F.own)

include hNested hOwn

/-- The slot of a position of a function: that of a name from outside, or after those the rank of a
declaration of the function. -/
theorem slot_of_binding? {d : Declaration} (hBinding : q.binding? = some d) :
    (q.context.denote d = .own d.node d.place ∧ d ∈ F.declarations ∧
        q.context.slot d = F.context.visible.length + d.rank) ∨
      (q.context.denote d = .inherited d.name ∧ d.name ∈ F.context.visible.map Declaration.name ∧
        q.context.slot d = (F.context.visible.map Declaration.name).idxOf d.name) := by
  rcases of_binding? hNested hOwn hBinding with ⟨hDepth, hMem⟩ | ⟨hDepth, hMem⟩
  · left
    rw [Context.denote, Context.slot, if_pos hDepth, if_pos hDepth, inherited_of_mem_own hOwn,
      List.length_map]
    exact ⟨rfl, hMem, rfl⟩
  · right
    rw [Context.denote, Context.slot, if_neg hDepth, if_neg hDepth, inherited_of_mem_own hOwn]
    exact ⟨rfl, hMem, rfl⟩

/-- The slots of a function are below the size of its storage. -/
theorem slot?_lt (hProper : F.tree.IsProper) {slot : Nat} (hSlot : q.slot? = some slot)
    (name : String) : slot < (F.layout name).slotCount := by
  obtain ⟨d, hBinding, rfl⟩ := Option.map_eq_some_iff.mp hSlot
  show _ < F.context.visible.length + F.construct.bindings.length +
    Tree.declarationCountAll F.tree.children
  rcases slot_of_binding? hNested hOwn hBinding with ⟨-, hMem, hSlot⟩ | ⟨-, hMem, hSlot⟩
  · have hRank := List.mem_map_of_mem (f := Declaration.rank) hMem
    rw [map_rank_declarations hProper, List.mem_range] at hRank
    rw [hSlot]
    omega
  · have hIndex := List.idxOf_lt_length_of_mem hMem
    rw [List.length_map] at hIndex
    rw [hSlot]
    omega

/-- Two positions of a function have the same slot exactly if they stand for the same thing. -/
theorem slot_eq_iff {x : Position} (hX : x ∈ F.own) (hProper : F.tree.IsProper)
    (hFunction : F.construct.isFunction = true)
    (hDistinct : ((F.tree.positions F.context).map Position.id).Nodup) {d e : Declaration}
    (hD : q.binding? = some d) (hE : x.binding? = some e) :
    q.context.slot d = x.context.slot e ↔ q.context.denote d = x.context.denote e := by
  have hCasesD := slot_of_binding? hNested hOwn hD
  have hCasesE := slot_of_binding? hNested hX hE
  rcases hCasesD with ⟨hDenoteD, hMemD, hSlotD⟩ | ⟨hDenoteD, hMemD, hSlotD⟩ <;>
    rcases hCasesE with ⟨hDenoteE, hMemE, hSlotE⟩ | ⟨hDenoteE, hMemE, hSlotE⟩ <;>
    rw [hDenoteD, hDenoteE, hSlotD, hSlotE]
  · -- the ranks, and the nodes and places, say the same
    have hRanks : (F.declarations.map Declaration.rank).Nodup := by
      rw [map_rank_declarations hProper]
      exact List.nodup_range
    constructor
    · intro hSame
      rw [List.inj_on_of_nodup_map hRanks hMemD hMemE (by omega)]
    · intro hSame
      rw [Meaning.own.injEq] at hSame
      rw [List.inj_on_of_nodup_map (nodup_declarations hFunction hDistinct) hMemD hMemE
        (Prod.ext hSame.1 hSame.2)]
  · have hIndex := List.idxOf_lt_length_of_mem hMemE
    rw [List.length_map] at hIndex
    simp only [reduceCtorEq, iff_false]
    omega
  · have hIndex := List.idxOf_lt_length_of_mem hMemD
    rw [List.length_map] at hIndex
    simp only [reduceCtorEq, iff_false]
    omega
  · rw [List.idxOf_inj hMemD, Meaning.inherited.injEq]

end Slots

end Lexical.Position

end LateBinding
