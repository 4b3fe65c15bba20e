import LateBinding.Proofs.Lexical.Inside

/-!
# Nodes do not matter

The rules of lexical scope look at the constructs of a program and at how they are nested.  Which
numbers the nodes have, where they were read and what the constants in it are plays no part: if the
nodes are numbered otherwise, every position is the old one with other numbers, and has the same
slot; and every function has the same storage.

* `Construct.kind` - a construct without the value of a constant.
* `Tree.relabel`, `Context.relabel`, `Position.relabel` - the same with other numbers of nodes, and
  with nothing but the numbers and kinds of nodes.
* `Tree.positions_relabel` - the positions of a relabelled tree.
* `Position.slot?_relabel`, `Position.layout_relabel` - slots and storages stay.
* `Tree.alike`, `Tree.exists_relabel_of_alike` - trees that are equal up to the numbers of their
  nodes.
-/

namespace LateBinding

namespace Construct

/-- The construct without the value of a constant. -/
def kind : Construct → Construct
  | constant _ => constant .null
  | other => other

section Kind

variable (construct : Construct)

@[simp] theorem isFunction_kind : construct.kind.isFunction = construct.isFunction := by
  cases construct <;> rfl

@[simp] theorem isClosureFunction_kind :
    construct.kind.isClosureFunction = construct.isClosureFunction := by
  cases construct <;> rfl

@[simp] theorem bindsInBlock_kind : construct.kind.bindsInBlock = construct.bindsInBlock := by
  cases construct <;> rfl

@[simp] theorem bindings_kind : construct.kind.bindings = construct.bindings := by
  cases construct <;> rfl

end Kind

end Construct

/-! ### Trees -/

namespace Tree

mutual

/-- The tree with other numbers of nodes, and otherwise with nothing but the kinds of its nodes. -/
def relabel (φ : NodeId → NodeId) : Tree → Tree
  | mk id node children =>
      mk (φ id) (Node.detached node.construct.kind .synthetic) (relabelAll φ children)

/-- Several trees with other numbers of nodes. -/
def relabelAll (φ : NodeId → NodeId) : List Tree → List Tree
  | [] => []
  | t :: rest => t.relabel φ :: relabelAll φ rest

end

variable (φ : NodeId → NodeId)

theorem relabelAll_eq_map (ts : List Tree) : relabelAll φ ts = ts.map (relabel φ) := by
  induction ts with
  | nil => rfl
  | cons t rest ih => rw [relabelAll, ih, List.map_cons]

theorem relabel_mk (id : NodeId) (node : Node) (children : List Tree) :
    (mk id node children).relabel φ =
      mk (φ id) (Node.detached node.construct.kind .synthetic) (children.map (relabel φ)) := by
  rw [relabel, relabelAll_eq_map]

@[simp] theorem id_relabel (t : Tree) : (t.relabel φ).id = φ t.id := by
  obtain ⟨id, node, children⟩ := t
  rw [relabel_mk]
  rfl

@[simp] theorem construct_relabel (t : Tree) : (t.relabel φ).construct = t.construct.kind := by
  obtain ⟨id, node, children⟩ := t
  rw [relabel_mk]
  rfl

@[simp] theorem children_relabel (t : Tree) :
    (t.relabel φ).children = t.children.map (relabel φ) := by
  obtain ⟨id, node, children⟩ := t
  rw [relabel_mk]
  rfl

/-- The trees inside a relabelled tree are those inside the tree, relabelled. -/
theorem subtrees_relabel (t : Tree) : (t.relabel φ).subtrees = t.subtrees.map (relabel φ) := by
  induction t using induction_children with
  | mk id node children ih =>
      have hAll : subtreesAll (children.map (relabel φ)) =
          (subtreesAll children).map (relabel φ) := by
        rw [subtreesAll_eq_flatMap, subtreesAll_eq_flatMap, List.map_flatMap, List.flatMap_map]
        exact List.flatMap_congr ih
      rw [subtrees, List.map_cons, ← hAll, relabel_mk, subtrees]

/-- Relabelling changes no numbers of declarations. -/
theorem declarationCount_relabel (t : Tree) :
    (t.relabel φ).declarationCount = t.declarationCount := by
  induction t using induction_children with
  | mk id node children ih =>
      have hAll : declarationCountAll (children.map (relabel φ)) = declarationCountAll children := by
        induction children with
        | nil => rfl
        | cons t rest ihRest =>
            rw [List.map_cons, declarationCountAll, declarationCountAll, ih t List.mem_cons_self,
              ihRest fun s hS => ih s (List.mem_cons_of_mem t hS)]
      rw [relabel_mk]
      cases hConstruct : node.construct <;>
        simp [declarationCount, Node.detached, Construct.kind, hConstruct, hAll, Construct.bindings]

theorem declarationCountAll_relabel (ts : List Tree) :
    declarationCountAll (ts.map (relabel φ)) = declarationCountAll ts := by
  induction ts with
  | nil => rfl
  | cons t rest ih =>
      rw [List.map_cons, declarationCountAll, declarationCountAll, ih, declarationCount_relabel]

end Tree

/-! ### Contexts -/

namespace Lexical

variable (φ : NodeId → NodeId)

/-- The declaration made by a node of another number. -/
def Declaration.relabel (d : Declaration) : Declaration :=
  { d with node := φ d.node }

/-- Overlaying looks at names only. -/
theorem map_relabel_foldl_overlay (acc ds : List Declaration) :
    (ds.foldl overlay acc).map (Declaration.relabel φ) =
      (ds.map (Declaration.relabel φ)).foldl overlay (acc.map (Declaration.relabel φ)) := by
  rw [overlay_eq_keyed]
  apply Keyed.map_foldl_overlay
  exact fun _ _ => Iff.rfl

namespace Context

/-- The context in which nodes have other numbers. -/
def relabel (c : Context) : Context :=
  { c with declared := c.declared.map (Declaration.relabel φ) }

@[simp] theorem depth_relabel (c : Context) : (c.relabel φ).depth = c.depth := rfl

@[simp] theorem made_relabel (c : Context) : (c.relabel φ).made = c.made := rfl

@[simp] theorem inherited_relabel (c : Context) : (c.relabel φ).inherited = c.inherited := rfl

@[simp] theorem relabel_outermost : outermost.relabel φ = outermost := rfl

theorem visible_relabel (c : Context) :
    (c.relabel φ).visible = c.visible.map (Declaration.relabel φ) :=
  (map_relabel_foldl_overlay φ [] c.declared).symm

theorem lookup?_relabel (c : Context) (name : String) :
    (c.relabel φ).lookup? name = (c.lookup? name).map (Declaration.relabel φ) := by
  rw [← find?_visible, ← find?_visible, visible_relabel, List.find?_map]
  rfl

theorem declare_relabel (c : Context) (node : NodeId) (place : Nat) (name : Option String)
    (mutability : Mutability) :
    (c.declare node place name mutability).relabel φ =
      (c.relabel φ).declare (φ node) place name mutability := by
  simp [relabel, declare, Declaration.relabel]

theorem declareAll_relabel (c : Context) (node : NodeId) (place : Nat)
    (bindings : List (Option String × Mutability)) :
    (c.declareAll node place bindings).relabel φ =
      (c.relabel φ).declareAll (φ node) place bindings := by
  induction bindings generalizing c place with
  | nil => rfl
  | cons b rest ih => rw [declareAll, ih, declare_relabel, declareAll]

theorem extend_relabel (c : Context) (id : NodeId) (construct : Construct) :
    (c.extend id construct).relabel φ = (c.relabel φ).extend (φ id) construct.kind := by
  rw [extend, declareAll_relabel, extend, Construct.bindings_kind]

theorem enter_relabel (c : Context) : c.enter.relabel φ = (c.relabel φ).enter := by
  rw [enter, enter, visible_relabel, List.map_map]
  rfl

theorem after_relabel (c : Context) (t : Tree) :
    (c.after t).relabel φ = (c.relabel φ).after (t.relabel φ) := by
  rw [after, after, Tree.declarationCount_relabel, Tree.construct_relabel, Tree.id_relabel,
    Construct.bindsInBlock_kind]
  split
  · rw [← extend_relabel]
    rfl
  · rfl

/-- The slot of a declaration does not depend on which node makes it. -/
@[simp] theorem slot_relabel (c : Context) (d : Declaration) :
    (c.relabel φ).slot (d.relabel φ) = c.slot d := rfl

end Context

/-! ### Positions -/

/-- The position at which nodes have other numbers. -/
def Position.relabel (q : Position) : Position :=
  ⟨q.context.relabel φ, q.tree.relabel φ⟩

end Lexical

namespace Tree

open Lexical

variable (φ : NodeId → NodeId)

theorem positionsAll_relabel_of {ts : List Tree} (hTrees : ∀ t ∈ ts, ∀ c : Context,
      (t.positions c).map (Position.relabel φ) = (t.relabel φ).positions (c.relabel φ))
    (c : Context) : (positionsAll c ts).map (Position.relabel φ) =
      positionsAll (c.relabel φ) (ts.map (relabel φ)) := by
  induction ts generalizing c with
  | nil => rfl
  | cons t rest ih =>
      rw [positionsAll, List.map_append, hTrees t List.mem_cons_self,
        ih (fun s hS => hTrees s (List.mem_cons_of_mem t hS)), List.map_cons, positionsAll,
        Context.after_relabel]

/-- The positions of a relabelled tree are those of the tree, relabelled. -/
theorem positions_relabel (t : Tree) (c : Context) :
    (t.positions c).map (Position.relabel φ) = (t.relabel φ).positions (c.relabel φ) := by
  induction t using induction_children generalizing c with
  | mk id node children ih =>
      have hHere : Position.relabel φ ⟨c, mk id node children⟩ =
          ⟨c.relabel φ, (mk id node children).relabel φ⟩ := rfl
      have hAll := positionsAll_relabel_of φ fun t hMem => ih t hMem
      rw [relabel_mk] at hHere ⊢
      cases hConstruct : node.construct with
      | function name params isClosure =>
          simp [positions, Node.detached, Construct.kind, hConstruct, hHere, hAll,
            Context.extend_relabel, Context.enter_relabel]
      | iteration name =>
          -- the items are read in the context of the loop, and the rest inside it
          cases children with
          | nil =>
              simp [positions, iterationPositions, Node.detached, Construct.kind, hConstruct, hHere]
          | cons items rest =>
              have hItems := ih items List.mem_cons_self c
              have hRest := positionsAll_relabel_of φ
                (fun t hMem => ih t (List.mem_cons_of_mem items hMem))
              simp [positions, iterationPositions, Node.detached, Construct.kind, hConstruct, hHere,
                hItems, hRest, Context.extend_relabel]
      | _ => simp [positions, Node.detached, Construct.kind, hConstruct, hHere, hAll]

end Tree

namespace Lexical.Position

variable (φ : NodeId → NodeId) (q : Position)

@[simp] theorem id_relabel : (q.relabel φ).id = φ q.id :=
  q.tree.id_relabel φ

@[simp] theorem construct_relabel : (q.relabel φ).construct = q.construct.kind :=
  q.tree.construct_relabel φ

theorem use?_relabel : (q.relabel φ).use? = q.use? := by
  rw [use?, use?, construct_relabel]
  cases q.construct <;> rfl

theorem binding?_relabel : (q.relabel φ).binding? = q.binding?.map (Declaration.relabel φ) := by
  rw [binding?, binding?, construct_relabel, id_relabel]
  cases q.construct <;> first | rfl | exact q.context.lookup?_relabel φ _

/-- A position keeps its slot. -/
theorem slot?_relabel : (q.relabel φ).slot? = q.slot? := by
  rw [slot?, slot?, binding?_relabel, Option.map_map]
  rfl

theorem capture?_relabel (depth : Nat) (inherited : List (Option String)) :
    (q.relabel φ).capture? depth inherited = q.capture? depth inherited := by
  rw [capture?, capture?, use?_relabel]
  congr 1
  funext name
  rw [show (q.relabel φ).context = q.context.relabel φ from rfl, Context.lookup?_relabel,
    Option.bind_map]
  rfl

theorem inside_relabel : (q.relabel φ).inside = q.inside.map (relabel φ) := by
  rw [inside, inside, Tree.positionsAll_relabel_of φ fun t _ => t.positions_relabel φ, id_relabel,
    construct_relabel, Context.extend_relabel, Context.enter_relabel]
  exact congrArg _ (q.tree.children_relabel φ)

/-- A function needs the same from outside. -/
theorem captures_relabel : (q.relabel φ).captures = q.captures := by
  have hContext : (q.relabel φ).context.enter = (q.context.enter).relabel φ :=
    (q.context.enter_relabel φ).symm
  rw [captures, captures, inside_relabel, List.filterMap_map, hContext, Context.depth_relabel,
    Context.inherited_relabel]
  congr 2
  funext x
  exact x.capture?_relabel φ _ _

/-- A function keeps its storage. -/
theorem layout_relabel (name : String) :
    (q.relabel φ).layout name = { q.layout name with function := φ q.id } := by
  have hVisible : (q.relabel φ).context.visible.length = q.context.visible.length := by
    show (q.context.relabel φ).visible.length = _
    rw [Context.visible_relabel, List.length_map]
  have hCount : Tree.declarationCountAll (q.relabel φ).tree.children =
      Tree.declarationCountAll q.tree.children := by
    show Tree.declarationCountAll (q.tree.relabel φ).children = _
    rw [Tree.children_relabel, Tree.declarationCountAll_relabel]
  rw [layout, layout, hVisible, hCount, captures_relabel, construct_relabel, id_relabel,
    Construct.bindings_kind, Construct.isClosureFunction_kind]

end Lexical.Position

/-! ### Trees that are alike -/

namespace Tree

mutual

/-- Whether two trees are equal in shape, and in the kinds and names of their nodes. -/
def alike : Tree → Tree → Bool
  | mk _ node children, mk _ other others =>
      node.construct.kind = other.construct.kind && alikeAll children others

/-- Whether trees are alike one by one. -/
def alikeAll : List Tree → List Tree → Bool
  | [], [] => true
  | t :: rest, u :: others => t.alike u && alikeAll rest others
  | _, _ => false

end

/-- Trees that are alike have the same number of nodes. -/
theorem length_subtrees_of_alike {t u : Tree} (hAlike : t.alike u = true) :
    t.subtrees.length = u.subtrees.length := by
  induction t using induction_children generalizing u with
  | mk id node children ih =>
      obtain ⟨otherId, other, others⟩ := u
      rw [alike, Bool.and_eq_true] at hAlike
      have hAll := hAlike.2
      rw [subtrees, subtrees, List.length_cons, List.length_cons]
      congr 1
      clear hAlike
      induction children generalizing others with
      | nil =>
          cases others with
          | nil => rfl
          | cons u others => cases hAll
      | cons t rest ihRest =>
          cases others with
          | nil => cases hAll
          | cons u others =>
              rw [alikeAll, Bool.and_eq_true] at hAll
              rw [subtreesAll, subtreesAll, List.length_append, List.length_append,
                ih t List.mem_cons_self hAll.1,
                ihRest (fun s hS => ih s (List.mem_cons_of_mem t hS)) others hAll.2]

/-- Trees that are alike are the same, up to the numbers of nodes in the order of the trees. -/
theorem relabel_eq_of_alike {φ : NodeId → NodeId} {t u : Tree} (hAlike : t.alike u = true)
    (hIds : t.subtrees.map (fun s => φ s.id) = u.subtrees.map Tree.id) :
    t.relabel φ = u.relabel fun id => id := by
  induction t using induction_children generalizing u with
  | mk id node children ih =>
      obtain ⟨otherId, other, others⟩ := u
      rw [alike, Bool.and_eq_true, decide_eq_true_eq] at hAlike
      rw [subtrees, subtrees, List.map_cons, List.map_cons, List.cons.injEq] at hIds
      obtain ⟨hKind, hAll⟩ := hAlike
      obtain ⟨hId, hBelow⟩ := hIds
      have hChildren : children.map (relabel φ) = others.map (relabel fun id => id) := by
        clear hId hKind
        induction children generalizing others with
        | nil =>
            cases others with
            | nil => rfl
            | cons u others => cases hAll
        | cons t rest ihRest =>
            cases others with
            | nil => cases hAll
            | cons u others =>
                rw [alikeAll, Bool.and_eq_true] at hAll
                rw [subtreesAll, subtreesAll, List.map_append, List.map_append] at hBelow
                -- the nodes of the first trees come first in both lists
                obtain ⟨hHead, hRest⟩ := List.append_inj hBelow
                  (by rw [List.length_map, List.length_map, length_subtrees_of_alike hAll.1])
                rw [List.map_cons, List.map_cons, ih t List.mem_cons_self hAll.1 hHead,
                  ihRest (fun s hS => ih s (List.mem_cons_of_mem t hS)) others hAll.2 hRest]
      rw [relabel_mk, relabel_mk, hKind, hChildren]
      exact congrArg (mk · _ _) hId

/-- Numbers in a row without repetitions can be mapped to any numbers in a row. -/
theorem exists_map_eq {ids targets : List NodeId} (hDistinct : ids.Nodup)
    (hLength : ids.length = targets.length) : ∃ φ : NodeId → NodeId, ids.map φ = targets := by
  refine ⟨fun id => targets.getD (ids.idxOf id) ⟨0⟩, ?_⟩
  apply List.ext_getElem
  · rw [List.length_map, hLength]
  · intro i hI hTarget
    rw [List.length_map] at hI
    rw [List.getElem_map, hDistinct.idxOf_getElem i hI, List.getD_eq_getElem?_getD,
      List.getElem?_eq_getElem hTarget, Option.getD_some]

/-- A tree with different nodes that is like another one is this one with its nodes numbered
otherwise. -/
theorem exists_relabel_of_alike {t u : Tree} (hAlike : t.alike u = true)
    (hDistinct : (t.subtrees.map Tree.id).Nodup) :
    ∃ φ : NodeId → NodeId, t.relabel φ = u.relabel fun id => id := by
  have hLength : (t.subtrees.map Tree.id).length = (u.subtrees.map Tree.id).length := by
    rw [List.length_map, List.length_map, length_subtrees_of_alike hAlike]
  obtain ⟨φ, hIds⟩ := exists_map_eq hDistinct hLength
  rw [List.map_map] at hIds
  exact ⟨φ, relabel_eq_of_alike hAlike hIds⟩

end Tree

end LateBinding
