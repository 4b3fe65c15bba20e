import Mathlib.Algebra.GroupWithZero.Nat
import Mathlib.Data.Finset.Card
import Mathlib.Data.List.Count
import Mathlib.Data.List.ReduceOption
import LateBinding.Proofs.Lexical.Ownership
import LateBinding.Proofs.Lexical.Scopes

/-!
# Counting the slots of a function

A function has a slot for each name that is visible where it is entered, one for each parameter, and
one for each declaration in its body.  Each of these declarations is made in one scope of the
function.  The scope has one binding for each name, so the bindings of the scopes are as many as the
declarations exactly if nothing is declared twice in one scope.

* `Tree.exits` - the functions of a tree in the order in which they end.
* `Construct.slotCount`, `Tree.bodyNodes` - the slots that a node takes, and the nodes of a function;
  `declarationCountAll_eq_sum` - the slots of a body.
* `nameCount`, `length_foldl_overlay` - the number of bindings for declarations.
* `Tree.declaredNames`, `Position.map_name_declaredInside` - the names declared in a scope;
  `Tree.declaredCount_of_function` - they are as many as the slots of the function.
-/

namespace LateBinding

/-- The number of slots that a node takes in its function. -/
def Construct.slotCount : Construct → Nat
  | declaration .. => 1
  | destructuring names _ => 1 + names.length
  | iteration _ => 2
  | _ => 0

/-- A node takes a slot for each thing that it binds, unless it is a function. -/
theorem Construct.length_bindings {construct : Construct} (hFunction : construct.isFunction = false) :
    construct.bindings.length = construct.slotCount := by
  cases construct with
  | function name params isClosure => cases hFunction
  | destructuring names mutability => simp [bindings, slotCount, Nat.add_comm]
  | _ => rfl

namespace Tree

/-! ### Functions and their bodies -/

mutual

/-- The functions of a tree, in the order in which they end. -/
def exits : Tree → List NodeId
  | mk id node children =>
      exitsAll children ++ if node.construct.isFunction then [id] else []

/-- The functions of several trees, in the order in which they end. -/
def exitsAll : List Tree → List NodeId
  | [] => []
  | t :: rest => t.exits ++ exitsAll rest

end

mutual

/-- The nodes of a tree that are not in a function inside it, and are none. -/
def bodyNodes : Tree → List Tree
  | mk id node children =>
      if node.construct.isFunction then [] else mk id node children :: bodyNodesAll children

/-- The nodes of several trees that are not in a function inside them, and are none. -/
def bodyNodesAll : List Tree → List Tree
  | [] => []
  | t :: rest => t.bodyNodes ++ bodyNodesAll rest

end

theorem exitsAll_eq_flatMap (ts : List Tree) : exitsAll ts = ts.flatMap exits := by
  induction ts with
  | nil => rfl
  | cons t rest ih => rw [exitsAll, List.flatMap_cons, ih]

theorem exitsAll_singleton (t : Tree) : exitsAll [t] = t.exits := by
  rw [exitsAll, exitsAll, List.append_nil]

theorem bodyNodesAll_eq_flatMap (ts : List Tree) : bodyNodesAll ts = ts.flatMap bodyNodes := by
  induction ts with
  | nil => rfl
  | cons t rest ih => rw [bodyNodesAll, List.flatMap_cons, ih]

/-- Every function ends once. -/
theorem perm_exits (t : Tree) :
    t.exits.Perm ((t.subtrees.filter (·.construct.isFunction)).map Tree.id) := by
  induction t using induction_children with
  | mk id node children ih =>
      have hBelow : (exitsAll children).Perm
          (((subtreesAll children).filter (·.construct.isFunction)).map Tree.id) := by
        rw [exitsAll_eq_flatMap, subtreesAll_eq_flatMap, List.filter_flatMap, List.map_flatMap]
        exact List.Perm.flatMap_left _ ih
      rw [exits, subtrees, List.filter_cons]
      show List.Perm _ (List.map _ (if node.construct.isFunction = true then _ else _))
      split
      · exact List.perm_append_comm.trans (hBelow.cons id)
      · rwa [List.append_nil]

/-- A function inside another one ends before it. -/
theorem sublist_exits {t s inner : Tree} (hS : s ∈ t.subtrees)
    (hFunction : s.construct.isFunction = true) (hInner : inner ∈ subtreesAll s.children)
    (hInnerFunction : inner.construct.isFunction = true) :
    [inner.id, s.id].Sublist t.exits := by
  induction t using induction_children with
  | mk id node children ih =>
      rw [exits]
      rw [subtrees] at hS
      rcases List.mem_cons.mp hS with rfl | hS
      · -- the function is the tree, so what is inside it ends below the tree
        obtain ⟨child, hChild, hMem⟩ :=
          List.mem_flatMap.mp ((subtreesAll_eq_flatMap children) ▸ hInner)
        have hEnds : inner.id ∈ exitsAll children := by
          rw [exitsAll_eq_flatMap]
          refine List.mem_flatMap.mpr ⟨child, hChild, child.perm_exits.mem_iff.mpr ?_⟩
          exact List.mem_map_of_mem (List.mem_filter.mpr ⟨hMem, hInnerFunction⟩)
        rw [if_pos (show node.construct.isFunction = true from hFunction)]
        exact (List.singleton_sublist.mpr hEnds).append (List.Sublist.refl [id])
      · obtain ⟨child, hChild, hMem⟩ :=
          List.mem_flatMap.mp ((subtreesAll_eq_flatMap children) ▸ hS)
        have hBelow : child.exits.Sublist (exitsAll children) := by
          obtain ⟨before, after, rfl⟩ := List.append_of_mem hChild
          rw [exitsAll_eq_flatMap, List.flatMap_append, List.flatMap_cons]
          exact (List.sublist_append_left _ _).trans (List.sublist_append_right _ _)
        exact (ih child hChild hMem).trans (hBelow.trans (List.sublist_append_left _ _))

/-- Trees are known by the list of their nodes. -/
theorem subtreesAll_injective : Function.Injective subtreesAll := by
  intro ts us hSame
  induction ts generalizing us with
  | nil =>
      cases us with
      | nil => rfl
      | cons u rest =>
          cases u
          cases hSame
  | cons t rest ih =>
      cases us with
      | nil =>
          cases t
          cases hSame
      | cons u others =>
          have hHead : t = u := by
            cases t
            cases u
            exact (List.cons.inj hSame).1
          subst hHead
          rw [subtreesAll, subtreesAll, List.append_cancel_left_eq] at hSame
          rw [ih hSame]

/-- The nodes of a body are nodes of the tree. -/
theorem mem_subtrees_of_mem_bodyNodes {t s : Tree} (hS : s ∈ t.bodyNodes) : s ∈ t.subtrees := by
  induction t using induction_children with
  | mk id node children ih =>
      rw [bodyNodes] at hS
      split at hS
      · cases hS
      · rcases List.mem_cons.mp hS with rfl | hS
        · exact mem_subtrees_self _
        · rw [bodyNodesAll_eq_flatMap] at hS
          obtain ⟨child, hChild, hBody⟩ := List.mem_flatMap.mp hS
          exact mem_subtrees_of_mem_children hChild (ih child hChild hBody)

/-- What trees declare for their function are the slots of their nodes, if it is so for each. -/
theorem declarationCountAll_eq_sum_of {ts : List Tree}
    (hTrees : ∀ t ∈ ts, t.declarationCount = (t.bodyNodes.map (·.construct.slotCount)).sum) :
    declarationCountAll ts = ((bodyNodesAll ts).map (·.construct.slotCount)).sum := by
  induction ts with
  | nil => rfl
  | cons t rest ih =>
      rw [declarationCountAll, bodyNodesAll, List.map_append, List.sum_append,
        hTrees t List.mem_cons_self, ih fun s hS => hTrees s (List.mem_cons_of_mem t hS)]

/-- What a tree declares for its function are the slots of its nodes. -/
theorem declarationCount_eq_sum (t : Tree) :
    t.declarationCount = (t.bodyNodes.map (·.construct.slotCount)).sum := by
  induction t using induction_children with
  | mk id node children ih =>
      cases hFunction : node.construct.isFunction with
      | true =>
          rw [declarationCount_of_isFunction (t := mk id node children) hFunction, bodyNodes,
            hFunction, if_pos rfl]
          rfl
      | false =>
          rw [Lexical.Context.declarationCount_mk hFunction, bodyNodes, hFunction,
            if_neg Bool.false_ne_true, List.map_cons, List.sum_cons,
            declarationCountAll_eq_sum_of ih, Construct.length_bindings hFunction]
          rfl

theorem declarationCountAll_eq_sum (ts : List Tree) :
    declarationCountAll ts = ((bodyNodesAll ts).map (·.construct.slotCount)).sum :=
  declarationCountAll_eq_sum_of fun t _ => t.declarationCount_eq_sum

end Tree

namespace Lexical

/-! ### Bindings of declarations -/

/-- How many bindings there are for names declared in a scope: one for each name, and one for each
declaration without a name. -/
def nameCount (names : List (Option String)) : Nat :=
  names.reduceOption.toFinset.card + names.count none

/-- Declarations have a name or not. -/
theorem length_eq_add_count (names : List (Option String)) :
    names.length = names.reduceOption.length + names.count none := by
  induction names with
  | nil => rfl
  | cons name rest ih =>
      cases name with
      | none =>
          rw [List.reduceOption_cons_of_none, List.count_cons_self, List.length_cons, ih,
            Nat.add_assoc]
      | some name =>
          rw [List.reduceOption_cons_of_some, List.length_cons, List.length_cons, ih,
            List.count_cons_of_ne (by simp)]
          omega

/-- There are at most as many bindings as declarations. -/
theorem nameCount_le (names : List (Option String)) : nameCount names ≤ names.length := by
  rw [nameCount, length_eq_add_count]
  exact Nat.add_le_add_right (List.toFinset_card_le _) _

/-- There are as many bindings as declarations exactly if no name is declared twice. -/
theorem nameCount_eq_length_iff (names : List (Option String)) :
    nameCount names = names.length ↔ names.reduceOption.Nodup := by
  rw [nameCount, length_eq_add_count, Nat.add_right_cancel_iff]
  constructor
  · intro hCard
    rw [List.card_toFinset] at hCard
    rw [← List.dedup_eq_self]
    exact (List.dedup_sublist _).eq_of_length hCard
  · exact List.toFinset_card_of_nodup

/-- Overlaying a declaration adds its name, unless the name is there. -/
theorem map_name_overlay (ds : List Declaration) (d : Declaration) :
    (overlay ds d).map Declaration.name =
      if d.name.isSome = true ∧ d.name ∈ ds.map Declaration.name then ds.map Declaration.name
      else ds.map Declaration.name ++ [d.name] := by
  rw [overlay_eq_keyed]
  exact Keyed.map_key_overlay Declaration.name ds d

/-- One more declaration counts, unless its name is there. -/
theorem nameCount_append_singleton (names : List (Option String)) (name : Option String) :
    nameCount (names ++ [name]) =
      if name.isSome = true ∧ name ∈ names then nameCount names else nameCount names + 1 := by
  rw [nameCount, nameCount, List.reduceOption_append, List.count_append]
  cases name with
  | none => simp [Nat.add_assoc]
  | some name =>
      rw [List.reduceOption_singleton, Option.toList_some, List.toFinset_append,
        List.toFinset_cons, List.toFinset_nil, Finset.union_insert, Finset.union_empty,
        List.count_cons_of_ne (by simp), List.count_nil, Nat.add_zero]
      by_cases hMem : some name ∈ names
      · have hOld : name ∈ names.reduceOption.toFinset := by
          simpa [List.reduceOption_mem_iff] using hMem
        rw [Finset.card_insert_of_mem hOld, if_pos ⟨rfl, hMem⟩]
      · have hNew : name ∉ names.reduceOption.toFinset := by
          simpa [List.reduceOption_mem_iff] using hMem
        rw [Finset.card_insert_of_notMem hNew, if_neg fun h => hMem h.2]
        omega

/-- Overlaying declarations one by one leaves their names. -/
theorem mem_map_name_foldl_overlay (ds : List Declaration) {name : Option String}
    (hNamed : name.isSome = true) : name ∈ (ds.foldl overlay []).map Declaration.name ↔
      name ∈ ds.map Declaration.name := by
  induction ds using List.reverseRec with
  | nil => exact Iff.rfl
  | append_singleton rest d ih =>
      rw [List.foldl_append, List.foldl_cons, List.foldl_nil, map_name_overlay, List.map_append,
        List.map_singleton, List.mem_append, List.mem_singleton]
      split
      · rename_i hOld
        rw [ih, or_iff_left_of_imp]
        rintro rfl
        exact ih.mp hOld.2
      · rw [List.mem_append, List.mem_singleton, ih]

/-- Overlaying declarations one by one leaves as many as there are bindings for them. -/
theorem length_foldl_overlay (ds : List Declaration) :
    (ds.foldl overlay []).length = nameCount (ds.map Declaration.name) := by
  induction ds using List.reverseRec with
  | nil => rfl
  | append_singleton rest d ih =>
      have hCount := congrArg List.length (map_name_overlay (rest.foldl overlay []) d)
      rw [List.length_map] at hCount
      rw [List.foldl_append, List.foldl_cons, List.foldl_nil, hCount, List.map_append,
        List.map_singleton, nameCount_append_singleton]
      by_cases hOld : d.name.isSome = true ∧ d.name ∈ rest.map Declaration.name
      · rw [if_pos hOld, if_pos ⟨hOld.1, (mem_map_name_foldl_overlay rest hOld.1).mpr hOld.2⟩,
          List.length_map, ih]
      · have hNew : ¬(d.name.isSome = true ∧
            d.name ∈ (rest.foldl overlay []).map Declaration.name) :=
          fun h => hOld ⟨h.1, (mem_map_name_foldl_overlay rest h.1).mp h.2⟩
        rw [if_neg hOld, if_neg hNew, List.length_append, List.length_map, ih, List.length_singleton]

/-- What is visible are the bindings for what is declared. -/
theorem Context.length_visible (c : Context) :
    c.visible.length = nameCount (c.declared.map Declaration.name) :=
  length_foldl_overlay c.declared

/-- A declaration stays where it is overlaid by none of its name. -/
theorem mem_foldl_overlay_of_last {ds rest : List Declaration} {d : Declaration}
    (hLast : ∀ e ∈ rest, e.name.isSome = true → e.name ≠ d.name) :
    d ∈ (ds ++ d :: rest).foldl overlay [] := by
  have hHead : ∀ acc : List Declaration, d ∈ overlay acc d := by
    intro acc
    induction acc with
    | nil => exact List.mem_cons_self
    | cons e acc ih =>
        rw [overlay]
        split
        · exact List.mem_cons_self
        · exact List.mem_cons_of_mem e ih
  have hKept : ∀ (e : Declaration), (e.name.isSome = true → e.name ≠ d.name) →
      ∀ acc : List Declaration, d ∈ acc → d ∈ overlay acc e := by
    intro e hOther acc hMem
    induction acc with
    | nil => cases hMem
    | cons a acc ih =>
        rw [overlay]
        split
        · rename_i hSame
          rcases List.mem_cons.mp hMem with rfl | hMem
          · exact absurd hSame.2.symm (hOther hSame.1)
          · exact List.mem_cons_of_mem e hMem
        · rcases List.mem_cons.mp hMem with rfl | hMem
          · exact List.mem_cons_self
          · exact List.mem_cons_of_mem a (ih hMem)
  rw [List.foldl_append, List.foldl_cons]
  induction rest using List.reverseRec with
  | nil => exact hHead _
  | append_singleton rest e ih =>
      rw [List.foldl_append, List.foldl_cons, List.foldl_nil]
      exact hKept e (hLast e (by simp)) _ (ih fun x hX => hLast x (by simp [hX]))

/-! ### What is declared in a scope -/

namespace Context

/-- What trees that are read one after the other declare in the scope around them. -/
def added (c : Context) : List Tree → List Declaration
  | [] => []
  | t :: rest =>
      (if t.construct.bindsInBlock then c.declarations t.id 0 t.construct.bindings else []) ++
        (c.after t).added rest

theorem added_append (c : Context) (ts rest : List Tree) :
    c.added (ts ++ rest) = c.added ts ++ (c.afterAll ts).added rest := by
  induction ts generalizing c with
  | nil => rfl
  | cons t ts ih => rw [List.cons_append, added, added, ih, List.append_assoc, afterAll_cons]

/-- After trees what they declare is declared. -/
theorem declared_afterAll (c : Context) (ts : List Tree) :
    (c.afterAll ts).declared = c.declared ++ c.added ts := by
  induction ts generalizing c with
  | nil => rw [added, List.append_nil]; rfl
  | cons t rest ih =>
      have hHead : (c.after t).declared = c.declared ++
          if t.construct.bindsInBlock then c.declarations t.id 0 t.construct.bindings else [] := by
        unfold after
        split
        · exact c.declared_declareAll t.id 0 _
        · rw [List.append_nil]
      rw [afterAll_cons, ih, hHead, added, List.append_assoc]

/-- The declarations of a node in detail. -/
theorem getElem?_declarations (c : Context) (node : NodeId) (place i : Nat)
    (bindings : List (Option String × Mutability)) :
    (c.declarations node place bindings)[i]? =
      bindings[i]?.map fun b => ⟨node, place + i, b.1, b.2, c.depth, c.made + i⟩ := by
  induction bindings generalizing c place i with
  | nil => rfl
  | cons b rest ih =>
      cases i with
      | zero => rfl
      | succ i =>
          rw [declarations, List.getElem?_cons_succ, List.getElem?_cons_succ, ih, made_declare,
            depth_declare, Nat.add_right_comm, Nat.add_assoc place, Nat.add_right_comm c.made,
            Nat.add_assoc c.made]

/-- The declarations of a node have the names that it binds. -/
theorem map_name_declarations (c : Context) (node : NodeId) (place : Nat)
    (bindings : List (Option String × Mutability)) :
    (c.declarations node place bindings).map Declaration.name = bindings.map Prod.fst := by
  induction bindings generalizing c place with
  | nil => rfl
  | cons b rest ih => rw [declarations, List.map_cons, ih, List.map_cons]

end Context

end Lexical

namespace Tree

/-- The names that a tree declares in the scope around it; there is no name for a value that is taken
apart. -/
def boundNames (t : Tree) : List (Option String) :=
  if t.construct.bindsInBlock then t.construct.bindings.map Prod.fst else []

/-- The names that are declared directly in the scope of a node. -/
def declaredNames : Tree → List (Option String)
  | mk _ node children =>
      match node.construct with
      | .block => children.flatMap boundNames
      | construct => construct.bindings.map Prod.fst

end Tree

namespace Lexical

/-- A statement of a block is read after those before it. -/
theorem Position.mem_positions_of_block {B : Position} (hBlock : B.construct = .block)
    {before after : List Tree} {s : Tree} (hChildren : B.tree.children = before ++ s :: after) :
    ⟨B.context.afterAll before, s⟩ ∈ B.tree.positions B.context := by
  have hAmong : ∀ c : Context,
      ⟨c.afterAll before, s⟩ ∈ Tree.positionsAll c (before ++ s :: after) := by
    clear hChildren
    induction before with
    | nil => exact fun c => List.mem_append_left _ (Tree.mem_positions_self c s)
    | cons first before ih => exact fun c => List.mem_append_right _ (ih (c.after first))
  obtain ⟨c, ⟨id, node, children⟩⟩ := B
  change node.construct = .block at hBlock
  change children = _ at hChildren
  simp only [Tree.positions, hBlock, hChildren]
  exact List.mem_cons_of_mem _ (hAmong c)

theorem Context.map_name_added (c : Context) (ts : List Tree) :
    (c.added ts).map Declaration.name = ts.flatMap Tree.boundNames := by
  induction ts generalizing c with
  | nil => rfl
  | cons t rest ih =>
      rw [added, List.map_append, ih, List.flatMap_cons, Tree.boundNames]
      split
      · rw [c.map_name_declarations]
      · rfl

/-- What is declared directly in the scope of a node has the names that are declared there. -/
theorem Position.map_name_declaredInside {q : Position} (hScope : q.construct.hasScope = true)
    (hModule : ∀ name, q.construct ≠ .module name) :
    q.declaredInside.map Declaration.name = q.tree.declaredNames := by
  obtain ⟨c, ⟨id, node, children⟩⟩ := q
  rw [Position.construct_mk] at hScope
  cases hConstruct : node.construct <;> rw [hConstruct] at hScope <;> try cases hScope
  case module name => exact absurd hConstruct (hModule name)
  case block =>
    simp only [declaredInside, ending, Position.construct_mk, hConstruct, Tree.declaredNames,
      Context.declared_afterAll, List.drop_left, Context.map_name_added]
    rfl
  case function name params isClosure =>
    simp only [declaredInside, ending, Position.construct_mk, Position.id_mk, hConstruct,
      Tree.declaredNames, Context.extend, Context.declared_declareAll]
    rw [show c.enter.declared = c.declared from rfl, List.drop_left,
      Context.map_name_declarations]
  case iteration name =>
    simp only [declaredInside, ending, Position.construct_mk, Position.id_mk, hConstruct,
      Tree.declaredNames, Context.extend, Context.declared_declareAll, List.drop_left,
      Context.map_name_declarations]

/-- The last declaration of its name in a block is the one that the block has a binding for. -/
theorem Position.mem_declaredInside_of_last {B : Position} (hBlock : B.construct = .block)
    {before after : List Tree} {s : Tree} (hChildren : B.tree.children = before ++ s :: after)
    (hBinds : s.construct.bindsInBlock = true) {place : Nat} {d : Declaration}
    (hD : ((B.context.afterAll before).declarations s.id 0 s.construct.bindings)[place]? = some d)
    (hLast : d.name.isSome = true →
      d.name ∉ (s.construct.bindings.map Prod.fst).drop (place + 1) ∧
        d.name ∉ after.flatMap Tree.boundNames) :
    d ∈ B.declaredInside.foldl overlay [] := by
  have hInside : B.declaredInside = B.context.added before ++
      ((B.context.afterAll before).declarations s.id 0 s.construct.bindings ++
        ((B.context.afterAll before).after s).added after) := by
    rw [declaredInside, ending, hBlock]
    show (B.context.afterAll B.tree.children).declared.drop _ = _
    rw [Context.declared_afterAll, List.drop_left, hChildren, Context.added_append,
      Context.added, if_pos hBinds]
  rw [hInside]
  generalize hMade : (B.context.afterAll before).declarations s.id 0 s.construct.bindings = ds
    at hD ⊢
  obtain ⟨hPlace, hSame⟩ := List.getElem?_eq_some_iff.mp hD
  have hSplit : ds = ds.take place ++ d :: ds.drop (place + 1) := by
    rw [← hSame, List.getElem_cons_drop, List.take_append_drop]
  rw [hSplit, List.append_assoc, ← List.append_assoc, List.cons_append]
  refine mem_foldl_overlay_of_last fun e hE hNamed hName => ?_
  rw [hName] at hNamed
  obtain ⟨hHere, hAfter⟩ := hLast hNamed
  rcases List.mem_append.mp hE with hE | hE
  · apply hHere
    rw [← Context.map_name_declarations (B.context.afterAll before) s.id 0, hMade, ← List.map_drop,
      ← hName]
    exact List.mem_map_of_mem hE
  · apply hAfter
    rw [← Context.map_name_added ((B.context.afterAll before).after s), ← hName]
    exact List.mem_map_of_mem hE

end Lexical

namespace Tree

/-! ### Scopes and slots -/

open Lexical (nameCount nameCount_le nameCount_eq_length_iff)

/-- What binds for the statements that follow it stands in a block. -/
theorem IsProper.bindsInBlock_of_mem_children {id : NodeId} {node : Node} {children : List Tree}
    (hProper : (Tree.mk id node children).IsProper) (hBlock : node.construct.isBlock = false)
    {child : Tree} (hChild : child ∈ children) : child.construct.bindsInBlock = false := by
  by_cases hOperands : node.construct.hasOperands = true
  · rcases Construct.isOperand_of_admits hOperands hProper.admits _ (List.mem_map_of_mem hChild) with
      hExpression | hInner
    · exact Construct.bindsInBlock_eq_false_of_isExpression hExpression
    · exact Construct.bindsInBlock_eq_false_of_isBlock hInner
  · cases hConstruct : node.construct with
    | module name =>
        have hAdmits := hProper.admits
        rw [hConstruct] at hAdmits
        exact Construct.bindsInBlock_eq_false_of_isFunction
          (Construct.isFunction_of_isNamedFunction
            (List.all_eq_true.mp hAdmits _ (List.mem_map_of_mem hChild)))
    | function name params isClosure =>
        obtain ⟨body, rfl, hBody⟩ := hProper.exists_of_function hConstruct
        rw [List.mem_singleton.mp hChild]
        exact Construct.bindsInBlock_eq_false_of_isBlock hBody
    | iteration name =>
        obtain ⟨items, body, rfl, hItems, hBody⟩ := hProper.exists_of_iteration hConstruct
        rcases List.mem_cons.mp hChild with rfl | hChild
        · exact Construct.bindsInBlock_eq_false_of_isExpression hItems
        · rw [List.mem_singleton.mp hChild]
          exact Construct.bindsInBlock_eq_false_of_isBlock hBody
    | closure =>
        obtain ⟨function, rfl, hClosure⟩ := hProper.exists_of_closure hConstruct
        rw [List.mem_singleton.mp hChild]
        exact Construct.bindsInBlock_eq_false_of_isFunction
          (Construct.isFunction_of_isClosureFunction hClosure)
    | constant | reference =>
        rw [hProper.eq_nil_of_leaf (by rw [hConstruct]; rfl) (by rw [hConstruct]; rfl)
          (by rw [hConstruct]; simp)] at hChild
        cases hChild
    | block =>
        rw [hConstruct] at hBlock
        cases hBlock
    | _ =>
        rw [hConstruct] at hOperands
        exact absurd rfl hOperands

/-- The numbers of declarations in the scopes of nodes, added up. -/
def declaredCount (nodes : List Tree) : Nat :=
  ((nodes.filter (·.construct.hasScope)).map fun s => s.declaredNames.length).sum

theorem declaredCount_append (nodes rest : List Tree) :
    declaredCount (nodes ++ rest) = declaredCount nodes + declaredCount rest := by
  rw [declaredCount, List.filter_append, List.map_append, List.sum_append]
  rfl

/-- A node declares in the scope around it and in its own what it binds, and in its own what its
children declare around them. -/
theorem length_bindings_eq {id : NodeId} {node : Node} {children : List Tree}
    (hProper : (Tree.mk id node children).IsProper) :
    node.construct.bindings.length + (children.flatMap boundNames).length =
      (mk id node children).boundNames.length +
        if node.construct.hasScope then (mk id node children).declaredNames.length else 0 := by
  by_cases hBlock : node.construct.isBlock = true
  · cases hConstruct : node.construct <;> rw [hConstruct] at hBlock <;> cases hBlock
    simp [boundNames, declaredNames, Tree.construct, Tree.node, hConstruct, Construct.bindings,
      Construct.bindsInBlock, Construct.hasScope]
  · have hNone : children.flatMap boundNames = [] := by
      rw [List.flatMap_eq_nil_iff]
      intro child hChild
      rw [boundNames, hProper.bindsInBlock_of_mem_children (by simpa using hBlock) hChild,
        if_neg Bool.false_ne_true]
    rw [hNone]
    cases hConstruct : node.construct with
    | block =>
        rw [hConstruct] at hBlock
        exact absurd rfl hBlock
    | _ =>
        simp [boundNames, declaredNames, Tree.construct, Tree.node, hConstruct, Construct.bindings,
          Construct.bindsInBlock, Construct.hasScope]

/-- What trees declare for their function, they declare in the scope around them or in one inside
them, if it is so for each. -/
theorem declarationCountAll_eq_add {ts : List Tree}
    (hTrees : ∀ t ∈ ts, t.declarationCount = t.boundNames.length + declaredCount t.bodyNodes) :
    declarationCountAll ts =
      (ts.flatMap boundNames).length + declaredCount (bodyNodesAll ts) := by
  induction ts with
  | nil => rfl
  | cons t rest ih =>
      rw [declarationCountAll, bodyNodesAll, List.flatMap_cons, List.length_append,
        declaredCount_append, hTrees t List.mem_cons_self,
        ih fun s hS => hTrees s (List.mem_cons_of_mem t hS)]
      omega

/-- What a tree declares for its function, it declares in the scope around it or in one inside it. -/
theorem declarationCount_eq_add {t : Tree} (hProper : t.IsProper) :
    t.declarationCount = t.boundNames.length + declaredCount t.bodyNodes := by
  induction t using induction_children with
  | mk id node children ih =>
      have hBelow := declarationCountAll_eq_add fun t hMem =>
        ih t hMem (hProper.of_mem_children hMem)
      cases hFunction : node.construct.isFunction with
      | true =>
          have hNames : (mk id node children).boundNames = [] := by
            have hBinds : (mk id node children).construct.bindsInBlock = false :=
              Construct.bindsInBlock_eq_false_of_isFunction hFunction
            rw [boundNames, hBinds, if_neg Bool.false_ne_true]
          rw [declarationCount_of_isFunction (t := mk id node children) hFunction, hNames, bodyNodes,
            hFunction, if_pos rfl]
          rfl
      | false =>
          have hHere := length_bindings_eq hProper
          have hSum : declaredCount (mk id node children :: bodyNodesAll children) =
              (if node.construct.hasScope then (mk id node children).declaredNames.length else 0) +
                declaredCount (bodyNodesAll children) := by
            rw [declaredCount, List.filter_cons]
            show List.sum (List.map _ (if node.construct.hasScope = true then _ else _)) = _
            split
            · rw [List.map_cons, List.sum_cons]
              rfl
            · rw [Nat.zero_add]
              rfl
          rw [Lexical.Context.declarationCount_mk hFunction, bodyNodes, hFunction,
            if_neg Bool.false_ne_true, hBelow, hSum]
          omega

/-- What a function declares, it declares in its own scope or in one of its body. -/
theorem declaredCount_of_function {id : NodeId} {node : Node} {children : List Tree}
    (hProper : (Tree.mk id node children).IsProper)
    (hFunction : node.construct.isFunction = true) :
    declaredCount (mk id node children :: bodyNodesAll children) =
      node.construct.bindings.length + declarationCountAll children := by
  cases hConstruct : node.construct with
  | function name params isClosure =>
      obtain ⟨body, rfl, hBlock⟩ := hProper.exists_of_function hConstruct
      have hBody := declarationCount_eq_add (hProper.of_mem_children List.mem_cons_self)
      have hNames : body.boundNames = [] := by
        rw [boundNames, Construct.bindsInBlock_eq_false_of_isBlock hBlock,
          if_neg Bool.false_ne_true]
      rw [hNames] at hBody
      simp only [declaredCount, List.filter_cons, Tree.construct, Tree.node, hConstruct,
        Construct.hasScope, if_true, List.map_cons, List.sum_cons, declaredNames, bodyNodesAll,
        List.append_nil, declarationCountAll, Nat.add_zero, hBody]
      simp [Construct.bindings]
  | _ =>
      rw [hConstruct] at hFunction
      cases hFunction

/-- Scopes have at most as many bindings as there are declarations in them, and as many exactly if no
name is declared twice in one of them. -/
theorem sum_nameCount (ss : List Tree) :
    (ss.map fun s => nameCount s.declaredNames).sum ≤
        (ss.map fun s => s.declaredNames.length).sum ∧
      ((ss.map fun s => nameCount s.declaredNames).sum =
          (ss.map fun s => s.declaredNames.length).sum ↔
        ∀ s ∈ ss, s.declaredNames.reduceOption.Nodup) := by
  induction ss with
  | nil => simp
  | cons s rest ih =>
      have hHere := nameCount_le s.declaredNames
      rw [List.forall_mem_cons, ← ih.2, ← nameCount_eq_length_iff]
      simp only [List.map_cons, List.sum_cons]
      omega

end Tree

end LateBinding
