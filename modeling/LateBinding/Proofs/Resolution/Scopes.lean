import Mathlib.Data.List.Pairwise
import LateBinding.Proofs.Keyed
import LateBinding.Proofs.Lexical.Enclosing
import LateBinding.Proofs.Resolution.Nesting
import LateBinding.Proofs.Resolution.Recorded

/-!
# The scopes of an outcome

In an outcome exactly the module, the functions, the blocks and the loops over items have a scope,
each its own.  These scopes lie in each other as their nodes do; only the scope of a closure lies in
an environment of the closure instead, with copies of all that is visible around the closure.  Every
scope owns the bindings of what is declared directly in it.

* `Outcome.scopeAround?`, `Outcome.Nests` - what is said of the scopes of an outcome.
* `Outcome.Accounts`, `IsResolved.exists_accounts` - the outcome lists all scopes that there are.
* `IsResolved.scopes_nest`, with `loopOutcome`, the outcome of a module that declares names again,
  takes a value apart, and has a closure in a loop.
-/

namespace LateBinding.Resolution

open Lexical (Context Declaration Position)
open Scope (Binding ScopeId)
open FreshName (isReserved)

namespace Outcome

/-- The scope that the scope of a node lies in. -/
def scopeAround? (r : Outcome) (node : NodeId) : Option ScopeId :=
  (r.scopeOf? node).bind r.scopes.parent?

/-- The scopes of an outcome lie in each other as the nodes of a module do, and own what is declared
directly in them, given the names of what has none in the program. -/
structure Nests (r : Outcome) (t : Tree) (fresh : NodeId → String) : Prop where
  defined : ∀ node, (∃ scope, r.scopeOf? node = some scope) ↔
    ∃ s ∈ t.subtrees, s.id = node ∧ s.construct.hasScope = true
  injective : ∀ node other scope, r.scopeOf? node = some scope → r.scopeOf? other = some scope →
    node = other
  module : ∃ scope, r.scopeOf? t.id = some scope ∧ r.scopes.owned scope = [] ∧
    r.scopes.parent? scope = none
  nested : ∀ q ∈ t.positions .outermost,
    q.construct.isBlock = true ∨ (∃ name, q.construct = .iteration name) →
    ∃ around outer, (q.tree, around) ∈ Tree.scopeNodesAll t.id t.children ∧
      r.scopeOf? around = some outer ∧ r.scopeAround? q.id = some outer
  named : ∀ q ∈ t.positions .outermost, q.construct.isNamedFunction = true →
    r.scopeAround? q.id = r.scopeOf? t.id
  closure : ∀ q ∈ t.positions .outermost, q.construct.isClosureFunction = true →
    ∃ environment layout, r.scopeAround? q.id = some environment ∧
      r.scopes.parent? environment = none ∧
      (∀ node, r.scopeOf? node ≠ some environment) ∧
      (∀ node, r.scopeAround? node = some environment → node = q.id) ∧
      r.layoutOf? q.id = some layout ∧
      r.scopes.owned environment = q.environment fresh layout.captured
  locals : ∀ q ∈ t.positions .outermost, q.construct.hasScope = true →
    r.localsOf q.id = q.locals fresh

/-- The outcome for a module lists the scopes that were opened: first that of the module, then those
of given openings. -/
structure Accounts (r : Outcome) (t : Tree) (fresh : NodeId → String) (openings : List Opening) :
    Prop where
  reserved : ∀ q ∈ t.positions .outermost, q.construct.hasTemporary = true →
    isReserved (fresh q.id) = true
  positions : openings.map Opening.position = withScope (Tree.positionsAll .outermost t.children)
  opened : r.opened = (t.id, ⟨0⟩) :: openings.map Opening.entry
  scopes : ∃ count, (openings.flatMap Opening.scopes).map ScopeId.index = List.range' 1 count
  stands : ∀ o ∈ openings, o.Stands fresh r.scopes
  nested : ∀ y ∈ Tree.scopeNodesAll t.id t.children, y.1.construct.isClosureFunction = false →
    ∃ inner outer, (y.1.id, inner) ∈ openings.map Opening.entry ∧ (y.2, outer) ∈ r.opened ∧
      r.scopes.parent? inner = some outer
  module : r.scopes.owned ⟨0⟩ = [] ∧ r.scopes.parent? ⟨0⟩ = none

end Outcome

/-! ### Names for what has none -/

/-- Names that are given to different nodes make up a function. -/
theorem exists_fresh {names : List (NodeId × String)} (hDistinct : (names.map Prod.fst).Nodup) :
    ∃ fresh : NodeId → String, ∀ x ∈ names, fresh x.1 = x.2 := by
  refine ⟨fun id => ((names.find? (·.1 = id)).map Prod.snd).getD "", fun x hX => ?_⟩
  have hFound : names.find? (·.1 = x.1) = some x :=
    (Keyed.find?_eq_some_iff_mem hDistinct).mpr ⟨hX, rfl⟩
  simp only [hFound, Option.map_some, Option.getD_some]

namespace IsResolved

variable {options : Options} {f : Forest} {t : Tree} {r : Outcome}

/-- The outcome of a module lists all scopes that the walk has opened. -/
theorem exists_accounts (hResolved : IsResolved options f t r) :
    ∃ fresh openings, r.Accounts t fresh openings := by
  have hModule := hResolved.module
  have hFunctions : ∀ s ∈ t.children, s.construct.isFunction = true :=
    fun s hS => hModule.isFunction_of_mem_children hS
  obtain ⟨name, hConstruct⟩ := hModule.module
  have hPositions := hModule.positions_eq
  obtain ⟨p, hWalk, rfl⟩ := hResolved.exists_walk
  have hIds := hResolved.nodup_ids
  obtain ⟨id, node, children⟩ := t
  change node.construct = .module name at hConstruct
  rw [moduleTree] at hWalk
  simp only [hConstruct] at hWalk
  have hStart := reflects_atModule id name
  have hCovers := covers_moduleFunctions id
    (fun s hS => coverings _ (hModule.of_mem_children hS)) hFunctions hStart rfl hWalk
  obtain ⟨names, hNodes, hReserved, hTells⟩ := hCovers.names
  rw [hPositions] at hIds
  have hBelow : ((Tree.positionsAll .outermost children).map Position.id).Nodup :=
    (List.nodup_cons.mp hIds).2
  have hDistinct : (names.map Prod.fst).Nodup := by
    rw [hNodes]
    exact (List.filter_sublist.map Position.id).nodup hBelow
  obtain ⟨fresh, hFresh⟩ := exists_fresh hDistinct
  -- at the beginning the scope of the module shows and owns nothing
  have hBegin : Tells fresh 0 Context.outermost (Progress.atModule id name) ⟨0⟩ := by
    have hVisible := List.forall₂_nil_right_iff.mp hStart.shows
    refine ⟨?_, List.Forall₂.nil, Nat.le_refl _⟩
    rw [hVisible]
    exact List.Forall₂.nil
  obtain ⟨hEnd, openings, hAccount⟩ := hTells fresh hFresh 0 hBegin
  refine ⟨fresh, openings, ?_⟩
  exact {
    reserved := by
      intro q hQ hTemporary
      rw [hPositions] at hQ
      rcases List.mem_cons.mp hQ with rfl | hQ
      · rw [Position.construct_mk, hConstruct] at hTemporary
        cases hTemporary
      · have hMem : q.id ∈ names.map Prod.fst := by
          rw [hNodes]
          exact List.mem_map_of_mem (List.mem_filter.mpr ⟨hQ, hTemporary⟩)
        obtain ⟨x, hX, hId⟩ := List.mem_map.mp hMem
        rw [← hId, hFresh x hX]
        exact hReserved x hX
    positions := hAccount.positions
    opened := hAccount.opened
    scopes := ⟨_, hAccount.scopes⟩
    stands := hAccount.stands
    nested := by
      intro y hY hClosure
      show ∃ inner outer, _ ∧ (y.2, outer) ∈ p.opened.toList ∧ _
      rw [hAccount.opened]
      exact hAccount.nested y hY hClosure
    module := by
      refine ⟨?_, hAccount.parent⟩
      show p.scopes.owned ⟨0⟩ = []
      rw [hEnd.owned_eq, Context.afterAll_eq _ fun s (hS : s ∈ children) =>
        Construct.bindsInBlock_eq_false_of_isFunction (hFunctions s hS)]
      rfl }

end IsResolved

/-! ### Entries -/

namespace Outcome.Accounts

variable {options : Options} {f : Forest} {t : Tree} {r : Outcome} {fresh : NodeId → String}
  {openings : List Opening} (hAccounts : r.Accounts t fresh openings)

include hAccounts

/-- No scope is opened twice. -/
theorem nodup_scopes : (⟨0⟩ :: openings.flatMap Opening.scopes).Nodup := by
  obtain ⟨count, hScopes⟩ := hAccounts.scopes
  apply List.Nodup.of_map ScopeId.index
  rw [List.map_cons, hScopes]
  exact List.nodup_range' (n := count + 1)

/-- A scope was opened for one opening only. -/
theorem eq_of_mem_scopes {o other : Opening} (hO : o ∈ openings) (hOther : other ∈ openings)
    {scope : ScopeId} (hMem : scope ∈ o.scopes) (hMem' : scope ∈ other.scopes) : o = other := by
  by_contra hNe
  have hPairwise := (List.nodup_flatMap.mp (List.nodup_cons.mp hAccounts.nodup_scopes).2).2
  have hSymm : Std.Symm (Function.onFun List.Disjoint Opening.scopes) :=
    ⟨fun _ _ hDisjoint _ hLeft hRight => hDisjoint hRight hLeft⟩
  exact hPairwise.forall hO hOther hNe hMem hMem'

/-- The scope of the module was opened for no opening. -/
theorem zero_not_mem_scopes {o : Opening} (hO : o ∈ openings) : ⟨0⟩ ∉ o.scopes := fun hMem =>
  (List.nodup_cons.mp hAccounts.nodup_scopes).1 (List.mem_flatMap.mpr ⟨o, hO, hMem⟩)

/-- An environment is the scope of no node. -/
theorem environment_not_mem {o : Opening} (hO : o ∈ openings) {environment : ScopeId}
    (hEnvironment : o.environment = some environment) (node : NodeId) :
    (node, environment) ∉ r.opened := by
  have hMem := Opening.environment_mem_scopes hEnvironment
  rw [hAccounts.opened]
  intro hEntry
  rcases List.mem_cons.mp hEntry with hEntry | hEntry
  · rw [(Prod.mk.inj hEntry).2] at hMem
    exact hAccounts.zero_not_mem_scopes hO hMem
  · obtain ⟨other, hOther, hSame⟩ := List.mem_map.mp hEntry
    obtain rfl : other.scope = environment := congrArg Prod.snd hSame
    obtain rfl := hAccounts.eq_of_mem_scopes hO hOther hMem other.scope_mem_scopes
    -- the environment was opened before the scope, so they differ
    have hBoth := (List.nodup_flatMap.mp (List.nodup_cons.mp hAccounts.nodup_scopes).2).1 o hO
    rw [Opening.scopes, hEnvironment] at hBoth
    simp at hBoth

/-- The scopes of different nodes are different. -/
theorem eq_of_mem_opened {node other : NodeId} {scope : ScopeId} (hMem : (node, scope) ∈ r.opened)
    (hOther : (other, scope) ∈ r.opened) : node = other := by
  rw [hAccounts.opened] at hMem hOther
  rcases List.mem_cons.mp hMem with hMem | hMem <;> rcases List.mem_cons.mp hOther with hOther | hOther
  · rw [(Prod.mk.inj hMem).1, (Prod.mk.inj hOther).1]
  · obtain ⟨o, hO, hEntry⟩ := List.mem_map.mp hOther
    have hScope : o.scope = ⟨0⟩ := (congrArg Prod.snd hEntry).trans (Prod.mk.inj hMem).2
    exact absurd (hScope ▸ o.scope_mem_scopes) (hAccounts.zero_not_mem_scopes hO)
  · obtain ⟨o, hO, hEntry⟩ := List.mem_map.mp hMem
    have hScope : o.scope = ⟨0⟩ := (congrArg Prod.snd hEntry).trans (Prod.mk.inj hOther).2
    exact absurd (hScope ▸ o.scope_mem_scopes) (hAccounts.zero_not_mem_scopes hO)
  · obtain ⟨o, hO, hEntry⟩ := List.mem_map.mp hMem
    obtain ⟨o', hO', hEntry'⟩ := List.mem_map.mp hOther
    have hScope : o.scope = o'.scope :=
      (congrArg Prod.snd hEntry).trans (congrArg Prod.snd hEntry').symm
    obtain rfl := hAccounts.eq_of_mem_scopes hO hO' o.scope_mem_scopes (hScope ▸ o'.scope_mem_scopes)
    exact (congrArg Prod.fst hEntry).symm.trans (congrArg Prod.fst hEntry')

/-- The node of an opening stands in a node with a scope. -/
theorem exists_around {o : Opening} (hO : o ∈ openings) :
    ∃ around, (o.position.tree, around) ∈ Tree.scopeNodesAll t.id t.children := by
  have hListed : o.position ∈ openings.map Opening.position := List.mem_map_of_mem hO
  rw [hAccounts.positions] at hListed
  obtain ⟨hMem, hScope⟩ := List.mem_filter.mp hListed
  have hTree := (Tree.perm_subtreesAll t.children _).mem_iff.mp (List.mem_map_of_mem hMem)
  have hAmong : o.position.tree ∈
      (Tree.subtreesAll t.children).filter (·.construct.hasScope) :=
    List.mem_filter.mpr ⟨hTree, hScope⟩
  rw [← Tree.map_fst_scopeNodesAll _ t.id] at hAmong
  obtain ⟨⟨s, around⟩, hNode, rfl⟩ := List.mem_map.mp hAmong
  exact ⟨around, hNode⟩

section Module

variable (hResolved : IsResolved options f t r)

include hResolved

/-- The nodes that were listed are those with a scope. -/
theorem map_fst_opened : r.opened.map Prod.fst =
    (withScope (t.positions .outermost)).map Position.id := by
  obtain ⟨name, hConstruct⟩ := hResolved.module.module
  have hScope : t.construct.hasScope = true := by
    rw [hConstruct]
    rfl
  have hWithScope : withScope (t.positions .outermost) =
      ⟨.outermost, t⟩ :: openings.map Opening.position := by
    rw [hResolved.module.positions_eq, hAccounts.positions, withScope]
    exact List.filter_cons_of_pos hScope
  rw [hAccounts.opened, hWithScope, List.map_cons, List.map_cons, List.map_map, List.map_map]
  rfl

/-- The scope of a node is the one that is listed for it. -/
theorem scopeOf?_eq_some_iff {node : NodeId} {scope : ScopeId} :
    r.scopeOf? node = some scope ↔ (node, scope) ∈ r.opened := by
  have hDistinct : (r.opened.map Prod.fst).Nodup := by
    rw [hAccounts.map_fst_opened hResolved]
    exact (List.filter_sublist.map Position.id).nodup hResolved.nodup_ids
  have hFinds : ∀ entry : NodeId × ScopeId, r.opened.find? (·.1 = node) = some entry ↔
      entry ∈ r.opened ∧ entry.1 = node := fun _ => Keyed.find?_eq_some_iff_mem hDistinct
  constructor
  · intro hScope
    obtain ⟨⟨id, found⟩, hFound, hSame⟩ := Option.map_eq_some_iff.mp hScope
    obtain rfl : found = scope := hSame
    obtain ⟨hMem, rfl⟩ := (hFinds _).mp hFound
    exact hMem
  · intro hMem
    rw [Outcome.scopeOf?, (hFinds (node, scope)).mpr ⟨hMem, rfl⟩]
    rfl

/-- The scope of the module. -/
theorem scopeOf?_module : r.scopeOf? t.id = some ⟨0⟩ := by
  rw [hAccounts.scopeOf?_eq_some_iff hResolved, hAccounts.opened]
  exact List.mem_cons_self

/-- Every position with a scope but the module has an opening. -/
theorem exists_opening {q : Position} (hQ : q ∈ t.positions .outermost)
    (hScope : q.construct.hasScope = true) (hModule : ∀ name, q.construct ≠ .module name) :
    ∃ o ∈ openings, o.position = q ∧ r.scopeOf? q.id = some o.scope := by
  rw [hResolved.module.positions_eq] at hQ
  rcases List.mem_cons.mp hQ with rfl | hQ
  · obtain ⟨name, hConstruct⟩ := hResolved.module.module
    exact absurd hConstruct (hModule name)
  · have hMem : q ∈ openings.map Opening.position := by
      rw [hAccounts.positions]
      exact List.mem_filter.mpr ⟨hQ, hScope⟩
    obtain ⟨o, hO, rfl⟩ := List.mem_map.mp hMem
    refine ⟨o, hO, rfl, ?_⟩
    rw [hAccounts.scopeOf?_eq_some_iff hResolved, hAccounts.opened]
    exact List.mem_cons_of_mem _ (List.mem_map_of_mem hO)

/-- The scope of every node owns what is declared directly in it. -/
theorem localsOf_eq {q : Position} (hQ : q ∈ t.positions .outermost)
    (hScope : q.construct.hasScope = true) : r.localsOf q.id = q.locals fresh := by
  by_cases hModule : ∃ name, q.construct = .module name
  · -- the functions of a module declare nothing in its scope
    obtain ⟨name, hConstruct⟩ := hModule
    obtain rfl := hResolved.module.eq_of_module hQ hConstruct
    have hEnding : (⟨.outermost, t⟩ : Position).ending = Context.outermost.afterAll t.children := by
      simp [Position.ending, hConstruct]
    rw [Outcome.localsOf, Position.locals, Position.declaredInside, hEnding,
      Context.afterAll_eq _ fun s hS => Construct.bindsInBlock_eq_false_of_isFunction
        (hResolved.module.isFunction_of_mem_children hS)]
    show ((r.scopeOf? t.id).map r.scopes.owned).getD [] = []
    rw [hAccounts.scopeOf?_module hResolved]
    exact hAccounts.module.1
  · rw [not_exists] at hModule
    obtain ⟨o, hO, rfl, hFound⟩ := hAccounts.exists_opening hResolved hQ hScope hModule
    rw [Outcome.localsOf, hFound]
    exact (hAccounts.stands o hO).locals

/-- A node other than the function of a closure has its scope in that of the node around it. -/
theorem scopeAround?_of_mem {s : Tree} {around : NodeId}
    (hMem : (s, around) ∈ Tree.scopeNodesAll t.id t.children)
    (hClosure : s.construct.isClosureFunction = false) :
    ∃ outer, r.scopeOf? around = some outer ∧ r.scopeAround? s.id = some outer := by
  obtain ⟨inner, outer, hInner, hOuter, hParent⟩ := hAccounts.nested _ hMem hClosure
  have hScope : r.scopeOf? s.id = some inner := by
    rw [hAccounts.scopeOf?_eq_some_iff hResolved, hAccounts.opened]
    exact List.mem_cons_of_mem _ hInner
  refine ⟨outer, (hAccounts.scopeOf?_eq_some_iff hResolved).mpr hOuter, ?_⟩
  rw [Outcome.scopeAround?, hScope]
  exact hParent

/-- The scope of a closure lies in an environment that belongs to it alone. -/
theorem exists_environment {q : Position} (hQ : q ∈ t.positions .outermost)
    (hClosure : q.construct.isClosureFunction = true) :
    ∃ environment, r.scopeAround? q.id = some environment ∧
      r.scopes.parent? environment = none ∧
      (∀ node, r.scopeOf? node ≠ some environment) ∧
      (∀ node, r.scopeAround? node = some environment → node = q.id) ∧
      r.scopes.owned environment = q.environment fresh q.captures := by
  have hFunction := Construct.isFunction_of_isClosureFunction hClosure
  obtain ⟨o, hO, rfl, hFound⟩ := hAccounts.exists_opening hResolved hQ
    (Construct.hasScope_of_isFunction hFunction) (by
      rintro name hConstruct
      rw [hConstruct] at hFunction
      cases hFunction)
  obtain ⟨environment, hEnvironment, hParent, hAlone, hOwned⟩ :=
    (hAccounts.stands o hO).closure hClosure
  have hAround : r.scopeAround? o.position.id = some environment := by
    rw [Outcome.scopeAround?, hFound]
    exact hParent
  have hNoScope : ∀ node, r.scopeOf? node ≠ some environment := fun node hScope =>
    hAccounts.environment_not_mem hO hEnvironment node
      ((hAccounts.scopeOf?_eq_some_iff hResolved).mp hScope)
  refine ⟨environment, hAround, hAlone, hNoScope, ?_, hOwned⟩
  intro node hNode
  obtain ⟨scope, hScope, hInside⟩ := Option.bind_eq_some_iff.mp hNode
  have hMem := (hAccounts.scopeOf?_eq_some_iff hResolved).mp hScope
  rw [hAccounts.opened] at hMem
  rcases List.mem_cons.mp hMem with hMem | hMem
  · -- the scope of the module lies in no other one
    rw [(Prod.mk.inj hMem).2, hAccounts.module.2] at hInside
    cases hInside
  · obtain ⟨other, hOther, hEntry⟩ := List.mem_map.mp hMem
    obtain ⟨rfl, rfl⟩ := Prod.mk.inj hEntry
    cases hKind : other.position.construct.isClosureFunction with
    | true =>
      -- another closure lies in its own environment, and that was opened for it alone
      obtain ⟨its, hIts, hItsParent, -, -⟩ := (hAccounts.stands other hOther).closure hKind
      rw [hInside] at hItsParent
      obtain rfl := Option.some.inj hItsParent
      rw [hAccounts.eq_of_mem_scopes hOther hO (Opening.environment_mem_scopes hIts)
        (Opening.environment_mem_scopes hEnvironment)]
    | false =>
      -- everything else lies in the scope of a node
      obtain ⟨around, hAmong⟩ := hAccounts.exists_around hOther
      obtain ⟨outer, hOuter, hSame⟩ :=
        hAccounts.scopeAround?_of_mem hResolved hAmong hKind
      obtain rfl := Option.some.inj (hNode.symm.trans hSame)
      exact absurd hOuter (hNoScope around)

end Module

end Outcome.Accounts

/-! ### All scopes -/

/-- The scopes of an outcome lie in each other as the nodes of the module do, and own what is
declared directly in them; what has no name in the program has a reserved one. -/
theorem IsResolved.scopes_nest {options : Options} {f : Forest} {t : Tree} {r : Outcome}
    (hResolved : IsResolved options f t r) :
    ∃ fresh : NodeId → String,
      (∀ q ∈ t.positions .outermost, q.construct.hasTemporary = true →
        isReserved (fresh q.id) = true) ∧ r.Nests t fresh := by
  obtain ⟨fresh, openings, hAccounts⟩ := hResolved.exists_accounts
  have hListed : ∀ {node scope}, r.scopeOf? node = some scope ↔ (node, scope) ∈ r.opened :=
    hAccounts.scopeOf?_eq_some_iff hResolved
  refine ⟨fresh, hAccounts.reserved, ?_⟩
  exact {
    defined := by
      intro node
      have hNodes : (∃ scope, r.scopeOf? node = some scope) ↔ node ∈ r.opened.map Prod.fst := by
        simp [hListed]
      rw [hNodes, hAccounts.map_fst_opened hResolved, List.mem_map]
      constructor
      · rintro ⟨q, hQ, rfl⟩
        obtain ⟨hMem, hScope⟩ := List.mem_filter.mp hQ
        exact ⟨q.tree, IsResolved.mem_subtrees hMem, rfl, hScope⟩
      · rintro ⟨s, hS, rfl, hScope⟩
        obtain ⟨q, hQ, rfl⟩ := List.mem_map.mp ((Tree.perm_subtrees t .outermost).mem_iff.mpr hS)
        exact ⟨q, List.mem_filter.mpr ⟨hQ, hScope⟩, rfl⟩
    injective := fun node other scope hNode hOther =>
      hAccounts.eq_of_mem_opened (hListed.mp hNode) (hListed.mp hOther)
    module := ⟨⟨0⟩, hAccounts.scopeOf?_module hResolved, hAccounts.module⟩
    nested := by
      intro q hQ hKind
      have hOther : q.construct.hasScope = true ∧ q.construct.isClosureFunction = false ∧
          ∀ name, q.construct ≠ .module name := by
        rcases hKind with hBlock | ⟨name, hConstruct⟩
        · cases hConstruct : q.construct <;> rw [hConstruct] at hBlock <;> cases hBlock
          exact ⟨rfl, rfl, by simp⟩
        · rw [hConstruct]
          exact ⟨rfl, rfl, by simp⟩
      obtain ⟨o, hO, rfl, -⟩ := hAccounts.exists_opening hResolved hQ hOther.1 hOther.2.2
      obtain ⟨around, hAmong⟩ := hAccounts.exists_around hO
      obtain ⟨outer, hOuter, hAround⟩ :=
        hAccounts.scopeAround?_of_mem hResolved hAmong hOther.2.1
      exact ⟨around, outer, hAmong, hOuter, hAround⟩
    named := by
      intro q hQ hNamed
      obtain ⟨F, hF, rfl⟩ := hResolved.module.eq_of_isNamedFunction hQ hNamed
      have hFunction := hResolved.module.isFunction_of_mem_children hF
      have hAmong : (F, t.id) ∈ Tree.scopeNodesAll t.id t.children := by
        rw [Tree.scopeNodesAll_eq_flatMap]
        refine List.mem_flatMap.mpr ⟨F, hF, ?_⟩
        exact F.mem_scopeNodes_self t.id (Construct.hasScope_of_isFunction hFunction)
      have hPlain : F.construct.isClosureFunction = false := by
        cases hKind : F.construct.isClosureFunction with
        | false => rfl
        | true =>
            have hNot := Construct.isNamedFunction_eq_false_of_isClosureFunction hKind
            exact absurd (hNamed.symm.trans hNot) (by simp)
      obtain ⟨outer, hOuter, hAround⟩ := hAccounts.scopeAround?_of_mem hResolved hAmong hPlain
      exact hAround.trans hOuter.symm
    closure := by
      intro q hQ hClosure
      obtain ⟨environment, hAround, hAlone, hNoScope, hOnly, hOwned⟩ :=
        hAccounts.exists_environment hResolved hQ hClosure
      obtain ⟨name, hLayout⟩ := hResolved.exists_layoutOf? hQ
        (Construct.isFunction_of_isClosureFunction hClosure)
      exact ⟨environment, q.layout name, hAround, hAlone, hNoScope, hOnly, hLayout, hOwned⟩
    locals := fun q hQ hScope => hAccounts.localsOf_eq hResolved hQ hScope }

/-- A module whose function declares a name, declares it again when it takes its parameter apart, and
returns a closure from a loop over its parameter. -/
def loopForest : Forest where
  nodes := #[
    ⟨.module "m", .synthetic, none, none, [⟨1⟩]⟩,
    ⟨.function "f" ["xs"] false, .synthetic, none, some ⟨0⟩, [⟨2⟩]⟩,
    ⟨.block, .synthetic, none, some ⟨1⟩, [⟨3⟩, ⟨5⟩, ⟨7⟩]⟩,
    ⟨.declaration "a" .constant, .synthetic, none, some ⟨2⟩, [⟨4⟩]⟩,
    ⟨.constant .null, .synthetic, none, some ⟨3⟩, []⟩,
    ⟨.destructuring ["b", "a"] .mutable, .synthetic, none, some ⟨2⟩, [⟨6⟩]⟩,
    ⟨.reference "xs", .synthetic, none, some ⟨5⟩, []⟩,
    ⟨.iteration "x", .synthetic, none, some ⟨2⟩, [⟨8⟩, ⟨9⟩]⟩,
    ⟨.reference "xs", .synthetic, none, some ⟨7⟩, []⟩,
    ⟨.block, .synthetic, none, some ⟨7⟩, [⟨10⟩]⟩,
    ⟨.returning, .synthetic, none, some ⟨9⟩, [⟨11⟩]⟩,
    ⟨.closure, .synthetic, none, some ⟨10⟩, [⟨12⟩]⟩,
    ⟨.function "" ["y"] true, .synthetic, none, some ⟨11⟩, [⟨13⟩]⟩,
    ⟨.block, .synthetic, none, some ⟨12⟩, [⟨14⟩]⟩,
    ⟨.returning, .synthetic, none, some ⟨13⟩, [⟨15⟩]⟩,
    ⟨.binary .plus, .synthetic, none, some ⟨14⟩, [⟨16⟩, ⟨17⟩]⟩,
    ⟨.reference "y", .synthetic, none, some ⟨15⟩, []⟩,
    ⟨.reference "a", .synthetic, none, some ⟨15⟩, []⟩]
  root := some ⟨0⟩

/-- The tree of this module. -/
def loopTree : Tree :=
  loopForest.rootTree?.get (by decide +kernel)

/-- The outcome of this module. -/
def loopOutcome : Outcome :=
  (resolve ⟨[]⟩ loopForest).toOption.get (by decide +kernel)

theorem loopOutcome_isResolved : IsResolved ⟨[]⟩ loopForest loopTree loopOutcome where
  root := by rw [loopTree, Option.some_get]
  module :=
    { shape := by decide +kernel
      names := by decide +kernel
      module := ⟨"m", by decide +kernel⟩ }
  distinct := by decide +kernel
  resolved := eq_ok_get _

/-- The scopes of this outcome: the block declares the name in its old place, and the environment of
the closure marks it. -/
theorem scopes_nest_loopOutcome :
    (∃ fresh : NodeId → String,
      (∀ q ∈ loopTree.positions .outermost, q.construct.hasTemporary = true →
        isReserved (fresh q.id) = true) ∧ loopOutcome.Nests loopTree fresh) ∧
    loopOutcome.localsOf ⟨2⟩ =
      [⟨"a", .mutable, some 4, false⟩, ⟨"__$$_m_f_destruct_0", .constant, some 2, false⟩,
        ⟨"b", .mutable, some 3, false⟩] ∧
    ((loopOutcome.scopeAround? ⟨12⟩).map loopOutcome.scopes.owned).getD [] =
      [⟨"xs", .constant, some 0, false⟩, ⟨"a", .mutable, some 1, true⟩,
        ⟨"__$$_m_f_destruct_0", .constant, some 2, false⟩, ⟨"b", .mutable, some 3, false⟩,
        ⟨"__$$_m_f_foreach_1", .constant, some 4, false⟩, ⟨"x", .mutable, some 5, false⟩] :=
  ⟨loopOutcome_isResolved.scopes_nest, by decide +kernel, by decide +kernel⟩

end LateBinding.Resolution
