import LateBinding.Proofs.Resolution.Induction
import LateBinding.Proofs.Resolution.Walk

/-!
# Resolving decides lexical scope

A well-formed module resolves exactly if every position of it satisfies the rules of lexical scope,
and otherwise the error is what is wrong with the first position, in the order in which a program is
read, that does not.

* `reflects_atModule`, `follows_moduleTree` - the walk through a module.
* `resolve_lexical` - resolving, said by the positions; `nestedForest` - a module with closures.
-/

namespace LateBinding.Resolution

open Lexical (Context Declaration Position)
open Scope (Binding ScopeId)
open FreshName (isReserved)

/-! ### The walk through a module -/

/-- At the beginning nothing is declared. -/
theorem reflects_atModule (id : NodeId) (name : String) :
    Reflects Context.outermost (Progress.atModule id name) ⟨0⟩ := by
  have hSound : (Progress.atModule id name).scopes.Sound := by
    apply Scope.Store.sound_push Scope.Store.sound_empty (Scope.Table.indexed_empty none)
    intro parent hParent
    cases hParent
  have hSize : (Progress.atModule id name).scopes.size = 1 := rfl
  have hOwned : ∀ scope : ScopeId, (Progress.atModule id name).scopes.owned scope = [] := by
    intro scope
    by_cases hRoot : scope = ⟨0⟩
    · subst hRoot
      rfl
    · have hNone : (Progress.atModule id name).scopes.table? scope = none := by
        rw [Scope.Store.table?_eq_none_iff, hSize]
        have hIndex : scope.index ≠ 0 := fun h => hRoot (by cases scope; simpa using h)
        omega
      rw [Scope.Store.owned, hNone]
      rfl
  have hVisible : (Progress.atModule id name).scopes.visible ⟨0⟩ = [] := by
    rw [hSound.visible_eq (by rw [hSize]; exact Nat.zero_lt_one), hOwned]
    rfl
  exact {
    sound := hSound
    known := by
      rw [hSize]
      exact Nat.zero_lt_one
    fresh := by
      intro scope b hMem
      rw [hOwned] at hMem
      cases hMem
    nested := Context.nested_outermost
    shows := by
      rw [hVisible]
      exact List.Forall₂.nil
    owner := by
      intro other d hLookup
      cases hLookup
    next := rfl
    outside := by
      intro environment hEnvironment
      cases hEnvironment
    marks := by
      intro environment hEnvironment
      cases hEnvironment
    distinct := rfl
    slots := by
      intro k hMem
      cases hMem
    inside := by
      intro hEnvironment
      cases hEnvironment }

/-- The names that exist without a slot in a module. -/
def globalNames (options : Options) (t : Tree) : List String :=
  options.globals ++ functionNames t.children

/-- A name exists without a slot if it is told to the resolution, or if a function of the module has
it, wherever in the module that function stands. -/
theorem mem_globalNames_iff {options : Options} {t : Tree} {name : String} :
    name ∈ globalNames options t ↔ name ∈ options.globals ∨
      ∃ s ∈ t.children, s.construct.functionName? = some name := by
  rw [globalNames, List.mem_append, mem_functionNames_iff]

/-- The walk through a module follows its positions, and records what they say. -/
theorem follows_moduleTree (options : Options) {t : Tree} (hModule : t.IsModule) :
    Follows (globalNames options t) (t.positions .outermost) (moduleTree options t) fun p =>
      p.slots.toList = (t.positions .outermost).filterMap Position.record? ∧
      (p.layouts.toList.map Position.nameless).Perm
        ((t.positions .outermost).filterMap Position.layout?) := by
  have hFunctions : ∀ s ∈ t.children, s.construct.isFunction = true := fun s hS =>
    Construct.isFunction_of_isNamedFunction (hModule.isNamedFunction_of_mem_children hS)
  obtain ⟨id, node, children⟩ := t
  obtain ⟨name, hConstruct⟩ := hModule.module
  change node.construct = .module name at hConstruct
  have hPositions : (Tree.mk id node children).positions .outermost =
      ⟨.outermost, .mk id node children⟩ :: Tree.positionsAll .outermost children := by
    simp only [Tree.positions, hConstruct]
  have hRecord : (⟨.outermost, .mk id node children⟩ : Position).record? = none := by
    simp [Position.record?, Position.slot?, Position.binding?, hConstruct]
  have hLayout : (⟨.outermost, .mk id node children⟩ : Position).layout? = none := by
    simp [Position.layout?, hConstruct, Construct.isFunction]
  rw [hPositions, List.filterMap_cons_none hRecord, List.filterMap_cons_none hLayout, moduleTree]
  simp only [hConstruct]
  refine Follows.cons (by simp [Position.fault?, hConstruct, Construct.bindings]) ?_
  refine (follows_moduleFunctions (fun t hMem => hModule.of_mem_children hMem) hFunctions rfl
    (reflects_atModule id name)).imp ?_
  intro p hAdvances
  exact ⟨hAdvances.slots, hAdvances.layouts⟩

/-! ### Resolving -/

section Resolving

variable {options : Options} {f : Forest} {t : Tree} (hRoot : f.rootTree? = some t)
  (hModule : t.IsModule)

include hRoot hModule

/-- Resolving a well-formed module follows its positions, and records what they say. -/
theorem follows_resolve : Follows (globalNames options t) (t.positions .outermost)
    (resolve options f) fun r => ∃ p : Progress,
      r.forest = annotate f ((t.positions .outermost).filterMap Position.record?) p.renamed.toList ∧
      r.layouts = p.layouts.toList ∧
      (r.layouts.map Position.nameless).Perm
        ((t.positions .outermost).filterMap Position.layout?) := by
  rw [resolve, hRoot, ← List.append_nil (t.positions .outermost)]
  refine (follows_moduleTree options hModule).bind ?_
  rintro p ⟨hSlots, hLayouts⟩
  refine follows_ok (by simp) ⟨p, ?_, rfl, ?_⟩
  · rw [List.append_nil, ← hSlots]
  · rw [List.append_nil]
    exact hLayouts

/-- A well-formed module resolves exactly if all its positions satisfy the rules of lexical scope:
each reference is to something declared before in a block around it, or to something global; each
assignment is to something declared in the same function that may be set again; and nothing is
declared under the empty name.  Otherwise the error is what is wrong with the first position that
does not. -/
theorem resolve_lexical :
    ((∃ r, resolve options f = .ok r) ↔
      ∀ q ∈ t.positions .outermost, q.Lawful (globalNames options t)) ∧
    ∀ e, resolve options f = .error e ↔
      ∃ before q after, t.positions .outermost = before ++ q :: after ∧
        (∀ x ∈ before, x.Lawful (globalNames options t)) ∧ ¬ q.Lawful (globalNames options t) ∧
        q.fault? (globalNames options t) = some e := by
  have hFollows := @follows_resolve options f t hRoot hModule
  simp only [Position.lawful_iff]
  unfold Follows at hFollows
  cases hFault : (t.positions .outermost).findSome? (·.fault? (globalNames options t)) with
  | none =>
      rw [hFault] at hFollows
      obtain ⟨r, hResult, -⟩ := hFollows
      rw [List.findSome?_eq_none_iff] at hFault
      refine ⟨iff_of_true ⟨r, hResult⟩ hFault, fun e => ?_⟩
      constructor
      · intro hError
        rw [hResult] at hError
        cases hError
      · rintro ⟨before, q, after, hSplit, -, hNot, -⟩
        exact absurd (hFault q (by rw [hSplit]; simp)) hNot
  | some first =>
      rw [hFault] at hFollows
      obtain ⟨before, q, after, hSplit, hFirst, hBefore⟩ :=
        List.findSome?_eq_some_iff.mp hFault
      constructor
      · constructor
        · rintro ⟨r, hResult⟩
          rw [hFollows] at hResult
          cases hResult
        · intro hAll
          have hNone := hAll q (by rw [hSplit]; simp)
          rw [hFirst] at hNone
          cases hNone
      · intro e
        constructor
        · intro hError
          rw [hFollows] at hError
          cases hError
          exact ⟨before, q, after, hSplit, hBefore, by simp [hFirst], hFirst⟩
        · rintro ⟨before', q', after', hSplit', hBefore', -, hFirst'⟩
          -- the first fault is the one that the list is split at
          have hSame : (t.positions .outermost).findSome? (·.fault? (globalNames options t)) =
              some e := by
            rw [List.findSome?_eq_some_iff]
            exact ⟨before', q', after', hSplit', hFirst', hBefore'⟩
          rw [hFault] at hSame
          cases hSame
          exact hFollows

end Resolving

/-- A module whose function returns a closure that returns a closure. -/
def nestedForest : Forest where
  nodes := #[
    ⟨.module "m", .synthetic, none, none, [⟨1⟩]⟩,
    ⟨.function "scale" ["x"] false, .synthetic, none, some ⟨0⟩, [⟨2⟩]⟩,
    ⟨.block, .synthetic, none, some ⟨1⟩, [⟨3⟩, ⟨5⟩]⟩,
    ⟨.declaration "y" .constant, .synthetic, none, some ⟨2⟩, [⟨4⟩]⟩,
    ⟨.reference "x", .synthetic, none, some ⟨3⟩, []⟩,
    ⟨.returning, .synthetic, none, some ⟨2⟩, [⟨6⟩]⟩,
    ⟨.closure, .synthetic, none, some ⟨5⟩, [⟨7⟩]⟩,
    ⟨.function "" ["z"] true, .synthetic, none, some ⟨6⟩, [⟨8⟩]⟩,
    ⟨.block, .synthetic, none, some ⟨7⟩, [⟨9⟩]⟩,
    ⟨.returning, .synthetic, none, some ⟨8⟩, [⟨10⟩]⟩,
    ⟨.closure, .synthetic, none, some ⟨9⟩, [⟨11⟩]⟩,
    ⟨.function "" [] true, .synthetic, none, some ⟨10⟩, [⟨12⟩]⟩,
    ⟨.block, .synthetic, none, some ⟨11⟩, [⟨13⟩]⟩,
    ⟨.returning, .synthetic, none, some ⟨12⟩, [⟨14⟩]⟩,
    ⟨.binary .plus, .synthetic, none, some ⟨13⟩, [⟨15⟩, ⟨16⟩]⟩,
    ⟨.reference "z", .synthetic, none, some ⟨14⟩, []⟩,
    ⟨.reference "y", .synthetic, none, some ⟨14⟩, []⟩]
  root := some ⟨0⟩

/-- The tree of this module. -/
def nestedTree : Tree :=
  nestedForest.rootTree?.get (by decide +kernel)

theorem rootTree?_nestedForest : nestedForest.rootTree? = some nestedTree := by
  rw [nestedTree, Option.some_get]

theorem nestedTree_isModule : nestedTree.IsModule where
  shape := by decide +kernel
  names := by decide +kernel
  module := ⟨"m", by decide +kernel⟩

/-- The module with the closures resolves. -/
theorem resolve_lexical_nestedForest : nestedForest.rootTree? = some nestedTree ∧
    nestedTree.IsModule ∧ ∃ r, resolve ⟨[]⟩ nestedForest = .ok r := by
  refine ⟨rootTree?_nestedForest, nestedTree_isModule, ?_⟩
  have hLexical :=
    @resolve_lexical ⟨[]⟩ nestedForest nestedTree rootTree?_nestedForest nestedTree_isModule
  apply hLexical.1.mpr
  simp only [Position.lawful_iff]
  decide +kernel

end LateBinding.Resolution
