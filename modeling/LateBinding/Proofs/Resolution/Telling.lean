import LateBinding.Proofs.Lexical.Scopes
import LateBinding.Proofs.Resolution.Walk

/-!
# What the scope of the walk tells

The scope that the walk is in shows one binding for each name that is visible, and owns those of what
was declared in it.  A binding without a name in the program is told by a name for the node that
declares it.  Most steps of the walk touch no table but the environment of the function, and leave
what the scope tells as it is; a declaration adds one binding.

* `Titled`, `Stores` - a binding has the name of a declaration, and is its binding.
* `Tells` - the scope of the walk shows and owns what its context says, under given names.
* `Rests`, `Declares` - steps that declare nothing, and the step that declares one binding;
  `Tells.of_advances`, `Tells.declare` - what the scope tells after them.
-/

namespace LateBinding.Resolution

open Lexical (Context Declaration)
open Scope (Binding ScopeId)
open FreshName (isReserved)

variable {fresh : NodeId → String} {before : Nat} {c next : Context} {p q r : Progress}
  {scope : ScopeId}

/-! ### Bindings under their names -/

/-- A binding has the name of a declaration. -/
structure Titled (fresh : NodeId → String) (b : Binding) (d : Declaration) : Prop where
  written : d.name = b.written?
  title : b.name = d.title fresh

/-- A binding is that of a declaration of the function around a context. -/
structure Stores (fresh : NodeId → String) (c : Context) (b : Binding) (d : Declaration) :
    Prop where
  written : d.name = b.written?
  binding : b = c.bindingOf fresh d

/-- The scope of the walk shows the names that are visible in a context, and owns the bindings of
what was declared in it after a given number of declarations. -/
structure Tells (fresh : NodeId → String) (before : Nat) (c : Context) (p : Progress)
    (scope : ScopeId) : Prop where
  visible : List.Forall₂ (Titled fresh) (p.scopes.visible scope) c.visible
  owned : List.Forall₂ (Stores fresh c) (p.scopes.owned scope)
    ((c.declared.drop before).foldl Lexical.overlay [])
  before_le : before ≤ c.declared.length

/-- Names do not depend on marks. -/
theorem titled_plain_iff {b : Binding} {d : Declaration} :
    Titled fresh b.plain d ↔ Titled fresh b d :=
  ⟨fun hTitled => ⟨hTitled.written, hTitled.title⟩, fun hTitled => ⟨hTitled.written, hTitled.title⟩⟩

/-- Names depend on nothing but names. -/
theorem forall₂_titled_congr {bs other : List Binding} {ds : List Declaration}
    (hNames : other.map Binding.name = bs.map Binding.name)
    (hTitled : List.Forall₂ (Titled fresh) bs ds) : List.Forall₂ (Titled fresh) other ds := by
  induction hTitled generalizing other with
  | nil =>
      rw [List.map_nil, List.map_eq_nil_iff] at hNames
      rw [hNames]
      exact List.Forall₂.nil
  | @cons b d bs ds hHead _ ih =>
      obtain ⟨a, rest, rfl, hName, hRest⟩ := List.map_eq_cons_iff.mp hNames
      refine List.Forall₂.cons ⟨?_, hName.trans hHead.title⟩ (ih hRest)
      rw [hHead.written, Binding.written?, Binding.written?, Binding.isGenerated,
        Binding.isGenerated, hName]

/-- The scope of the walk owns the bindings of the declarations. -/
theorem Tells.owned_eq (hTells : Tells fresh before c p scope) :
    p.scopes.owned scope =
      ((c.declared.drop before).foldl Lexical.overlay []).map (c.bindingOf fresh) := by
  have hAll := hTells.owned
  generalize p.scopes.owned scope = bs at hAll
  generalize (c.declared.drop before).foldl Lexical.overlay [] = ds at hAll
  induction hAll with
  | nil => rfl
  | cons hHead _ ih => rw [List.map_cons, ← ih, hHead.binding]

/-- What the scope tells stays as it is while its own table does not change and nothing is declared
in it. -/
theorem Tells.of_advances (hTells : Tells fresh before c p scope) (hReflects : Reflects c p scope)
    {slots : List (NodeId × Nat)} {captures : List Capture} {layouts : List Layout}
    (hAdvances : Advances scope p slots captures layouts next q)
    (hTable : q.scopes.table? scope = p.scopes.table? scope)
    (hNext : next = { c with made := next.made }) : Tells fresh before next q scope := by
  have hViews : ∀ id : ScopeId, id.index ≤ scope.index → q.scopes.view id = p.scopes.view id := by
    intro id hLe
    by_cases hSame : id = scope
    · subst hSame
      exact Scope.Store.view_congr hTable
    · exact hAdvances.views id (Nat.lt_of_le_of_lt hLe hReflects.known) hSame
  have hVisible := hReflects.sound.map_plain_visible_congr hAdvances.reflects.sound
    hAdvances.size_le hReflects.known hViews
  rw [hNext]
  exact {
    visible := forall₂_congr_plain titled_plain_iff hVisible hTells.visible
    owned := by
      rw [Scope.Store.owned_congr hTable]
      exact hTells.owned.imp fun _ _ hStores => ⟨hStores.written, hStores.binding⟩
    before_le := hTells.before_le }

/-! ### Steps that declare nothing -/

/-- A part of the walk opens nothing and declares nothing: at most there are new marks in the
environment of the function. -/
structure Rests (p q : Progress) : Prop where
  opened : q.opened = p.opened
  size : q.scopes.size = p.scopes.size
  environment : q.frame.environment = p.frame.environment
  tables : ∀ id, p.frame.environment ≠ some id → q.scopes.table? id = p.scopes.table? id

theorem Rests.refl (p : Progress) : Rests p p where
  opened := rfl
  size := rfl
  environment := rfl
  tables := fun _ _ => rfl

theorem Rests.trans (hFirst : Rests p q) (hSecond : Rests q r) : Rests p r where
  opened := hSecond.opened.trans hFirst.opened
  size := hSecond.size.trans hFirst.size
  environment := hSecond.environment.trans hFirst.environment
  tables := by
    intro id hOther
    rw [hSecond.tables id (by rwa [hFirst.environment]), hFirst.tables id hOther]

theorem rests_recordSlot (p : Progress) (id : NodeId) (slot : Nat) : Rests p (p.recordSlot id slot) :=
  { Rests.refl p with opened := rfl }

theorem rests_recordCall (p : Progress) (id : NodeId) (selector : Selector) (arity : Nat)
    (span : Span) : Rests p (p.recordCall id selector arity span) :=
  { Rests.refl p with opened := rfl }

/-- Capturing from the environment marks the environment. -/
theorem rests_capture {environment : ScopeId} (hEnvironment : p.frame.environment = some environment)
    (b : Binding) : Rests p (p.capture environment b) := by
  unfold Progress.capture
  split
  · exact Rests.refl p
  · refine ⟨rfl, Scope.Store.size_setCaptured _ _ _ _, ?_, ?_⟩
    · cases b.slot <;> rfl
    · intro id hOther
      apply Scope.Store.table?_modify_of_ne
      rintro rfl
      exact hOther hEnvironment

theorem rests_use (p : Progress) (scope : ScopeId) (name : String) :
    Rests p (p.use scope name).2 := by
  unfold Progress.use
  split
  · split
    · rename_i hEnvironment
      exact rests_capture hEnvironment _
    · exact Rests.refl p
  · exact Rests.refl p

theorem rests_useAll (p : Progress) (scope : ScopeId) (names : List String) :
    Rests p (p.useAll scope names) := by
  induction names generalizing p with
  | nil => exact Rests.refl p
  | cons name rest ih => exact (rests_use p scope name).trans (ih _)

theorem rests_useAt (p : Progress) (scope : ScopeId) (id : NodeId) (name : String) :
    Rests p (p.useAt scope id name) := by
  have hUse := rests_use p scope name
  unfold Progress.useAt
  split
  · rename_i hFound
    rw [hFound] at hUse
    exact hUse.trans (rests_recordSlot ..)
  · rename_i hFound
    rwa [hFound] at hUse

theorem rests_refer {globals : List String} {id : NodeId} {name : String} {span : Span}
    (hOk : p.refer globals scope id name span = .ok q) : Rests p q := by
  have hUse := rests_use p scope name
  unfold Progress.refer at hOk
  split at hOk
  · rename_i hFound
    rw [hFound] at hUse
    cases hOk
    exact hUse.trans (rests_recordSlot ..)
  · rename_i hFound
    rw [hFound] at hUse
    split at hOk
    · cases hOk
      exact hUse
    · cases hOk

/-! ### Declaring one binding -/

/-- A step declares one binding in a scope and opens nothing. -/
structure Declares (scope : ScopeId) (b : Binding) (p q : Progress) : Prop where
  opened : q.opened = p.opened
  size : q.scopes.size = p.scopes.size
  parent : q.scopes.parent? scope = p.scopes.parent? scope
  owned : q.scopes.owned scope = Scope.Store.overlay (p.scopes.owned scope) b
  visible : (q.scopes.visible scope).map Binding.plain =
    (Scope.Store.overlay (p.scopes.visible scope) b).map Binding.plain

/-- What a declaration that succeeded has declared. -/
theorem Reflects.declares (hReflects : Reflects c p scope) {name : String} {mutability : Mutability}
    {slot : Nat} (hOk : p.declare scope name mutability = .ok (slot, q)) :
    Declares scope ⟨name, mutability, some p.frame.nextSlot, false⟩ p q := by
  have hName : name ≠ "" := by
    rintro rfl
    rw [hReflects.declare_empty] at hOk
    cases hOk
  obtain ⟨store, hDeclare, -, hSize, -, hOwned, hVisible, -⟩ :=
    hReflects.sound.exists_declare hReflects.known
      (b := ⟨name, mutability, some p.frame.nextSlot, false⟩) hName
  have hParent := Scope.Store.parent?_of_declare hDeclare scope
  simp only [Progress.declare, hDeclare] at hOk
  cases hOk
  exact ⟨rfl, hSize, hParent, hOwned, hVisible⟩

/-- After a declaration the scope tells one binding more, in the place of one of its name. -/
theorem Tells.declare (hTells : Tells fresh before c p scope) (hReflects : Reflects c p scope)
    {name : String} {mutability : Mutability}
    (hDeclares : Declares scope ⟨name, mutability, some p.frame.nextSlot, false⟩ p q)
    {written : Option String} (hWritten : written = if isReserved name then none else some name)
    (hFresh : isReserved name = true → ∀ id, ∀ a ∈ p.scopes.owned id, a.name ≠ name)
    {node : NodeId} (hTitle : written.getD (fresh node) = name) (place : Nat) :
    Tells fresh before (c.declare node place written mutability) q scope where
  visible := by
    rw [Context.visible_declare]
    refine forall₂_congr_plain titled_plain_iff hDeclares.visible
      (forall₂_overlay (fun hTitled => hTitled.written) hTells.visible ⟨hWritten, hTitle.symm⟩ ?_)
    intro hReserved a hMem
    obtain ⟨owner, hOwned⟩ := Scope.Store.exists_owned_of_mem_visible hMem
    exact hFresh hReserved owner a hOwned
  owned := by
    rw [hDeclares.owned, Context.declared_declare, List.drop_append_of_le_length hTells.before_le,
      List.foldl_append, List.foldl_cons, List.foldl_nil]
    refine forall₂_overlay (fun hStores => hStores.written)
      (hTells.owned.imp fun _ _ hStores => ⟨hStores.written, hStores.binding⟩) ⟨hWritten, ?_⟩
      (fun hReserved => hFresh hReserved scope)
    -- the slot of the new binding is the one after those given out
    simp [Context.bindingOf, Declaration.title, hTitle, Context.slot, hReflects.next]
  before_le := by
    rw [Context.declared_declare, List.length_append]
    exact Nat.le_add_right_of_le hTells.before_le

end LateBinding.Resolution
