import Mathlib.Data.List.Induction
import Mathlib.Data.List.Nodup
import LateBinding.Class.Registry

/-!
# Registries that can be made

A registry is made by registering classes and methods one after the other.  A registration that is
refused changes nothing.  This file says once what a registration can do, and derives what holds of
every registry made in this way.

* `Registration`, `Registry.build` - the registrations, and the registry that they make.
* `register_cases`, `attempt_cases` - what a registration does.
* `build_induction` - what every registration keeps holds of every registry that can be made.
* `Registry.Sound` - a class is registered after its superclass, and no method is registered twice
  with the same declaration.  Every registry that can be made is sound (`sound_build`).
* `superclasses_pairwise`, `nodup_lineage` - the way up from a class goes to smaller numbers, so no
  type is met twice on it.
-/

namespace LateBinding.Class

open Dispatch (DispatchError)

/-- What can be registered: a class with its superclass, or a method. -/
inductive Registration where
  | ofClass (name : String) (parent : Option ClassId)
  | ofMethod (m : Method)

namespace Registry

/-- Registers a class or a method. -/
def register (r : Registry) : Registration → Except DispatchError Registry
  | .ofClass name parent => (r.addClass name parent).map Prod.snd
  | .ofMethod m => r.addMethod m

/-- The registry after a registration, which changes nothing if it is refused. -/
def attempt (r : Registry) (g : Registration) : Registry :=
  match r.register g with
  | .ok next => next
  | .error _ => r

/-- The registry that registrations make, the first one first. -/
def build (registrations : List Registration) : Registry :=
  registrations.foldl attempt empty

@[simp] theorem build_append_singleton (gs : List Registration) (g : Registration) :
    build (gs ++ [g]) = (build gs).attempt g := by
  simp [build]

/-- What holds at first and is kept by every registration holds of every registry that can be
made. -/
theorem build_induction {P : Registry → Prop} (hEmpty : P empty)
    (hAttempt : ∀ r g, P r → P (r.attempt g)) (gs : List Registration) : P (build gs) := by
  induction gs using List.reverseRecOn with
  | nil => exact hEmpty
  | append_singleton gs g ih =>
      rw [build_append_singleton]
      exact hAttempt _ g ih

/-- An accepted registration adds a class with a registered superclass, or a method on a type that
is no unregistered class. -/
theorem register_cases {r next : Registry} {g : Registration}
    (hRegister : r.register g = .ok next) :
    (∃ name parent, g = .ofClass name parent ∧
      (∀ p : ClassId, parent = some p → p.index < r.size) ∧
      next = { r with classes := r.classes.push ⟨⟨r.size⟩, name, parent⟩ }) ∨
    (∃ m, g = .ofMethod m ∧
      (∀ cls : ClassId, m.receiver = .object cls → cls.index < r.size) ∧
      next = r.withMethod m) := by
  have hKnown : ∀ {cls : ClassId} {c : Definition}, r.class? cls = some c → cls.index < r.size := by
    intro cls c hClass
    by_contra hNot
    rw [(class?_eq_none_iff r cls).mpr (by omega)] at hClass
    cases hClass
  cases g with
  | ofClass name parent =>
      refine Or.inl ⟨name, parent, rfl, ?_⟩
      cases parent with
      | none =>
          simp only [register, addClass, Except.map, Except.ok.injEq] at hRegister
          exact ⟨by simp, hRegister.symm⟩
      | some p =>
          cases hParent : r.class? p with
          | none => simp [register, addClass, hParent, Except.map] at hRegister
          | some c =>
              simp only [register, addClass, hParent, Except.map, Except.ok.injEq] at hRegister
              refine ⟨?_, hRegister.symm⟩
              rintro _ ⟨rfl⟩
              exact hKnown hParent
  | ofMethod m =>
      refine Or.inr ⟨m, rfl, ?_⟩
      simp only [register, addMethod] at hRegister
      split at hRegister
      · rename_i cls hReceiver
        split at hRegister
        · cases hRegister
        · rename_i c hClass
          refine ⟨?_, (Except.ok.inj hRegister).symm⟩
          intro other hOther
          rw [hReceiver] at hOther
          cases hOther
          exact hKnown hClass
      · rename_i hPrimitive
        exact ⟨fun cls hReceiver => absurd hReceiver (hPrimitive cls),
          (Except.ok.inj hRegister).symm⟩

/-- A registration that is tried changes nothing, or adds a class with a registered superclass, or a
method on a type that is no unregistered class. -/
theorem attempt_cases (r : Registry) (g : Registration) :
    ((∃ e, r.register g = .error e) ∧ r.attempt g = r) ∨
    (∃ name parent, g = .ofClass name parent ∧
      (∀ p : ClassId, parent = some p → p.index < r.size) ∧
      r.attempt g = { r with classes := r.classes.push ⟨⟨r.size⟩, name, parent⟩ }) ∨
    (∃ m, g = .ofMethod m ∧
      (∀ cls : ClassId, m.receiver = .object cls → cls.index < r.size) ∧
      r.attempt g = r.withMethod m) := by
  unfold attempt
  cases hRegister : r.register g with
  | error e => exact Or.inl ⟨⟨e, rfl⟩, rfl⟩
  | ok next => exact Or.inr (register_cases hRegister)

/-! ### Soundness -/

/-- A class is registered after its superclass, and no two methods share type, name and
parameters. -/
structure Sound (r : Registry) : Prop where
  parent_lt : ∀ id c parent, r.class? id = some c → c.parent = some parent →
    parent.index < id.index
  distinct : r.methods.Pairwise fun m n => sameDeclaration m n = false

theorem sound_empty : empty.Sound where
  parent_lt := by
    intro id c parent hClass
    simp [empty, class?] at hClass
  distinct := List.Pairwise.nil

/-- A class registered last has the greatest number. -/
theorem Sound.addClass {r : Registry} (hSound : r.Sound) (name : String) {parent : Option ClassId}
    (hParent : ∀ p : ClassId, parent = some p → p.index < r.size) :
    Sound { r with classes := r.classes.push ⟨⟨r.size⟩, name, parent⟩ } where
  parent_lt := by
    intro id c p hClass hSome
    simp only [class?, Array.getElem?_push] at hClass
    split at hClass
    · rename_i hLast
      cases hClass
      rw [hLast]
      exact hParent p hSome
    · exact hSound.parent_lt id c p hClass hSome
  distinct := hSound.distinct

/-- A method takes the place of the one with the same declaration. -/
theorem Sound.withMethod {r : Registry} (hSound : r.Sound) (m : Method) :
    (r.withMethod m).Sound where
  parent_lt := hSound.parent_lt
  distinct := by
    refine List.pairwise_append.mpr ⟨hSound.distinct.filter _, List.pairwise_singleton _ _, ?_⟩
    intro n hMem other hOther
    obtain rfl := List.mem_singleton.mp hOther
    simpa using (List.mem_filter.mp hMem).2

/-- A registration keeps a registry sound. -/
theorem Sound.attempt {r : Registry} (hSound : r.Sound) (g : Registration) :
    (r.attempt g).Sound := by
  rcases r.attempt_cases g with
    ⟨-, hNext⟩ | ⟨name, parent, -, hParent, hNext⟩ | ⟨m, -, -, hNext⟩ <;> rw [hNext]
  · exact hSound
  · exact hSound.addClass name hParent
  · exact hSound.withMethod m

/-- Every registry that can be made is sound. -/
theorem sound_build (registrations : List Registration) : (build registrations).Sound :=
  build_induction sound_empty (fun _ g hSound => hSound.attempt g) registrations

/-! ### The way up from a type -/

/-- A superclass has a smaller number. -/
theorem Sound.index_lt {r : Registry} (hSound : r.Sound) {cls parent : ClassId}
    (hParent : (r.class? cls).bind Definition.parent = some parent) :
    parent.index < cls.index := by
  obtain ⟨c, hClass, hSome⟩ := Option.bind_eq_some_iff.mp hParent
  exact hSound.parent_lt cls c parent hClass hSome

/-- Classes met on the way up have smaller numbers. -/
theorem Sound.climb_pairwise {r : Registry} (hSound : r.Sound) (steps : Nat) (cls : ClassId) :
    (∀ above ∈ r.climb steps cls, above.index ≤ cls.index) ∧
      (r.climb steps cls).Pairwise fun a b => b.index < a.index := by
  induction steps generalizing cls with
  | zero => simp [climb]
  | succ steps ih =>
      rw [climb]
      cases hParent : (r.class? cls).bind Definition.parent with
      | none => simp
      | some parent =>
          have hLt := hSound.index_lt hParent
          obtain ⟨hBelow, hPairwise⟩ := ih parent
          constructor
          · intro above hMem
            rcases List.mem_cons.mp hMem with rfl | hMem
            · exact Nat.le_refl _
            · have hLe := hBelow above hMem
              omega
          · refine List.pairwise_cons.mpr ⟨?_, hPairwise⟩
            intro above hMem
            have hLe := hBelow above hMem
            omega

/-- A superclass has no greater number. -/
theorem Sound.index_le_of_isSubclass {r : Registry} (hSound : r.Sound) {cls ancestor : ClassId}
    (hSubclass : r.isSubclass cls ancestor = true) : ancestor.index ≤ cls.index := by
  have hMem : ancestor ∈ r.superclasses cls := by
    simpa [isSubclass, distance?, Option.isSome_iff_ne_none] using hSubclass
  exact (hSound.climb_pairwise _ cls).1 ancestor hMem

/-- No class is met twice on the way up. -/
theorem Sound.nodup_superclasses {r : Registry} (hSound : r.Sound) (cls : ClassId) :
    (r.superclasses cls).Nodup := by
  refine ((hSound.climb_pairwise _ cls).2).imp ?_
  rintro a b hLt rfl
  exact Nat.lt_irrefl _ hLt

/-- No type is met twice on the way up. -/
theorem Sound.nodup_lineage {r : Registry} (hSound : r.Sound) (t : Tag) : (r.lineage t).Nodup := by
  unfold lineage
  split
  · rename_i cls
    refine (hSound.nodup_superclasses cls).map ?_
    intro a b hSame
    exact Tag.object.inj hSame
  · exact List.nodup_singleton _

end Registry

end LateBinding.Class
