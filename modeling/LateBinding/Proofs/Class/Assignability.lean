import LateBinding.Proofs.Class.Hierarchy

/-!
# The order of types

Whether a value can stand in for one of another type is decided in a few overlapping cases.  Together
they are a partial order of all types, whether their classes are registered or not: numbers below wider
numbers, objects below those of superclasses, and null below texts and objects.

* `Registry.StandsIn`, `isAssignable_iff_standsIn` - the cases, each said once.
* `isAssignable_refl`, `Sound.isAssignable_trans`, `Sound.isAssignable_antisymm` - the order.
-/

namespace LateBinding.Class.Registry

/-- A value can stand in for one of a type if the type is its own or, for an object, that of a
superclass, if it is null and a text or an object is wanted, or if both are numbers and the wanted one is
no narrower. -/
inductive StandsIn (r : Registry) : Tag → Tag → Prop where
  | same (t : Tag) : StandsIn r t t
  | subclass {cls ancestor : ClassId} (hSubclass : r.isSubclass cls ancestor = true) :
      StandsIn r (.object cls) (.object ancestor)
  | nullText : StandsIn r .null .text
  | nullObject (cls : ClassId) : StandsIn r .null (.object cls)
  | widened {source target : Tag} {v w : Width} (hSource : source.width? = some v)
      (hTarget : target.width? = some w) (hRank : v.rank ≤ w.rank) : StandsIn r source target

/-- Every type can stand in for itself. -/
theorem isAssignable_refl (r : Registry) (t : Tag) : r.isAssignable t t = true := by
  simp [isAssignable]

/-- The test says yes in these cases and in no others. -/
theorem isAssignable_iff_standsIn (r : Registry) (source target : Tag) :
    r.isAssignable source target = true ↔ r.StandsIn source target := by
  constructor
  · intro hAssignable
    unfold isAssignable at hAssignable
    rw [Bool.or_eq_true, decide_eq_true_eq] at hAssignable
    rcases hAssignable with rfl | hAssignable
    · exact .same source
    · split at hAssignable
      · exact .subclass hAssignable
      · exact .nullText
      · exact .nullObject _
      · split at hAssignable
        · rename_i v w hSource hTarget
          exact .widened hSource hTarget (of_decide_eq_true hAssignable)
        · cases hAssignable
  · intro hStandsIn
    cases hStandsIn with
    | same => exact r.isAssignable_refl source
    | subclass hSubclass => simp [isAssignable, hSubclass]
    | nullText => rfl
    | nullObject => rfl
    | @widened _ _ v w hSource hTarget hRank =>
        obtain rfl := (source.width?_eq_some_iff v).mp hSource
        obtain rfl := (target.width?_eq_some_iff w).mp hTarget
        cases v <;> cases w <;> simp_all [isAssignable, Tag.ofWidth, Tag.width?, Width.rank]

/-- What stands in for something stands in for whatever this stands in for. -/
theorem Sound.standsIn_trans {r : Registry} (hSound : r.Sound) {a b c : Tag}
    (hAB : r.StandsIn a b) (hBC : r.StandsIn b c) : r.StandsIn a c := by
  cases hAB with
  | same => exact hBC
  | subclass hAB =>
      cases hBC with
      | same => exact .subclass hAB
      | subclass hBC => exact .subclass (hSound.isSubclass_trans hAB hBC)
      | widened hSource => cases hSource
  | nullText =>
      cases hBC with
      | same => exact .nullText
      | widened hSource => cases hSource
  | nullObject cls =>
      cases hBC with
      | same => exact .nullObject cls
      | subclass => exact .nullObject _
      | widened hSource => cases hSource
  | widened hSource hTarget hRank =>
      -- a number stands in for numbers only
      cases hBC with
      | same => exact .widened hSource hTarget hRank
      | subclass => cases hTarget
      | nullText => cases hTarget
      | nullObject => cases hTarget
      | widened hMiddle hEnd hMore =>
          rw [hTarget] at hMiddle
          cases hMiddle
          exact .widened hSource hEnd (Nat.le_trans hRank hMore)

/-- Two types that stand in for each other are one. -/
theorem Sound.standsIn_antisymm {r : Registry} (hSound : r.Sound) {a b : Tag}
    (hAB : r.StandsIn a b) (hBA : r.StandsIn b a) : a = b := by
  cases hAB with
  | same => rfl
  | subclass hAB =>
      cases hBA with
      | same => rfl
      | subclass hBA => rw [hSound.isSubclass_antisymm hAB hBA]
      | widened hSource => cases hSource
  | nullText =>
      cases hBA with
      | widened hSource => cases hSource
  | nullObject =>
      cases hBA with
      | widened hSource => cases hSource
  | @widened _ _ v w hSource hTarget hRank =>
      -- two numbers, neither of which is wider than the other
      cases hBA with
      | same => rfl
      | subclass => cases hSource
      | nullText => cases hSource
      | nullObject => cases hSource
      | widened hTarget' hSource' hBack =>
          rw [hTarget] at hTarget'
          rw [hSource] at hSource'
          cases hTarget'
          cases hSource'
          have hSame : v = w := Width.rank_injective (Nat.le_antisymm hRank hBack)
          rw [(a.width?_eq_some_iff v).mp hSource, (b.width?_eq_some_iff w).mp hTarget, hSame]

theorem Sound.isAssignable_trans {r : Registry} (hSound : r.Sound) {a b c : Tag}
    (hAB : r.isAssignable a b = true) (hBC : r.isAssignable b c = true) :
    r.isAssignable a c = true := by
  rw [isAssignable_iff_standsIn] at hAB hBC ⊢
  exact hSound.standsIn_trans hAB hBC

theorem Sound.isAssignable_antisymm {r : Registry} (hSound : r.Sound) {a b : Tag}
    (hAB : r.isAssignable a b = true) (hBA : r.isAssignable b a = true) : a = b := by
  rw [isAssignable_iff_standsIn] at hAB hBA
  exact hSound.standsIn_antisymm hAB hBA

end LateBinding.Class.Registry
