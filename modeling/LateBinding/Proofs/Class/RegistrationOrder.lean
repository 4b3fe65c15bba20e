import LateBinding.Proofs.Class.Overload

/-!
# The order of registrations does not matter

Types, their names and their order depend on the classes of a registry only, and which methods are
applicable depends in addition on the set of its methods.  So two registries with the same classes
and the same methods choose alike, in whatever order the methods are held: only the list of methods
among which a call is ambiguous follows that order.

* `lineage_congr`, `isAssignable_congr`, `signature_congr`, `isBelow_congr` - what depends on the
  classes only.
* `isApplicable_congr`, `Sound.chooseMethod_congr` - what depends on classes and methods.
* `Registry.accepted`, `classes_foldl_attempt`, `methods_foldl_attempt` - what a run of registrations
  leaves behind, read off the registrations that are accepted in it.
* `chooseMethod_build_perm` - two runs that register the same classes in the same order, and the
  same methods in any order, make registries that choose alike.
-/

namespace LateBinding.Class

open Dispatch (DispatchError)

/-- The class that is registered: its name and its superclass. -/
def Registration.class? : Registration → Option (String × Option ClassId)
  | ofClass name parent => some (name, parent)
  | ofMethod _ => none

/-- The method that is registered. -/
def Registration.method? : Registration → Option Method
  | ofClass _ _ => none
  | ofMethod m => some m

/-- Two outcomes of a choice are the same, but for the order in which a call lists the methods among
which it is ambiguous. -/
inductive SameUpToOrder : Except DispatchError Method → Except DispatchError Method → Prop where
  | same (outcome : Except DispatchError Method) : SameUpToOrder outcome outcome
  | ambiguous {name receiver : String} {first second : List String} (hPerm : first.Perm second) :
      SameUpToOrder (.error (.ambiguous name receiver first))
        (.error (.ambiguous name receiver second))

namespace Registry

/-! ### What depends on the classes only -/

section SameClasses

variable {r s : Registry} (hClasses : r.classes = s.classes)

include hClasses

theorem class?_congr : r.class? = s.class? := by
  funext id
  rw [class?, class?, hClasses]

theorem climb_congr : r.climb = s.climb := by
  funext steps
  induction steps with
  | zero => rfl
  | succ steps ih =>
      funext cls
      rw [climb, climb, ih, class?_congr hClasses]

theorem lineage_congr : r.lineage = s.lineage := by
  funext t
  cases t with
  | object cls => simp only [lineage, superclasses, climb_congr hClasses]
  | _ => rfl

theorem isAssignable_congr : r.isAssignable = s.isAssignable := by
  funext source target
  simp only [isAssignable, isSubclass, distance?, superclasses, climb_congr hClasses]

theorem accepts_congr : r.accepts = s.accepts := by
  funext p t
  cases p with
  | any => rfl
  | exact target => exact congrFun (congrFun (isAssignable_congr hClasses) t) target

theorem typeName_congr : r.typeName = s.typeName := by
  funext t
  cases t with
  | object cls => simp only [typeName, class?_congr hClasses]
  | _ => rfl

theorem signature_congr : r.signature = s.signature := by
  have hParam : r.paramName = s.paramName := by
    funext p
    cases p with
    | any => rfl
    | exact t => exact congrFun (typeName_congr hClasses) t
  funext m
  rw [signature, signature, hParam]

theorem isBelow_congr : r.IsBelow = s.IsBelow := by
  have hBelow : Param.Below r = Param.Below s := by
    funext p q
    rw [← isNarrower_iff_below, ← isNarrower_iff_below]
    cases p <;> cases q <;> simp only [isNarrower, isAssignable_congr hClasses]
  funext m n
  rw [IsBelow, IsBelow, hBelow]

/-! ### What depends on classes and methods -/

variable (hMethods : ∀ m, m ∈ r.methods ↔ m ∈ s.methods)

include hMethods

theorem isApplicable_congr : r.IsApplicable = s.IsApplicable := by
  funext name receiver args m
  simp only [IsApplicable, IsVisible, mem_declared_iff, hMethods, lineage_congr hClasses,
    accepts_congr hClasses]

theorem isLeastApplicable_congr : r.IsLeastApplicable = s.IsLeastApplicable := by
  funext name receiver args m
  simp only [IsLeastApplicable, isApplicable_congr hClasses hMethods, isBelow_congr hClasses]

/-- The applicable methods are the same, in some order. -/
theorem Sound.applicable_perm (hR : r.Sound) (hS : s.Sound) (name : String) (receiver : Tag)
    (args : List Tag) : (r.applicable name receiver args).Perm (s.applicable name receiver args) := by
  rw [List.perm_ext_iff_of_nodup (r.nodup_map_params_applicable name receiver args).of_map
    (s.nodup_map_params_applicable name receiver args).of_map]
  intro m
  rw [hR.mem_applicable_iff_isApplicable, hS.mem_applicable_iff_isApplicable,
    isApplicable_congr hClasses hMethods]

/-- Registries with the same classes and the same methods choose alike. -/
theorem Sound.chooseMethod_congr (hR : r.Sound) (hS : s.Sound) (name : String)
    (signature : List Tag) :
    SameUpToOrder (r.chooseMethod name signature) (s.chooseMethod name signature) := by
  cases signature with
  | nil => exact .same _
  | cons receiver args =>
      have hName : r.typeName receiver = s.typeName receiver :=
        congrFun (typeName_congr hClasses) receiver
      have hApplicable := isApplicable_congr hClasses hMethods
      have hLeast := isLeastApplicable_congr hClasses hMethods
      rcases hR.chooseMethod_cases name receiver args with
        ⟨hNone, hOutcome⟩ | ⟨m, hM, hOutcome⟩ | ⟨hSome, hNoLeast, hOutcome⟩
      · rw [hApplicable] at hNone
        rw [hOutcome, hS.chooseMethod_eq_noSuchMethod hNone, hName]
        exact .same _
      · rw [hLeast] at hM
        rw [hOutcome, hS.chooseMethod_eq_ok hM]
        exact .same _
      · rw [hApplicable] at hSome
        rw [hLeast] at hNoLeast
        rw [hOutcome, hS.chooseMethod_eq_ambiguous hSome hNoLeast, hName,
          signature_congr hClasses]
        exact .ambiguous ((Sound.applicable_perm hClasses hMethods hR hS name receiver args).map _)

end SameClasses

/-! ### What a run leaves behind -/

/-- The registrations of a run that are accepted. -/
def accepted (r : Registry) : List Registration → List Registration
  | [] => []
  | g :: rest =>
      match r.register g with
      | .ok next => g :: next.accepted rest
      | .error _ => r.accepted rest

/-- The classes with one more, which has its place among them as its number. -/
def enrol (classes : Array Definition) (c : String × Option ClassId) : Array Definition :=
  classes.push ⟨⟨classes.size⟩, c.1, c.2⟩

/-- The classes after a run are those that were accepted in it, numbered in their order. -/
theorem classes_foldl_attempt (r : Registry) (gs : List Registration) :
    (gs.foldl attempt r).classes =
      ((r.accepted gs).filterMap Registration.class?).foldl enrol r.classes := by
  induction gs generalizing r with
  | nil => rfl
  | cons g rest ih =>
      rw [List.foldl_cons, accepted, ih, attempt]
      cases hRegister : r.register g with
      | error e => rfl
      | ok next =>
          rcases register_cases hRegister with
            ⟨name, parent, rfl, -, rfl⟩ | ⟨m, rfl, -, rfl⟩ <;> rfl

/-- A method with a declaration of its own is added to the others. -/
theorem methods_withMethod {r : Registry} {m : Method}
    (hOther : ∀ n ∈ r.methods, sameDeclaration n m = false) :
    (r.withMethod m).methods = r.methods ++ [m] := by
  have hKept : r.methods.filter (fun n => !sameDeclaration n m) = r.methods := by
    rw [List.filter_eq_self]
    intro n hN
    rw [hOther n hN, Bool.not_false]
  rw [withMethod, hKept]

/-- The methods after a run are those that were accepted in it, if no two have one declaration. -/
theorem methods_foldl_attempt {r : Registry} {gs : List Registration}
    (hDistinct : (r.methods ++ (r.accepted gs).filterMap Registration.method?).Pairwise fun m n =>
      sameDeclaration m n = false) :
    (gs.foldl attempt r).methods =
      r.methods ++ (r.accepted gs).filterMap Registration.method? := by
  induction gs generalizing r with
  | nil => exact (List.append_nil _).symm
  | cons g rest ih =>
      rw [accepted] at hDistinct
      rw [List.foldl_cons, accepted, attempt]
      cases hRegister : r.register g with
      | error e =>
          rw [hRegister] at hDistinct
          exact ih hDistinct
      | ok next =>
          rw [hRegister] at hDistinct
          rcases register_cases hRegister with ⟨name, parent, rfl, -, rfl⟩ | ⟨m, rfl, -, rfl⟩
          · exact ih hDistinct
          · have hNew : (Registration.ofMethod m).method? = some m := rfl
            simp only [List.filterMap_cons_some hNew] at hDistinct ⊢
            have hOther : ∀ n ∈ r.methods, sameDeclaration n m = false :=
              fun n hN => (List.pairwise_append.mp hDistinct).2.2 n hN m List.mem_cons_self
            rw [List.append_cons, ← methods_withMethod hOther] at hDistinct ⊢
            exact ih hDistinct

theorem classes_build (gs : List Registration) :
    (build gs).classes =
      ((empty.accepted gs).filterMap Registration.class?).foldl enrol #[] :=
  classes_foldl_attempt empty gs

theorem methods_build {gs : List Registration}
    (hDistinct : ((empty.accepted gs).filterMap Registration.method?).Pairwise fun m n =>
      sameDeclaration m n = false) :
    (build gs).methods = (empty.accepted gs).filterMap Registration.method? :=
  methods_foldl_attempt (r := empty) hDistinct

theorem sameDeclaration_comm (m n : Method) : sameDeclaration m n = sameDeclaration n m := by
  simp only [sameDeclaration, eq_comm]

/-- **A choice does not depend on the order of registrations.**  Take two runs in which the same
classes are accepted in the same order, and the same methods in any order, in between the classes as
it may be.  If no two of the methods share type, name and parameters, then for every name and every
list of types the two registries choose alike: the same method, or the same refusal, or ambiguity
among the same signatures, listed in some order. -/
theorem chooseMethod_build_perm {gs hs : List Registration}
    (hClasses : (empty.accepted gs).filterMap Registration.class? =
      (empty.accepted hs).filterMap Registration.class?)
    (hMethods : ((empty.accepted gs).filterMap Registration.method?).Perm
      ((empty.accepted hs).filterMap Registration.method?))
    (hDistinct : ((empty.accepted gs).filterMap Registration.method?).Pairwise fun m n =>
      sameDeclaration m n = false)
    (name : String) (signature : List Tag) :
    SameUpToOrder ((build gs).chooseMethod name signature)
      ((build hs).chooseMethod name signature) := by
  have hDistinct' := hMethods.pairwise hDistinct fun {m n} hApart => by
    rwa [sameDeclaration_comm]
  refine Sound.chooseMethod_congr ?_ ?_ (sound_build gs) (sound_build hs) name signature
  · rw [classes_build, classes_build, hClasses]
  · intro m
    rw [methods_build hDistinct, methods_build hDistinct']
    exact hMethods.mem_iff

/-- Two overloads of one name that are equally specific for two whole numbers, registered for a class
in either order, before and after another class. -/
def picks : List Registration × List Registration :=
  let left : Method := ⟨"pick", .object ⟨0⟩, [.exact .int, .any], fun _ => .ok (.text "left")⟩
  let right : Method := ⟨"pick", .object ⟨0⟩, [.any, .exact .int], fun _ => .ok (.text "right")⟩
  ([.ofClass "List" none, .ofMethod left, .ofMethod right, .ofClass "Set" none],
    [.ofClass "List" none, .ofMethod right, .ofClass "Set" none, .ofMethod left])

/-- A call that is ambiguous in one order of registrations is ambiguous in the other. -/
theorem chooseMethod_build_perm_picks :
    SameUpToOrder
        ((build picks.1).chooseMethod "pick" [.object ⟨0⟩, .int, .int])
        ((build picks.2).chooseMethod "pick" [.object ⟨0⟩, .int, .int]) ∧
      (build picks.1).chooseMethod "pick" [.object ⟨0⟩, .int, .int] =
        .error (.ambiguous "pick" "List" ["pick(int, any)", "pick(any, int)"]) := by
  constructor
  · apply chooseMethod_build_perm
    · rfl
    · exact List.Perm.swap _ _ _
    · decide
  · rfl

end Registry

end LateBinding.Class
