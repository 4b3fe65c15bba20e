import LateBinding.Proofs.Class.Overload

/-!
# Acceptance and specificity

What a parameter takes and what it lies above are one relation: a parameter takes arguments of a type
exactly if it lies above the parameter that asks for this type.  So what a method takes, the methods
above it take.  A method that asks for exactly the types of the arguments lies below everything that
takes them, and a call runs it whatever other overloads there are.

* `accepts_iff_below` - acceptance, said by the order of parameters.
* `Sound.below_trans`, `Sound.isBelow_trans` - the order of parameters and of methods is transitive.
* `Sound.takes_of_isBelow` - acceptance goes up in the order.
* `types_and_parameters_are_ordered` - assignability and specificity are partial orders.
* `exists_isVisible` - of the methods of a name with certain parameters along a lineage, the nearest
  is visible.
* `isBelow_of_isApplicable` - a method of exactly the types of the arguments lies below every
  applicable method.
* `chooseMethod_exact` - it is the one that is run.
-/

namespace LateBinding.Class.Registry

/-- A parameter takes a type exactly if it lies above the parameter that asks for the type. -/
theorem accepts_iff_below (r : Registry) (p : Param) (t : Tag) :
    r.accepts p t = true ↔ (Param.exact t).Below r p := by
  rw [← isNarrower_iff_below]
  cases p with
  | any => exact iff_of_true rfl rfl
  | exact target => exact Iff.rfl

/-! ### The order of methods -/

theorem below_refl (r : Registry) (p : Param) : p.Below r p := by
  cases p with
  | any => exact .any _
  | exact t => exact .exact (r.isAssignable_refl t)

theorem Sound.below_trans {r : Registry} (hSound : r.Sound) {p q s : Param}
    (hPQ : p.Below r q) (hQS : q.Below r s) : p.Below r s := by
  cases hQS with
  | any => exact .any p
  | exact hMore =>
      cases hPQ with
      | exact hAssignable => exact .exact (hSound.isAssignable_trans hAssignable hMore)

theorem isBelow_refl (r : Registry) (m : Method) : r.IsBelow m m :=
  List.forall₂_same.mpr fun p _ => r.below_refl p

theorem Sound.isBelow_trans {r : Registry} (hSound : r.Sound) {m n o : Method}
    (hMN : r.IsBelow m n) (hNO : r.IsBelow n o) : r.IsBelow m o := by
  unfold IsBelow at hMN hNO ⊢
  generalize m.params = ps at hMN ⊢
  generalize n.params = qs at hMN hNO
  generalize o.params = ss at hNO ⊢
  induction hMN generalizing ss with
  | nil => exact hNO
  | cons hHead _ ih =>
      cases hNO with
      | cons hNext hRest => exact .cons (hSound.below_trans hHead hNext) (ih _ hRest)

/-- What the parameters of a method take, those of a method above it take. -/
theorem Sound.takes_of_isBelow {r : Registry} (hSound : r.Sound) {m n : Method}
    (hMN : r.IsBelow m n) {args : List Tag} (hTakes : r.takes args m = true) :
    r.takes args n = true := by
  unfold IsBelow at hMN
  unfold takes at hTakes ⊢
  generalize m.params = ps at hMN hTakes
  generalize n.params = qs at hMN ⊢
  induction hMN generalizing args with
  | nil => rfl
  | @cons p q _ _ hHead _ ih =>
      cases args with
      | nil => rfl
      | cons arg rest =>
          simp only [List.zip_cons_cons, List.all_cons, Bool.and_eq_true] at hTakes ⊢
          obtain ⟨hFirst, hRest⟩ := hTakes
          refine ⟨?_, ih hRest⟩
          rw [accepts_iff_below] at hFirst ⊢
          exact hSound.below_trans hFirst hHead

/-- **Types are ordered, and with them parameters.**  In every registry that registrations can make,
assignability is a partial order of all types, also of those whose classes are not registered.  So to be
more specific is a partial order of the parameter lists of one length, in which a parameter that takes
anything lies strictly above one that asks for a type; and a method takes all arguments that a more
specific method with as many parameters takes. -/
theorem types_and_parameters_are_ordered (registrations : List Registration) :
    let r := build registrations
    ((∀ a, r.isAssignable a a = true) ∧
      (∀ a b c, r.isAssignable a b = true → r.isAssignable b c = true →
        r.isAssignable a c = true) ∧
      ∀ a b, r.isAssignable a b = true → r.isAssignable b a = true → a = b) ∧
    ((∀ m, r.isMoreSpecific m m = true) ∧
      (∀ m n o, m.arity = n.arity → n.arity = o.arity → r.isMoreSpecific m n = true →
        r.isMoreSpecific n o = true → r.isMoreSpecific m o = true) ∧
      ∀ m n, m.arity = n.arity → r.isMoreSpecific m n = true → r.isMoreSpecific n m = true →
        m.params = n.params) ∧
    (∀ t, r.isNarrower (.exact t) .any = true ∧ r.isNarrower .any (.exact t) = false) ∧
    ∀ m n, m.arity = n.arity → r.isMoreSpecific m n = true →
      ∀ args, r.takes args m = true → r.takes args n = true := by
  intro r
  have hSound : r.Sound := sound_build registrations
  refine ⟨⟨r.isAssignable_refl, fun _ _ _ => hSound.isAssignable_trans,
    fun _ _ => hSound.isAssignable_antisymm⟩, ⟨?_, ?_, ?_⟩, fun _ => ⟨rfl, rfl⟩, ?_⟩
  · intro m
    exact (r.isMoreSpecific_iff_isBelow rfl).mpr (r.isBelow_refl m)
  · intro m n o hMN hNO
    rw [r.isMoreSpecific_iff_isBelow hMN, r.isMoreSpecific_iff_isBelow hNO,
      r.isMoreSpecific_iff_isBelow (hMN.trans hNO)]
    exact hSound.isBelow_trans
  · intro m n hArity
    rw [r.isMoreSpecific_iff_isBelow hArity, r.isMoreSpecific_iff_isBelow hArity.symm]
    exact hSound.params_eq_of_isBelow
  · intro m n hArity hMore args
    exact hSound.takes_of_isBelow ((r.isMoreSpecific_iff_isBelow hArity).mp hMore)

/-! ### Exact overloads -/

/-- Whether a type declares a name with certain parameters. -/
def declares (r : Registry) (name : String) (params : List Param) (t : Tag) : Bool :=
  (r.declared t).any fun m => m.name = name && m.params = params

theorem declares_iff (r : Registry) (name : String) (params : List Param) (t : Tag) :
    r.declares name params t = true ↔ ∃ m ∈ r.declared t, m.name = name ∧ m.params = params := by
  simp [declares, List.any_eq_true]

/-- If a name is declared with certain parameters along a lineage, a receiver has such a method. -/
theorem exists_isVisible {r : Registry} {receiver : Tag} {name : String} {params : List Param}
    (hDeclared : ∃ t ∈ r.lineage receiver, ∃ m ∈ r.declared t,
      m.name = name ∧ m.params = params) :
    ∃ m, r.IsVisible receiver name params.length m ∧ m.params = params := by
  simp only [← declares_iff] at hDeclared
  -- the nearest type that declares such a method
  obtain ⟨nearest, hNearest⟩ := Option.isSome_iff_exists.mp (List.find?_isSome.mpr hDeclared)
  obtain ⟨hHas, nearer, farther, hLineage, hNearer⟩ := List.find?_eq_some_iff_append.mp hNearest
  obtain ⟨m, hM, hName, hParams⟩ := (r.declares_iff name params nearest).mp hHas
  obtain rfl : m.receiver = nearest := ((mem_declared_iff r nearest m).mp hM).2
  refine ⟨m, ⟨hName, congrArg List.length hParams, nearer, farther, hLineage, hM, ?_⟩, hParams⟩
  rintro t hT n hN ⟨hNameN, hParamsN⟩
  have hNot := hNearer t hT
  rw [(r.declares_iff name params t).mpr ⟨n, hN, hNameN, hParamsN.trans hParams⟩] at hNot
  cases hNot

variable {r : Registry} {name : String} {receiver : Tag} {args : List Tag} {m n : Method}

/-- A visible method of exactly the types of the arguments is applicable. -/
theorem isApplicable_of_exact (hVisible : r.IsVisible receiver name args.length m)
    (hParams : m.params = args.map .exact) : r.IsApplicable name receiver args m := by
  refine ⟨hVisible, ?_⟩
  rw [hParams, List.forall₂_map_left_iff, List.forall₂_same]
  exact fun t _ => r.isAssignable_refl t

/-- A method of exactly the types of the arguments lies below every applicable one. -/
theorem isBelow_of_isApplicable (hParams : m.params = args.map .exact)
    (hN : r.IsApplicable name receiver args n) : r.IsBelow m n := by
  rw [IsBelow, hParams, List.forall₂_map_left_iff]
  exact (hN.2.imp fun p t => (r.accepts_iff_below p t).mp).flip

/-- **An exact overload always wins.**  In every registry that registrations can make, if some type
of the receiver's lineage declares a method of the name that asks for exactly the types of the
arguments, then a call is neither refused nor ambiguous, whatever else is declared: it runs such a
method, the one that is declared nearest. -/
theorem chooseMethod_exact (registrations : List Registration) {name : String} {receiver : Tag}
    {args : List Tag}
    (hDeclared : ∃ t ∈ (build registrations).lineage receiver, ∃ m ∈ (build registrations).declared t,
      m.name = name ∧ m.params = args.map .exact) :
    let r := build registrations
    ∃ m nearer farther, r.chooseMethod name (receiver :: args) = .ok m ∧
      (m.name = name ∧ m.params = args.map .exact) ∧
      r.lineage receiver = nearer ++ m.receiver :: farther ∧ m ∈ r.declared m.receiver ∧
      ∀ t ∈ nearer, ∀ n ∈ r.declared t, ¬(n.name = name ∧ n.params = args.map .exact) := by
  intro r
  obtain ⟨m, hVisible, hParams⟩ := exists_isVisible hDeclared
  rw [List.length_map] at hVisible
  have hLeast : r.IsLeastApplicable name receiver args m :=
    ⟨isApplicable_of_exact hVisible hParams, fun n hN => isBelow_of_isApplicable hParams hN⟩
  obtain ⟨hName, -, nearer, farther, hLineage, hM, hNearer⟩ := hVisible
  rw [hParams] at hNearer
  exact ⟨m, nearer, farther, (sound_build registrations).chooseMethod_eq_ok hLeast,
    ⟨hName, hParams⟩, hLineage, hM, hNearer⟩

/-- A class with a superclass, and three overloads of one name: the one of the superclass asks for an
`int`, and those of the class take any number up to a `long`, and anything. -/
def paddings : List Registration :=
  let pad (cls : ClassId) (param : Param) : Registration :=
    .ofMethod ⟨"pad", .object cls, [param], fun _ => .ok .null⟩
  [.ofClass "Animal" none, .ofClass "Dog" (some ⟨0⟩), pad ⟨1⟩ (.exact .long), pad ⟨0⟩ (.exact .int),
    pad ⟨1⟩ .any]

/-- An inherited method that asks for the type of the argument is chosen over nearer ones. -/
theorem chooseMethod_exact_paddings :
    ∃ m, (build paddings).chooseMethod "pad" [.object ⟨1⟩, .int] = .ok m ∧
      m.receiver = .object ⟨0⟩ := by
  obtain ⟨m, nearer, farther, hOutcome, ⟨-, hParams⟩, -, hM, -⟩ :=
    @chooseMethod_exact paddings "pad" (.object ⟨1⟩) [.int]
      ⟨.object ⟨0⟩, by decide, ⟨"pad", .object ⟨0⟩, [.exact .int], fun _ => .ok .null⟩,
        List.mem_singleton.mpr rfl, rfl, rfl⟩
  refine ⟨m, hOutcome, ?_⟩
  have hInherited : ∀ n ∈ (build paddings).methods,
      n.params = [.exact .int] → n.receiver = .object ⟨0⟩ := by decide
  exact hInherited m ((mem_declared_iff _ _ m).mp hM).1 hParams

end LateBinding.Class.Registry
