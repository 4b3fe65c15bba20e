import Mathlib.Data.List.Forall2
import Mathlib.Data.List.Nodup
import LateBinding.Class.Overload
import LateBinding.Proofs.Class.Assignability

/-!
# The least applicable method

Which method a call runs is said here without lists of candidates.  A receiver has the methods
declared on its type or above it that no strictly nearer type declares again with the same
parameters; those whose parameters take the arguments are applicable; and the call runs the least of
them, where a method lies below another if every one of its parameters does.

* `Param.Below` - the order of parameters, with `any` at the top.  It is antisymmetric because
  assignability is (`Sound.isAssignable_antisymm`).
* `Registry.IsVisible`, `Registry.IsApplicable`, `Registry.IsLeastApplicable` - the rules.
* `mem_candidates_iff`, `mem_applicable_iff_isApplicable`, `pairwise_applicable` - the lists hold
  what the rules say, the nearest declaration first.
* `Sound.chooseMethod_cases` - the outcomes of a choice, each with the condition under which it is
  the outcome.
* `chooseMethod_build` - in every registry that can be made, the call runs the least applicable
  method, of which there is at most one, and is refused as the rules say if there is none.
-/

namespace LateBinding.Class

open Dispatch (DispatchError)

/-- A parameter lies below another if the other takes anything, or if both take values of one type
and the first type is assignable to the second. -/
inductive Param.Below (r : Registry) : Param → Param → Prop where
  | any (p : Param) : Below r p .any
  | exact {source target : Tag} (hAssignable : r.isAssignable source target = true) :
      Below r (.exact source) (.exact target)

namespace Registry

/-- Every parameter of a method lies below that of another, of which there are as many. -/
def IsBelow (r : Registry) (m n : Method) : Prop :=
  List.Forall₂ (Param.Below r) m.params n.params

/-- A receiver has a method of a name with a number of parameters if the method is declared on a
type of its lineage, and no strictly nearer type declares the name with the same parameters. -/
def IsVisible (r : Registry) (receiver : Tag) (name : String) (arity : Nat) (m : Method) : Prop :=
  m.name = name ∧ m.arity = arity ∧
    ∃ nearer farther, r.lineage receiver = nearer ++ m.receiver :: farther ∧
      m ∈ r.declared m.receiver ∧
      ∀ t ∈ nearer, ∀ n ∈ r.declared t, ¬(n.name = name ∧ n.params = m.params)

/-- A visible method is applicable if each of its parameters takes the argument in its place. -/
def IsApplicable (r : Registry) (name : String) (receiver : Tag) (args : List Tag) (m : Method) :
    Prop :=
  r.IsVisible receiver name args.length m ∧
    List.Forall₂ (fun param arg => r.accepts param arg = true) m.params args

/-- An applicable method below every applicable method. -/
def IsLeastApplicable (r : Registry) (name : String) (receiver : Tag) (args : List Tag)
    (m : Method) : Prop :=
  r.IsApplicable name receiver args m ∧
    ∀ n, r.IsApplicable name receiver args n → r.IsBelow m n

/-! ### The order of parameters -/

/-- Two parameters below each other are the same. -/
theorem Sound.below_antisymm {r : Registry} (hSound : r.Sound) {p q : Param}
    (hPQ : p.Below r q) (hQP : q.Below r p) : p = q := by
  cases hPQ with
  | any p =>
      cases hQP
      rfl
  | exact hAssignable =>
      cases hQP with
      | exact hBack => rw [hSound.isAssignable_antisymm hAssignable hBack]

/-- Two methods below each other have the same parameters. -/
theorem Sound.params_eq_of_isBelow {r : Registry} (hSound : r.Sound) {m n : Method}
    (hMN : r.IsBelow m n) (hNM : r.IsBelow n m) : m.params = n.params := by
  unfold IsBelow at hMN hNM
  generalize m.params = ps at hMN hNM ⊢
  generalize n.params = qs at hMN hNM ⊢
  induction hMN with
  | nil => rfl
  | cons hHead _ ih =>
      cases hNM with
      | cons hBack hRest => rw [hSound.below_antisymm hHead hBack, ih hRest]

theorem isNarrower_iff_below (r : Registry) (p q : Param) :
    r.isNarrower p q = true ↔ p.Below r q := by
  constructor
  · intro hNarrower
    cases q with
    | any => exact .any p
    | exact target =>
        cases p with
        | any => cases hNarrower
        | exact source => exact .exact hNarrower
  · intro hBelow
    cases hBelow with
    | any p => cases p <;> rfl
    | exact hAssignable => exact hAssignable

/-- A test of all pairs of two lists of one length is a relation between the lists. -/
theorem all_zip_iff_forall₂ {α β : Type} (test : α → β → Bool) {as : List α} {bs : List β}
    (hLength : as.length = bs.length) :
    ((as.zip bs).all fun (a, b) => test a b) = true ↔
      List.Forall₂ (fun a b => test a b = true) as bs := by
  rw [List.forall₂_iff_zip, List.all_eq_true]
  constructor
  · exact fun hAll => ⟨hLength, fun {a b} hMem => hAll (a, b) hMem⟩
  · exact fun hPairs pair hMem => hPairs.2 hMem

/-- Methods with as many parameters are compared parameter by parameter. -/
theorem isMoreSpecific_iff_isBelow (r : Registry) {m n : Method} (hArity : m.arity = n.arity) :
    r.isMoreSpecific m n = true ↔ r.IsBelow m n := by
  unfold isMoreSpecific IsBelow
  rw [all_zip_iff_forall₂ r.isNarrower hArity]
  simp only [isNarrower_iff_below]

/-! ### Hiding -/

/-- What one list hides in another is what has the parameters of one of its methods. -/
theorem mem_unhidden_append {first second : List Method} {m : Method} :
    m ∈ unhidden (first ++ second) ↔
      m ∈ unhidden first ∨ m ∈ unhidden second ∧ ∀ n ∈ first, n.params ≠ m.params := by
  induction first with
  | nil => simp [unhidden]
  | cons x rest ih =>
      simp only [List.cons_append, unhidden, List.mem_cons, List.mem_filter, decide_eq_true_eq, ih,
        forall_eq_or_imp]
      constructor
      · rintro (rfl | ⟨hRest | ⟨hSecond, hHides⟩, hNe⟩)
        · exact Or.inl (Or.inl rfl)
        · exact Or.inl (Or.inr ⟨hRest, hNe⟩)
        · exact Or.inr ⟨hSecond, fun h => hNe h.symm, hHides⟩
      · rintro ((rfl | ⟨hRest, hNe⟩) | ⟨hSecond, hNe, hHides⟩)
        · exact Or.inl rfl
        · exact Or.inr ⟨Or.inl hRest, hNe⟩
        · exact Or.inr ⟨Or.inr ⟨hSecond, hHides⟩, fun h => hNe h.symm⟩

/-- Hiding takes methods out and leaves the order. -/
theorem unhidden_sublist (ms : List Method) : (unhidden ms).Sublist ms := by
  induction ms with
  | nil => exact List.Sublist.refl _
  | cons m rest ih => exact (List.filter_sublist.trans ih).cons_cons m

/-- Of the methods with the same parameters only one is left. -/
theorem unhidden_pairwise (ms : List Method) :
    (unhidden ms).Pairwise fun m n => m.params ≠ n.params := by
  induction ms with
  | nil => exact List.Pairwise.nil
  | cons m rest ih =>
      refine List.pairwise_cons.mpr ⟨?_, ih.filter _⟩
      intro n hMem
      have hNe : n.params ≠ m.params := by simpa using (List.mem_filter.mp hMem).2
      exact hNe.symm

/-- Methods with different parameters do not hide each other. -/
theorem unhidden_eq_self {ms : List Method}
    (hDistinct : ms.Pairwise fun m n => m.params ≠ n.params) : unhidden ms = ms := by
  induction ms with
  | nil => rfl
  | cons m rest ih =>
      obtain ⟨hHead, hRest⟩ := List.pairwise_cons.mp hDistinct
      rw [unhidden, ih hRest, List.filter_eq_self.mpr]
      intro n hMem
      simpa using (hHead n hMem).symm

theorem answersTo_iff (name : String) (arity : Nat) (m : Method) :
    answersTo name arity m = true ↔ m.name = name ∧ m.arity = arity := by
  simp [answersTo]

/-- The methods that a type declares for a name have different parameters. -/
theorem Sound.pairwise_declared {r : Registry} (hSound : r.Sound) (t : Tag) (name : String)
    (arity : Nat) :
    ((r.declared t).filter (answersTo name arity)).Pairwise fun m n => m.params ≠ n.params := by
  refine List.Pairwise.imp_of_mem ?_ ((hSound.distinct.filter _).filter _)
  intro m n hM hN hDistinct hParams
  obtain ⟨hDeclaredM, hAnswersM⟩ := List.mem_filter.mp hM
  obtain ⟨hDeclaredN, hAnswersN⟩ := List.mem_filter.mp hN
  have hReceiverM := ((mem_declared_iff r t m).mp hDeclaredM).2
  have hReceiverN := ((mem_declared_iff r t n).mp hDeclaredN).2
  have hNameM := ((answersTo_iff name arity m).mp hAnswersM).1
  have hNameN := ((answersTo_iff name arity n).mp hAnswersN).1
  simp [sameDeclaration, hReceiverM, hReceiverN, hNameM, hNameN, hParams] at hDistinct

/-- The candidates along a list of types are the methods that no nearer type declares again. -/
theorem Sound.mem_unhidden_flatMap {r : Registry} (hSound : r.Sound) (types : List Tag)
    (name : String) (arity : Nat) (m : Method) :
    m ∈ unhidden ((types.flatMap r.declared).filter (answersTo name arity)) ↔
      m.name = name ∧ m.arity = arity ∧
        ∃ nearer farther, types = nearer ++ m.receiver :: farther ∧ m ∈ r.declared m.receiver ∧
          ∀ t ∈ nearer, ∀ n ∈ r.declared t, ¬(n.name = name ∧ n.params = m.params) := by
  induction types with
  | nil => simp [unhidden]
  | cons t rest ih =>
      rw [List.flatMap_cons, List.filter_append, mem_unhidden_append,
        unhidden_eq_self (hSound.pairwise_declared t name arity), ih]
      simp only [List.mem_filter, answersTo_iff]
      constructor
      · rintro (⟨hDeclared, hName, hArity⟩ |
          ⟨⟨hName, hArity, nearer, farther, rfl, hDeclared, hFree⟩, hHides⟩)
        · -- the nearest type declares the method
          obtain rfl := ((mem_declared_iff r t m).mp hDeclared).2
          exact ⟨hName, hArity, [], rest, rfl, hDeclared, by simp⟩
        · refine ⟨hName, hArity, t :: nearer, farther, rfl, hDeclared, ?_⟩
          refine List.forall_mem_cons.mpr ⟨?_, hFree⟩
          rintro n hN ⟨hNameN, hParams⟩
          refine hHides n ⟨hN, hNameN, ?_⟩ hParams
          rw [← hArity, Method.arity, Method.arity, hParams]
      · rintro ⟨hName, hArity, nearer, farther, hTypes, hDeclared, hFree⟩
        cases nearer with
        | nil =>
            obtain ⟨rfl, rfl⟩ := List.cons.inj hTypes
            exact Or.inl ⟨hDeclared, hName, hArity⟩
        | cons nearest nearer =>
            obtain ⟨rfl, rfl⟩ := List.cons.inj hTypes
            obtain ⟨hHead, hFree⟩ := List.forall_mem_cons.mp hFree
            refine Or.inr ⟨⟨hName, hArity, nearer, farther, rfl, hDeclared, hFree⟩, ?_⟩
            rintro n ⟨hN, hNameN, -⟩ hParams
            exact hHead n hN ⟨hNameN, hParams⟩

/-- The candidates are the visible methods. -/
theorem Sound.mem_candidates_iff {r : Registry} (hSound : r.Sound) (receiver : Tag) (name : String)
    (arity : Nat) (m : Method) :
    m ∈ r.candidates receiver name arity ↔ r.IsVisible receiver name arity m :=
  hSound.mem_unhidden_flatMap (r.lineage receiver) name arity m

/-! ### The applicable methods -/

theorem Sound.mem_applicable_iff_isApplicable {r : Registry} (hSound : r.Sound) (name : String)
    (receiver : Tag) (args : List Tag) (m : Method) :
    m ∈ r.applicable name receiver args ↔ r.IsApplicable name receiver args m := by
  rw [mem_applicable_iff, hSound.mem_candidates_iff, IsApplicable]
  refine and_congr_right fun hVisible => ?_
  exact all_zip_iff_forall₂ r.accepts hVisible.2.1

/-- Applicable methods have different parameters; so none is listed twice. -/
theorem nodup_map_params_applicable (r : Registry) (name : String) (receiver : Tag)
    (args : List Tag) : ((r.applicable name receiver args).map Method.params).Nodup :=
  List.pairwise_map.mpr ((unhidden_pairwise _).filter _)

/-- The types of a lineage are numbered from the nearest one on. -/
theorem pairwise_idxOf_of_nodup {types : List Tag} (hNodup : types.Nodup) :
    types.Pairwise fun s t => types.idxOf s < types.idxOf t := by
  rw [List.pairwise_iff_getElem]
  intro i j hI hJ hLt
  rw [hNodup.idxOf_getElem i hI, hNodup.idxOf_getElem j hJ]
  exact hLt

/-- Applicable methods are listed from the nearest declaration on. -/
theorem Sound.pairwise_applicable {r : Registry} (hSound : r.Sound) (name : String) (receiver : Tag)
    (args : List Tag) :
    (r.applicable name receiver args).Pairwise fun m n =>
      (r.lineage receiver).idxOf m.receiver ≤ (r.lineage receiver).idxOf n.receiver := by
  have hAll : ((r.lineage receiver).flatMap r.declared).Pairwise fun m n =>
      (r.lineage receiver).idxOf m.receiver ≤ (r.lineage receiver).idxOf n.receiver := by
    rw [List.pairwise_flatMap]
    constructor
    · intro t _
      refine List.pairwise_of_forall_mem_list ?_
      intro m hM n hN
      have hReceiver : m.receiver = n.receiver :=
        ((mem_declared_iff r t m).mp hM).2.trans ((mem_declared_iff r t n).mp hN).2.symm
      exact Nat.le_of_eq (congrArg (r.lineage receiver).idxOf hReceiver)
    · refine (pairwise_idxOf_of_nodup (hSound.nodup_lineage receiver)).imp ?_
      intro s t hLt m hM n hN
      rw [((mem_declared_iff r s m).mp hM).2, ((mem_declared_iff r t n).mp hN).2]
      exact Nat.le_of_lt hLt
  exact ((hAll.filter _).sublist (unhidden_sublist _)).filter _

/-- At most one applicable method is the least. -/
theorem Sound.isLeastApplicable_unique {r : Registry} (hSound : r.Sound) {name : String}
    {receiver : Tag} {args : List Tag} {m n : Method}
    (hM : r.IsLeastApplicable name receiver args m)
    (hN : r.IsLeastApplicable name receiver args n) : m = n := by
  have hParams := hSound.params_eq_of_isBelow (hM.2 n hN.1) (hN.2 m hM.1)
  have hMemM := (hSound.mem_applicable_iff_isApplicable name receiver args m).mpr hM.1
  have hMemN := (hSound.mem_applicable_iff_isApplicable name receiver args n).mpr hN.1
  exact List.inj_on_of_nodup_map (r.nodup_map_params_applicable name receiver args) hMemM hMemN
    hParams

/-- The methods that are compared with all others and win are the least ones. -/
theorem Sound.mem_filter_iff_isLeastApplicable {r : Registry} (hSound : r.Sound) (name : String)
    (receiver : Tag) (args : List Tag) (m : Method) :
    (m ∈ (r.applicable name receiver args).filter fun m =>
        (r.applicable name receiver args).all (r.isMoreSpecific m)) ↔
      r.IsLeastApplicable name receiver args m := by
  rw [List.mem_filter, hSound.mem_applicable_iff_isApplicable, List.all_eq_true, IsLeastApplicable]
  refine and_congr_right fun hM => ?_
  simp only [hSound.mem_applicable_iff_isApplicable]
  refine forall₂_congr fun n hN => ?_
  exact r.isMoreSpecific_iff_isBelow (hM.1.2.1.trans hN.1.2.1.symm)

/-- A list of different elements of which at most one can be there is empty or a singleton. -/
theorem eq_nil_or_singleton {α : Type} {l : List α} (hNodup : l.Nodup)
    (hUnique : ∀ a ∈ l, ∀ b ∈ l, a = b) : l = [] ∨ ∃ a, l = [a] := by
  match l, hNodup with
  | [], _ => exact Or.inl rfl
  | [a], _ => exact Or.inr ⟨a, rfl⟩
  | a :: b :: rest, hNodup =>
      have hSame : a = b := hUnique a (by simp) b (by simp)
      subst hSame
      simp at hNodup

/-- The three outcomes of a choice in a sound registry. -/
theorem Sound.chooseMethod_cases {r : Registry} (hSound : r.Sound) (name : String) (receiver : Tag)
    (args : List Tag) :
    ((∀ m, ¬r.IsApplicable name receiver args m) ∧
      r.chooseMethod name (receiver :: args) =
        .error (.noSuchMethod name (r.typeName receiver) args.length)) ∨
    (∃ m, r.IsLeastApplicable name receiver args m ∧
      r.chooseMethod name (receiver :: args) = .ok m) ∨
    ((∃ m, r.IsApplicable name receiver args m) ∧ (¬∃ m, r.IsLeastApplicable name receiver args m) ∧
      r.chooseMethod name (receiver :: args) =
        .error (.ambiguous name (r.typeName receiver)
          ((r.applicable name receiver args).map r.signature))) := by
  have hMem := hSound.mem_applicable_iff_isApplicable name receiver args
  have hLeast := hSound.mem_filter_iff_isLeastApplicable name receiver args
  have hNodup := (r.nodup_map_params_applicable name receiver args).of_map.filter fun m =>
    (r.applicable name receiver args).all (r.isMoreSpecific m)
  simp only [chooseMethod]
  cases hEmpty : (r.applicable name receiver args).isEmpty with
  | true =>
      rw [List.isEmpty_iff] at hEmpty
      refine Or.inl ⟨?_, by simp⟩
      intro m hM
      simpa [hEmpty] using (hMem m).mpr hM
  | false =>
      have hSome : ∃ m, r.IsApplicable name receiver args m := by
        obtain ⟨m, hM⟩ := List.exists_mem_of_ne_nil _ (by simpa using hEmpty)
        exact ⟨m, (hMem m).mp hM⟩
      have hUnique : ∀ a ∈ (r.applicable name receiver args).filter fun m =>
            (r.applicable name receiver args).all (r.isMoreSpecific m),
          ∀ b ∈ (r.applicable name receiver args).filter fun m =>
            (r.applicable name receiver args).all (r.isMoreSpecific m), a = b :=
        fun a hA b hB => hSound.isLeastApplicable_unique ((hLeast a).mp hA) ((hLeast b).mp hB)
      rcases eq_nil_or_singleton hNodup hUnique with hNil | ⟨m, hOne⟩
      · refine Or.inr (Or.inr ⟨hSome, ?_, by simp [hNil]⟩)
        rintro ⟨m, hM⟩
        simpa [hNil] using (hLeast m).mpr hM
      · refine Or.inr (Or.inl ⟨m, ?_, by simp [hOne]⟩)
        exact (hLeast m).mp (by simp [hOne])

/-- The least applicable method is chosen. -/
theorem Sound.chooseMethod_eq_ok {r : Registry} (hSound : r.Sound) {name : String} {receiver : Tag}
    {args : List Tag} {m : Method} (hLeast : r.IsLeastApplicable name receiver args m) :
    r.chooseMethod name (receiver :: args) = .ok m := by
  rcases hSound.chooseMethod_cases name receiver args with
    ⟨hNone, -⟩ | ⟨n, hOther, hOutcome⟩ | ⟨-, hNoLeast, -⟩
  · exact absurd hLeast.1 (hNone m)
  · rw [hOutcome, hSound.isLeastApplicable_unique hLeast hOther]
  · exact absurd ⟨m, hLeast⟩ hNoLeast

/-- A choice is ambiguous if there are applicable methods, but no least one. -/
theorem Sound.chooseMethod_eq_ambiguous {r : Registry} (hSound : r.Sound) {name : String}
    {receiver : Tag} {args : List Tag} (hSome : ∃ m, r.IsApplicable name receiver args m)
    (hNoLeast : ¬∃ m, r.IsLeastApplicable name receiver args m) :
    r.chooseMethod name (receiver :: args) =
      .error (.ambiguous name (r.typeName receiver)
        ((r.applicable name receiver args).map r.signature)) := by
  obtain ⟨m, hM⟩ := hSome
  rcases hSound.chooseMethod_cases name receiver args with
    ⟨hNone, -⟩ | ⟨n, hLeast, -⟩ | ⟨-, -, hOutcome⟩
  · exact absurd hM (hNone m)
  · exact absurd ⟨n, hLeast⟩ hNoLeast
  · exact hOutcome

/-- A choice is refused if there is no applicable method. -/
theorem Sound.chooseMethod_eq_noSuchMethod {r : Registry} (hSound : r.Sound) {name : String}
    {receiver : Tag} {args : List Tag} (hNone : ∀ m, ¬r.IsApplicable name receiver args m) :
    r.chooseMethod name (receiver :: args) =
      .error (.noSuchMethod name (r.typeName receiver) args.length) := by
  rw [chooseMethod_eq_noSuchMethod_iff, List.eq_nil_iff_forall_not_mem]
  exact fun m hM => hNone m ((hSound.mem_applicable_iff_isApplicable name receiver args m).mp hM)

/-- **A call runs the unique least applicable method.**  In every registry that registrations can
make, and for every name, receiver and argument types, the choice finds no method exactly if none is
applicable; it chooses a method exactly if that is the least applicable one, of which there is at
most one; and if there are applicable methods but no least one, it reports the signatures of exactly
the applicable methods, each once and the nearest declaration first. -/
theorem chooseMethod_build (registrations : List Registration) (name : String) (receiver : Tag)
    (args : List Tag) :
    let r := build registrations
    let outcome := r.chooseMethod name (receiver :: args)
    (outcome = .error (.noSuchMethod name (r.typeName receiver) args.length) ↔
      ∀ m, ¬r.IsApplicable name receiver args m) ∧
    (∀ m, outcome = .ok m ↔ r.IsLeastApplicable name receiver args m) ∧
    (∀ m n, r.IsLeastApplicable name receiver args m → r.IsLeastApplicable name receiver args n →
      m = n) ∧
    ((∃ m, r.IsApplicable name receiver args m) →
      (¬∃ m, r.IsLeastApplicable name receiver args m) →
      ∃ methods : List Method, methods.Nodup ∧
        (∀ m, m ∈ methods ↔ r.IsApplicable name receiver args m) ∧
        (methods.Pairwise fun m n =>
          (r.lineage receiver).idxOf m.receiver ≤ (r.lineage receiver).idxOf n.receiver) ∧
        outcome = .error (.ambiguous name (r.typeName receiver) (methods.map r.signature))) := by
  intro r outcome
  have hSound : r.Sound := sound_build registrations
  have hUnique : ∀ m n, r.IsLeastApplicable name receiver args m →
      r.IsLeastApplicable name receiver args n → m = n :=
    fun m n hM hN => hSound.isLeastApplicable_unique hM hN
  rcases hSound.chooseMethod_cases name receiver args with
    ⟨hNone, hOutcome⟩ | ⟨m, hLeast, hOutcome⟩ | ⟨hSome, hNoLeast, hOutcome⟩
  · have hRefused : outcome = _ := hOutcome
    refine ⟨⟨fun _ => hNone, fun _ => hRefused⟩, ?_, hUnique, ?_⟩
    · intro m
      rw [hRefused]
      exact ⟨nofun, fun hLeast => absurd hLeast.1 (hNone m)⟩
    · rintro ⟨m, hM⟩
      exact absurd hM (hNone m)
  · have hChosen : outcome = _ := hOutcome
    refine ⟨?_, ?_, hUnique, ?_⟩
    · rw [hChosen]
      exact ⟨nofun, fun hNone => absurd hLeast.1 (hNone m)⟩
    · intro n
      rw [hChosen]
      constructor
      · rintro ⟨rfl⟩
        exact hLeast
      · intro hN
        rw [hUnique m n hLeast hN]
    · exact fun _ hNoLeast => absurd ⟨m, hLeast⟩ hNoLeast
  · have hAmbiguous : outcome = _ := hOutcome
    refine ⟨?_, ?_, hUnique, fun _ _ => ?_⟩
    · rw [hAmbiguous]
      obtain ⟨m, hM⟩ := hSome
      exact ⟨nofun, fun hNone => absurd hM (hNone m)⟩
    · intro m
      rw [hAmbiguous]
      exact ⟨nofun, fun hM => absurd ⟨m, hM⟩ hNoLeast⟩
    · exact ⟨r.applicable name receiver args,
        (r.nodup_map_params_applicable name receiver args).of_map,
        hSound.mem_applicable_iff_isApplicable name receiver args,
        hSound.pairwise_applicable name receiver args, hAmbiguous⟩

end Registry

end LateBinding.Class
