import LateBinding.Proofs.Class.Registration
import LateBinding.Proofs.Place

/-!
# The hierarchy of classes

What registrations leave behind: classes numbered in the order in which they came, each after its
superclass; for every type the last method of each declaration; and a way up from every class, which
ends and never meets a class twice.  A rest of a way up is itself a way up, so distances add.

* `Registration.required?`, `register_eq_error_iff` - a registration is refused if it needs a class
  that is not registered.
* `mem_methods_build_iff` - which methods are left.
* `Registry.IsLineage` - the way up from a type, said without a bound on its length;
  `Sound.isLineage_lineage` shows that the bound in `Registry.superclasses` never cuts it short.
* `Sound.drop_superclasses`, `Sound.distance?_add` - distances along a way up.
* `build_hierarchy` - all of this for every registry that can be made.
-/

namespace LateBinding.Class

open Dispatch (DispatchError)

/-- The class that has to be registered before: the superclass of a class, and the class that a
method is declared on. -/
def Registration.required? : Registration → Option ClassId
  | ofClass _ parent => parent
  | ofMethod m =>
      match m.receiver with
      | .object cls => some cls
      | _ => none

namespace Registry

/-! ### Refused registrations -/

/-- A registration is refused if it needs a class that is not registered, and for no other reason. -/
theorem register_eq_error_iff (r : Registry) (g : Registration) (e : DispatchError) :
    r.register g = .error e ↔
      ∃ cls, g.required? = some cls ∧ r.class? cls = none ∧ e = .unknownClass cls := by
  cases g with
  | ofClass name parent =>
      cases parent with
      | none => simp [register, addClass, Registration.required?, Except.map]
      | some p =>
          cases hClass : r.class? p <;>
            simp [register, addClass, Registration.required?, Except.map, hClass, eq_comm]
  | ofMethod m =>
      cases hReceiver : m.receiver with
      | object cls =>
          cases hClass : r.class? cls <;>
            simp [register, addMethod, Registration.required?, hReceiver, hClass, eq_comm]
      | _ => simp [register, addMethod, Registration.required?, hReceiver]

/-! ### The numbers of classes -/

/-- Every class has its place in the order of registration as its number. -/
def Numbered (r : Registry) : Prop :=
  ∀ (i : Nat) (c : Definition), r.classes[i]? = some c → c.id = ⟨i⟩

theorem numbered_empty : empty.Numbered := by
  intro i c hClass
  simp [empty] at hClass

theorem Numbered.attempt {r : Registry} (hNumbered : r.Numbered) (g : Registration) :
    (r.attempt g).Numbered := by
  rcases r.attempt_cases g with
    ⟨-, hNext⟩ | ⟨name, parent, -, -, hNext⟩ | ⟨m, -, -, hNext⟩ <;> rw [hNext]
  · exact hNumbered
  · intro i c hClass
    rw [Array.getElem?_push] at hClass
    split at hClass
    · rename_i hLast
      cases hClass
      rw [hLast, size]
    · exact hNumbered i c hClass
  · exact hNumbered

theorem numbered_build (gs : List Registration) : (build gs).Numbered :=
  build_induction numbered_empty (fun _ g hNumbered => hNumbered.attempt g) gs

/-- The number that a new class gets is the number that it is found under. -/
theorem of_addClass {r next : Registry} {name : String} {parent : Option ClassId} {id : ClassId}
    (hAdd : r.addClass name parent = .ok (id, next)) :
    r.attempt (.ofClass name parent) = next ∧ id = ⟨r.size⟩ ∧
      next.class? id = some ⟨id, name, parent⟩ := by
  have hRegister : r.register (.ofClass name parent) = .ok next := by
    rw [register, hAdd]
    rfl
  refine ⟨by rw [attempt, hRegister], ?_⟩
  have hParts : (⟨⟨r.size⟩, { r with classes := r.classes.push ⟨⟨r.size⟩, name, parent⟩ }⟩ :
      ClassId × Registry) = (id, next) := by
    unfold addClass at hAdd
    split at hAdd
    · exact Except.ok.inj hAdd
    · split at hAdd
      · cases hAdd
      · exact Except.ok.inj hAdd
  obtain ⟨rfl, rfl⟩ := Prod.mk.inj hParts
  refine ⟨rfl, ?_⟩
  simp [class?, size]

/-! ### Which methods are left -/

/-- A type is known if it is no class, or a registered one. -/
def Knows (r : Registry) (t : Tag) : Prop :=
  ∀ cls : ClassId, t = .object cls → cls.index < r.size

/-- A method is accepted if the type it is declared on is known. -/
theorem exists_register_ofMethod_iff (r : Registry) (m : Method) :
    (∃ next, r.register (.ofMethod m) = .ok next) ↔ r.Knows m.receiver := by
  constructor
  · rintro ⟨next, hRegister⟩
    rcases register_cases hRegister with ⟨name, parent, hSame, -⟩ | ⟨n, hSame, hKnows, -⟩
    · cases hSame
    · cases hSame
      exact hKnows
  · intro hKnows
    cases hRegister : r.register (.ofMethod m) with
    | ok next => exact ⟨next, rfl⟩
    | error e =>
        obtain ⟨cls, hRequired, hUnknown, -⟩ := (register_eq_error_iff r _ e).mp hRegister
        have hReceiver : m.receiver = .object cls := by
          cases hCase : m.receiver <;> simp_all [Registration.required?]
        have hLt := hKnows cls hReceiver
        have hLe := (class?_eq_none_iff r cls).mp hUnknown
        omega

/-- A registration forgets no class. -/
theorem Knows.attempt {r : Registry} {t : Tag} (hKnows : r.Knows t) (g : Registration) :
    (r.attempt g).Knows t := by
  intro cls hTag
  have hLt := hKnows cls hTag
  rcases r.attempt_cases g with
    ⟨-, hNext⟩ | ⟨name, parent, -, -, hNext⟩ | ⟨m, -, -, hNext⟩ <;> rw [hNext]
  · exact hLt
  · show cls.index < (r.classes.push _).size
    rw [Array.size_push]
    exact Nat.lt_succ_of_lt hLt
  · exact hLt

/-- The methods after a registration: the new one if it is accepted, and the old ones that it does
not declare again. -/
theorem mem_methods_attempt_iff (r : Registry) (g : Registration) (m : Method) :
    m ∈ (r.attempt g).methods ↔
      (g = .ofMethod m ∧ r.Knows m.receiver) ∨
        (m ∈ r.methods ∧
          ∀ n, g = .ofMethod n → r.Knows n.receiver → sameDeclaration m n = false) := by
  rcases r.attempt_cases g with
    ⟨⟨e, hError⟩, hNext⟩ | ⟨name, parent, rfl, -, hNext⟩ | ⟨n, rfl, hKnows, hNext⟩ <;> rw [hNext]
  · have hRefused : ∀ n, g = .ofMethod n → ¬r.Knows n.receiver := by
      rintro n rfl hKnows
      obtain ⟨next, hOk⟩ := (exists_register_ofMethod_iff r n).mpr hKnows
      rw [hError] at hOk
      cases hOk
    constructor
    · exact fun hMem => Or.inr ⟨hMem, fun n hG hKnows => absurd hKnows (hRefused n hG)⟩
    · rintro (⟨hG, hKnows⟩ | ⟨hMem, -⟩)
      · exact absurd hKnows (hRefused m hG)
      · exact hMem
  · simp
  · have hKnown : r.Knows n.receiver := hKnows
    simp only [withMethod, List.mem_append, List.mem_filter, Bool.not_eq_true',
      List.mem_singleton, Registration.ofMethod.injEq]
    constructor
    · rintro (⟨hMem, hOther⟩ | rfl)
      · refine Or.inr ⟨hMem, ?_⟩
        rintro _ rfl -
        exact hOther
      · exact Or.inl ⟨rfl, hKnown⟩
    · rintro (⟨rfl, -⟩ | ⟨hMem, hOther⟩)
      · exact Or.inr rfl
      · exact Or.inl ⟨hMem, hOther n rfl hKnown⟩

/-- Methods are declared on known types only. -/
theorem knows_of_mem_methods {gs : List Registration} {m : Method}
    (hMem : m ∈ (build gs).methods) : (build gs).Knows m.receiver := by
  have hAll : ∀ m ∈ (build gs).methods, (build gs).Knows m.receiver := by
    refine build_induction (P := fun r => ∀ m ∈ r.methods, r.Knows m.receiver) ?_ ?_ gs
    · intro m hMem
      simp [empty] at hMem
    · intro r g hKnows m hMem
      rcases (mem_methods_attempt_iff r g m).mp hMem with ⟨-, hNew⟩ | ⟨hOld, -⟩
      · exact hNew.attempt g
      · exact (hKnows m hOld).attempt g
  exact hAll m hMem

theorem receiver_eq_of_sameDeclaration {m n : Method} (hSame : sameDeclaration m n = true) :
    m.receiver = n.receiver := by
  simp only [sameDeclaration, Bool.and_eq_true, decide_eq_true_eq] at hSame
  exact hSame.1.1

/-- Of the registrations of a list with one more, the last is the new one or the others come before
it. -/
theorem append_singleton_eq_append_cons_iff {α : Type} {l before after : List α} {a x : α} :
    l ++ [a] = before ++ x :: after ↔
      (l = before ∧ a = x ∧ after = []) ∨ ∃ rest, after = rest ++ [a] ∧ l = before ++ x :: rest := by
  constructor
  · intro hSplit
    rcases List.eq_nil_or_concat' after with rfl | ⟨rest, y, rfl⟩
    · obtain ⟨hBefore, hLast⟩ := List.append_inj' hSplit rfl
      exact Or.inl ⟨hBefore, List.singleton_inj.mp hLast, rfl⟩
    · rw [← List.cons_append, ← List.append_assoc] at hSplit
      obtain ⟨hBefore, hLast⟩ := List.append_inj' hSplit rfl
      exact Or.inr ⟨rest, by rw [hLast], hBefore⟩
  · rintro (⟨rfl, rfl, rfl⟩ | ⟨rest, rfl, rfl⟩) <;> simp

/-- The methods that are left are those that were accepted and not declared again later. -/
theorem mem_methods_build_iff (gs : List Registration) (m : Method) :
    m ∈ (build gs).methods ↔
      ∃ before after, gs = before ++ .ofMethod m :: after ∧ (build before).Knows m.receiver ∧
        ∀ n, .ofMethod n ∈ after → sameDeclaration m n = false := by
  induction gs using List.reverseRecOn with
  | nil => simp [build, empty]
  | append_singleton gs g ih =>
      rw [build_append_singleton, mem_methods_attempt_iff]
      constructor
      · rintro (⟨rfl, hKnows⟩ | ⟨hMem, hOther⟩)
        · exact ⟨gs, [], rfl, hKnows, by simp⟩
        · obtain ⟨before, after, rfl, hKnows, hLast⟩ := ih.mp hMem
          refine ⟨before, after ++ [g], by simp, hKnows, ?_⟩
          intro n hN
          rcases List.mem_append.mp hN with hN | hN
          · exact hLast n hN
          · -- a declaration like that of a method in place is on a known type
            obtain rfl : .ofMethod n = g := by simpa using hN
            by_contra hSame
            rw [Bool.not_eq_false] at hSame
            have hKnown := knows_of_mem_methods hMem
            rw [receiver_eq_of_sameDeclaration hSame] at hKnown
            rw [hOther n rfl hKnown] at hSame
            cases hSame
      · rintro ⟨before, after, hSplit, hKnows, hLast⟩
        rcases append_singleton_eq_append_cons_iff.mp hSplit with
          ⟨rfl, rfl, -⟩ | ⟨rest, rfl, hRest⟩
        · exact Or.inl ⟨rfl, hKnows⟩
        · refine Or.inr ⟨ih.mpr ⟨before, rest, hRest, hKnows, ?_⟩, ?_⟩
          · exact fun n hN => hLast n (List.mem_append_left _ hN)
          · rintro n rfl -
            exact hLast n (by simp)

/-- The methods that a type declares differ in name or in parameters. -/
theorem Sound.pairwise_declared_ne {r : Registry} (hSound : r.Sound) (t : Tag) :
    (r.declared t).Pairwise fun m n => ¬(m.name = n.name ∧ m.params = n.params) := by
  refine List.Pairwise.imp_of_mem ?_ (hSound.distinct.filter _)
  rintro m n hM hN hDistinct ⟨hName, hParams⟩
  have hReceiverM := ((mem_declared_iff r t m).mp hM).2
  have hReceiverN := ((mem_declared_iff r t n).mp hN).2
  simp [sameDeclaration, hReceiverM, hReceiverN, hName, hParams] at hDistinct

/-! ### The way up -/

/-- The type that a type inherits from directly: the superclass of a class. -/
def parent? (r : Registry) : Tag → Option Tag
  | .object cls => ((r.class? cls).bind Definition.parent).map .object
  | _ => none

/-- A type, the one it inherits from, and so on up to one that inherits from none. -/
inductive IsLineage (r : Registry) : Tag → List Tag → Prop where
  | top {t : Tag} (hTop : r.parent? t = none) : IsLineage r t [t]
  | step {t parent : Tag} {rest : List Tag} (hParent : r.parent? t = some parent)
      (hRest : IsLineage r parent rest) : IsLineage r t (t :: rest)

/-- Two bounds that are both large enough give the same way up. -/
theorem Sound.climb_eq_climb {r : Registry} (hSound : r.Sound) {i j : Nat} {cls : ClassId}
    (hI : cls.index < i) (hJ : cls.index < j) : r.climb i cls = r.climb j cls := by
  induction i generalizing j cls with
  | zero => omega
  | succ i ih =>
      obtain ⟨j, rfl⟩ : ∃ k, j = k + 1 := ⟨j - 1, by omega⟩
      rw [climb, climb]
      cases hParent : (r.class? cls).bind Definition.parent with
      | none => rfl
      | some parent =>
          have hLt := hSound.index_lt hParent
          show cls :: r.climb i parent = cls :: r.climb j parent
          rw [ih (j := j) (by omega) (by omega)]

/-- The way up from a class without a superclass is the class. -/
theorem superclasses_of_parent_eq_none {r : Registry} {cls : ClassId}
    (hTop : (r.class? cls).bind Definition.parent = none) : r.superclasses cls = [cls] := by
  rw [superclasses, climb, hTop]

/-- The way up from a class with a superclass goes on with that of the superclass. -/
theorem Sound.superclasses_of_parent_eq_some {r : Registry} (hSound : r.Sound)
    {cls parent : ClassId} (hParent : (r.class? cls).bind Definition.parent = some parent) :
    r.superclasses cls = cls :: r.superclasses parent := by
  rw [superclasses, climb, hParent, superclasses]
  exact congrArg _ (hSound.climb_eq_climb (hSound.index_lt hParent) (Nat.lt_succ_self _))

/-- The lineage of a type is the whole way up from it. -/
theorem Sound.isLineage_lineage {r : Registry} (hSound : r.Sound) (t : Tag) :
    r.IsLineage t (r.lineage t) := by
  cases t with
  | object cls =>
      -- along the numbers of classes, which go down on the way up
      induction hIndex : cls.index using Nat.strongRecOn generalizing cls with
      | ind index ih =>
          cases hParent : (r.class? cls).bind Definition.parent with
          | none =>
              rw [lineage, superclasses_of_parent_eq_none hParent]
              exact .top (by rw [parent?, hParent]; rfl)
          | some parent =>
              have hLt := hSound.index_lt hParent
              rw [lineage, hSound.superclasses_of_parent_eq_some hParent]
              exact .step (by rw [parent?, hParent]; rfl) (ih _ (by omega) parent rfl)
  | _ => exact .top rfl

/-- A type has one way up. -/
theorem IsLineage.eq {r : Registry} {t : Tag} {l k : List Tag} (hL : r.IsLineage t l)
    (hK : r.IsLineage t k) : l = k := by
  induction hL generalizing k with
  | top hTop =>
      cases hK with
      | top => rfl
      | step hParent => simp [hTop] at hParent
  | step hParent _ ih =>
      cases hK with
      | top hTop => simp [hTop] at hParent
      | step hOther hRest =>
          obtain rfl := Option.some.inj (hParent.symm.trans hOther)
          rw [ih hRest]

/-! ### Distances -/

/-- The distance to a class is its place on the way up. -/
theorem Sound.distance?_eq_some_iff {r : Registry} (hSound : r.Sound) (cls ancestor : ClassId)
    (n : Nat) : r.distance? cls ancestor = some n ↔ (r.superclasses cls)[n]? = some ancestor :=
  Place.idxOf?_eq_some_iff (hSound.nodup_superclasses cls) ancestor n

/-- From every class on, the way up is the way up from that class. -/
theorem Sound.drop_superclasses {r : Registry} (hSound : r.Sound) {cls ancestor : ClassId} {n : Nat}
    (hAt : (r.superclasses cls)[n]? = some ancestor) :
    (r.superclasses cls).drop n = r.superclasses ancestor := by
  induction n generalizing cls with
  | zero =>
      rw [superclasses, climb, List.getElem?_cons_zero, Option.some.injEq] at hAt
      rw [hAt, List.drop_zero]
  | succ n ih =>
      cases hParent : (r.class? cls).bind Definition.parent with
      | none => simp [superclasses_of_parent_eq_none hParent] at hAt
      | some parent =>
          rw [hSound.superclasses_of_parent_eq_some hParent] at hAt ⊢
          exact ih hAt

/-- Distances along one way up add. -/
theorem Sound.distance?_add {r : Registry} (hSound : r.Sound) {a b c : ClassId} {m n : Nat}
    (hAB : r.distance? a b = some m) (hBC : r.distance? b c = some n) :
    r.distance? a c = some (m + n) := by
  rw [hSound.distance?_eq_some_iff] at hAB hBC ⊢
  rw [← hSound.drop_superclasses hAB, List.getElem?_drop] at hBC
  exact hBC

theorem isSubclass_iff (r : Registry) (a b : ClassId) :
    r.isSubclass a b = true ↔ ∃ n, r.distance? a b = some n :=
  Option.isSome_iff_exists

theorem isSubclass_refl (r : Registry) (a : ClassId) : r.isSubclass a a = true := by
  rw [isSubclass, distance?, superclasses, climb]
  simp

theorem Sound.isSubclass_trans {r : Registry} (hSound : r.Sound) {a b c : ClassId}
    (hAB : r.isSubclass a b = true) (hBC : r.isSubclass b c = true) : r.isSubclass a c = true := by
  obtain ⟨m, hM⟩ := (isSubclass_iff r a b).mp hAB
  obtain ⟨n, hN⟩ := (isSubclass_iff r b c).mp hBC
  exact (isSubclass_iff r a c).mpr ⟨m + n, hSound.distance?_add hM hN⟩

theorem Sound.isSubclass_antisymm {r : Registry} (hSound : r.Sound) {a b : ClassId}
    (hAB : r.isSubclass a b = true) (hBA : r.isSubclass b a = true) : a = b := by
  have hLe := hSound.index_le_of_isSubclass hAB
  have hGe := hSound.index_le_of_isSubclass hBA
  have hIndex : a.index = b.index := by omega
  cases a
  cases b
  exact congrArg ClassId.mk hIndex

/-- **Every registry that can be made is a hierarchy.**  Whatever is registered, and in whatever
order: a registration is refused if it needs an unregistered class, and then changes nothing.  The
classes are numbered in the order of registration, and a superclass has a smaller number.  The
methods of a type are declared on it, differ in name or parameters, and are those that were accepted
and not declared again later.  The way up from a type, registered or not, ends without a repetition
and is its lineage; to be a subclass is a partial order, and distances add. -/
theorem build_hierarchy (gs : List Registration) :
    let r := build gs
    (∀ g e, r.register g = .error e ↔
      ∃ cls, g.required? = some cls ∧ r.class? cls = none ∧ e = .unknownClass cls) ∧
    (∀ g e, r.register g = .error e → build (gs ++ [g]) = r) ∧
    (∀ (i : Nat) (c : Definition), r.classes[i]? = some c →
      c.id = ⟨i⟩ ∧ ∀ p, c.parent = some p → p.index < i) ∧
    (∀ name parent id next, r.addClass name parent = .ok (id, next) →
      build (gs ++ [.ofClass name parent]) = next ∧ id = ⟨r.size⟩ ∧
        next.class? id = some ⟨id, name, parent⟩) ∧
    (∀ t m, m ∈ r.declared t ↔
      m.receiver = t ∧ ∃ before after, gs = before ++ .ofMethod m :: after ∧
        (∃ next, (build before).register (.ofMethod m) = .ok next) ∧
        ∀ n, .ofMethod n ∈ after →
          ¬(m.receiver = n.receiver ∧ m.name = n.name ∧ m.params = n.params)) ∧
    (∀ t, (r.declared t).Pairwise fun m n => ¬(m.name = n.name ∧ m.params = n.params)) ∧
    (∀ t, (∀ l, r.IsLineage t l ↔ l = r.lineage t) ∧ (r.lineage t).Nodup) ∧
    (∀ a, r.isSubclass a a = true) ∧
    (∀ a b, r.isSubclass a b = true → r.isSubclass b a = true → a = b) ∧
    (∀ a b c, r.isSubclass a b = true → r.isSubclass b c = true → r.isSubclass a c = true) ∧
    ∀ a b c m n, r.distance? a b = some m → r.distance? b c = some n →
      r.distance? a c = some (m + n) := by
  intro r
  have hSound : r.Sound := sound_build gs
  refine ⟨register_eq_error_iff r, ?_, ?_, ?_, ?_, hSound.pairwise_declared_ne, ?_, isSubclass_refl r,
    fun _ _ => hSound.isSubclass_antisymm, fun _ _ _ => hSound.isSubclass_trans,
    fun _ _ _ _ _ => hSound.distance?_add⟩
  · intro g e hRefused
    rw [build_append_singleton, attempt, hRefused]
  · intro i c hClass
    exact ⟨numbered_build gs i c hClass, fun p hParent => hSound.parent_lt ⟨i⟩ c p hClass hParent⟩
  · intro name parent id next hAdd
    rw [build_append_singleton]
    exact of_addClass hAdd
  · intro t m
    rw [mem_declared_iff, mem_methods_build_iff, and_comm]
    simp only [exists_register_ofMethod_iff, sameDeclaration, Bool.and_eq_false_imp,
      Bool.and_eq_true, decide_eq_true_eq, decide_eq_false_iff_not, not_and, and_imp]
  · intro t
    refine ⟨fun l => ⟨fun hL => hL.eq (hSound.isLineage_lineage t), ?_⟩, hSound.nodup_lineage t⟩
    rintro rfl
    exact hSound.isLineage_lineage t

end Registry

end LateBinding.Class
