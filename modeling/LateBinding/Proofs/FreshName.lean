import Mathlib.Data.List.TakeWhile
import Std.Data.String.ToNat
import LateBinding.FreshName

/-!
# Fresh names are new

A fresh name ends in the number of names made before it.  Digits are no underscores, and what comes
before the number ends in one, so the number can be read off the name: two fresh names with
different numbers differ, in whatever contexts and with whatever tags they were made.

* `isReserved_mint` - fresh names begin with the reserved word.
* `made_eq_of_mint_eq` - equal fresh names have equal numbers.
* `MadeBefore` - the names that were made by some point; the next name is not one of them.
* `Request`, `run_fresh` - names from one supply are all different, whatever is asked for between
  them.
-/

namespace LateBinding.FreshName

/-- What a name ends in, after its last underscore. -/
def ending (name : String) : List Char :=
  (name.toList.reverse.takeWhile (· ≠ '_')).reverse

/-- A number after an underscore can be read off. -/
theorem ending_append_toString {front : String} {start : List Char}
    (hFront : front.toList = start ++ ['_']) (n : Nat) :
    ending (front ++ toString n) = Nat.toDigits 10 n := by
  have hDigits : ∀ c ∈ (Nat.toDigits 10 n).reverse, decide (c ≠ '_') = true := by
    intro c hMem
    rw [List.mem_reverse] at hMem
    have hNe : c ≠ '_' := by
      rintro rfl
      exact Nat.underscore_not_in_toDigits hMem
    simpa using hNe
  have hReverse : (front ++ toString n).toList.reverse =
      (Nat.toDigits 10 n).reverse ++ '_' :: start.reverse := by
    rw [String.toList_append, hFront, Nat.toString_eq_repr, Nat.toList_repr]
    simp
  rw [ending, hReverse, List.takeWhile_append_of_pos hDigits, List.takeWhile_cons_of_neg (by simp),
    List.append_nil, List.reverse_reverse]

/-- Contexts show with an underscore after each, so what comes before the number ends in one. -/
theorem exists_append_join (contexts : List String) (start : List Char) :
    ∃ front, start ++ '_' :: (String.join (contexts.map (· ++ "_"))).toList = front ++ ['_'] := by
  induction contexts generalizing start with
  | nil => exact ⟨start, by simp⟩
  | cons context rest ih =>
      obtain ⟨front, hFront⟩ := ih (start ++ '_' :: context.toList)
      refine ⟨front, ?_⟩
      rw [← hFront]
      simp

namespace Supply

/-- A fresh name ends in the number of names made before it. -/
theorem ending_mint (s : Supply) (tag : Option String) :
    ending (s.mint tag).1 = Nat.toDigits 10 s.made := by
  obtain ⟨front, hFront⟩ := exists_append_join (s.visibleContexts tag) ['_', '_', '$', '$']
  have hStart : (reserved ++ String.join ((s.visibleContexts tag).map (· ++ "_"))).toList =
      front ++ ['_'] := by
    rw [← hFront, String.toList_append]
    rfl
  exact ending_append_toString hStart s.made

/-- A fresh name begins with the reserved word. -/
theorem isReserved_mint (s : Supply) (tag : Option String) : isReserved (s.mint tag).1 = true := by
  unfold isReserved
  rw [List.isPrefixOf_iff_prefix, mint, String.append_assoc, String.toList_append]
  exact List.prefix_append _ _

/-- Equal fresh names have equal numbers. -/
theorem made_eq_of_mint_eq {s other : Supply} {tag otherTag : Option String}
    (hName : (s.mint tag).1 = (other.mint otherTag).1) : s.made = other.made := by
  have hDigits : Nat.toDigits 10 s.made = Nat.toDigits 10 other.made := by
    rw [← ending_mint s tag, hName, ending_mint]
  apply Nat.repr_injective
  rw [← String.toList_inj, Nat.toList_repr, Nat.toList_repr, hDigits]

end Supply

/-- The name is fresh and was made while fewer than `made` names were there. -/
def MadeBefore (made : Nat) (name : String) : Prop :=
  ∃ (s : Supply) (tag : Option String), s.made < made ∧ (s.mint tag).1 = name

/-- What was made stays made. -/
theorem MadeBefore.mono {made later : Nat} {name : String} (hMade : MadeBefore made name)
    (hLe : made ≤ later) : MadeBefore later name := by
  obtain ⟨s, tag, hLt, hName⟩ := hMade
  exact ⟨s, tag, Nat.lt_of_lt_of_le hLt hLe, hName⟩

/-- The next name was made from then on. -/
theorem madeBefore_mint (s : Supply) (tag : Option String) :
    MadeBefore (s.mint tag).2.made (s.mint tag).1 :=
  ⟨s, tag, Nat.lt_succ_self _, rfl⟩

/-- The next name was not made before. -/
theorem not_madeBefore_mint (s : Supply) (tag : Option String) :
    ¬ MadeBefore s.made (s.mint tag).1 := by
  rintro ⟨other, otherTag, hLt, hName⟩
  have hMade := Supply.made_eq_of_mint_eq hName
  omega

/-- A fresh name is not empty. -/
theorem mint_ne_empty (s : Supply) (tag : Option String) : (s.mint tag).1 ≠ "" := by
  intro hEmpty
  have hReserved := s.isReserved_mint tag
  rw [hEmpty] at hReserved
  exact absurd hReserved (by decide)

/-! ### Requests in a row -/

/-- What a user of a supply can ask for. -/
inductive Request where
  | enter (context : String)
  | exit
  | next
  | nextWith (tag : String)

namespace Supply

/-- The name that a request gives, if it gives one, and the supply after it. -/
def perform (s : Supply) : Request → Option String × Supply
  | .enter context => (none, s.enter context)
  | .exit => (none, s.exit)
  | .next => (some s.next.1, s.next.2)
  | .nextWith tag => (some (s.nextWith tag).1, (s.nextWith tag).2)

/-- The names that requests in a row give, and the supply after them. -/
def run (s : Supply) : List Request → List String × Supply
  | [] => ([], s)
  | r :: rest =>
      let (name, s) := s.perform r
      let (names, s) := s.run rest
      (name.toList ++ names, s)

theorem fst_run_cons (s : Supply) (r : Request) (rest : List Request) :
    (s.run (r :: rest)).1 = (s.perform r).1.toList ++ ((s.perform r).2.run rest).1 := rfl

/-- A request makes the next name, or it makes none. -/
theorem perform_cases (s : Supply) (r : Request) :
    (∃ tag, s.perform r = (some (s.mint tag).1, (s.mint tag).2)) ∨
      (s.perform r).1 = none ∧ (s.perform r).2.made = s.made := by
  cases r with
  | enter context => exact .inr ⟨rfl, rfl⟩
  | exit => exact .inr ⟨rfl, rfl⟩
  | next => exact .inl ⟨none, rfl⟩
  | nextWith tag => exact .inl ⟨some tag, rfl⟩

/-- The names that requests give are fresh, different, and not among those made before. -/
theorem run_fresh (s : Supply) (requests : List Request) :
    (s.run requests).1.Nodup ∧
      ∀ name ∈ (s.run requests).1, isReserved name = true ∧ ¬ MadeBefore s.made name := by
  induction requests generalizing s with
  | nil => exact ⟨List.nodup_nil, fun _ hMem => absurd hMem List.not_mem_nil⟩
  | cons r rest ih =>
      obtain ⟨hNodup, hFresh⟩ := ih (s.perform r).2
      rcases s.perform_cases r with ⟨tag, hPerform⟩ | ⟨hNone, hMade⟩
      · have hNames : (s.run (r :: rest)).1 = (s.mint tag).1 :: ((s.mint tag).2.run rest).1 := by
          rw [fst_run_cons, hPerform]
          rfl
        rw [hPerform] at hNodup hFresh
        -- the later names are not among those made by now, and this one is
        rw [hNames, List.nodup_cons, List.forall_mem_cons]
        refine ⟨⟨fun hMem => (hFresh _ hMem).2 (madeBefore_mint s tag), hNodup⟩,
          ⟨s.isReserved_mint tag, not_madeBefore_mint s tag⟩, fun name hMem => ?_⟩
        obtain ⟨hReserved, hNew⟩ := hFresh name hMem
        exact ⟨hReserved, fun hOld => hNew (hOld.mono (Nat.le_succ _))⟩
      · have hNames : (s.run (r :: rest)).1 = ((s.perform r).2.run rest).1 := by
          rw [fst_run_cons, hNone]
          rfl
        rw [hMade] at hFresh
        rw [hNames]
        exact ⟨hNodup, hFresh⟩

/-- Contexts and tags may look like fresh names themselves. -/
example : (initial.run [.next, .enter "__$$_0", .nextWith "", .exit, .exit, .nextWith "a_1"]).1 =
    ["__$$_0", "__$$___$$_0_1", "__$$_a_1_2"] := by decide +kernel

end Supply

end LateBinding.FreshName
