import LateBinding.Json.Reader

/-!
# Numbers in JSON

A number is written as a minus sign or none, a whole part, and perhaps a fraction and a power of
ten.  The whole part has no zero in front of other digits.  This is said here apart from any reader.
The reader takes as much as it can, so it reads a number back from whatever text begins with it,
unless what follows carries the number on; and it takes nothing else for a number.

* `IsNumeral` - the grammar of numbers; `isNumeral_toString`, `isNumeral_toString_int` - whole
  numbers as they are written.
* `EndsNumber` - what does not carry a number on.
* `readNumber?_append` - numbers are read back.
* `exists_of_readNumber?` - what is read is a number by the grammar.
-/

namespace LateBinding.Json

/-! ### The grammar -/

/-- One digit or more. -/
structure IsDigits (cs : List Char) : Prop where
  ne_nil : cs ≠ []
  isDigit : ∀ c ∈ cs, c.isDigit = true

/-- The whole part of a number: a zero alone, or digits that do not begin with one. -/
inductive IsWhole : List Char → Prop
  | zero : IsWhole ['0']
  | digits (c : Char) (cs : List Char) (hDigits : IsDigits (c :: cs)) (hHead : c ≠ '0') :
      IsWhole (c :: cs)

/-- The fraction of a number, which may be missing. -/
inductive IsFraction : List Char → Prop
  | missing : IsFraction []
  | digits (cs : List Char) (hDigits : IsDigits cs) : IsFraction ('.' :: cs)

/-- The power of ten of a number, which may be missing. -/
inductive IsPower : List Char → Prop
  | missing : IsPower []
  | digits (e : Char) (cs : List Char) (hMark : e = 'e' ∨ e = 'E') (hDigits : IsDigits cs) :
      IsPower (e :: cs)
  | signed (e sign : Char) (cs : List Char) (hMark : e = 'e' ∨ e = 'E')
      (hSign : sign = '+' ∨ sign = '-') (hDigits : IsDigits cs) : IsPower (e :: sign :: cs)

/-- A number without its sign. -/
inductive IsMagnitude : List Char → Prop
  | parts (whole fraction power : List Char) (hWhole : IsWhole whole)
      (hFraction : IsFraction fraction) (hPower : IsPower power) :
      IsMagnitude (whole ++ fraction ++ power)

/-- A number. -/
inductive IsNumeral : List Char → Prop
  | plain (cs : List Char) (hMagnitude : IsMagnitude cs) : IsNumeral cs
  | negative (cs : List Char) (hMagnitude : IsMagnitude cs) : IsNumeral ('-' :: cs)

theorem IsMagnitude.of_isWhole {cs : List Char} (hWhole : IsWhole cs) : IsMagnitude cs := by
  have hParts := IsMagnitude.parts cs [] [] hWhole .missing .missing
  rwa [List.append_nil, List.append_nil] at hParts

/-- A whole part begins with a digit. -/
theorem IsWhole.exists_eq_cons {cs : List Char} (hWhole : IsWhole cs) :
    ∃ c rest, cs = c :: rest ∧ c.isDigit = true := by
  cases hWhole with
  | zero => exact ⟨'0', [], rfl, rfl⟩
  | digits c cs hDigits => exact ⟨c, cs, rfl, hDigits.isDigit c List.mem_cons_self⟩

/-- So does a number without its sign. -/
theorem IsMagnitude.exists_eq_cons {cs : List Char} (hMagnitude : IsMagnitude cs) :
    ∃ c rest, cs = c :: rest ∧ c.isDigit = true := by
  obtain ⟨whole, fraction, power, hWhole, -, -⟩ := hMagnitude
  obtain ⟨c, rest, rfl, hDigit⟩ := hWhole.exists_eq_cons
  exact ⟨c, rest ++ fraction ++ power, rfl, hDigit⟩

/-- A number begins with a digit or a minus sign. -/
theorem IsNumeral.exists_eq_cons {cs : List Char} (hNumeral : IsNumeral cs) :
    ∃ c rest, cs = c :: rest ∧ (c.isDigit = true ∨ c = '-') := by
  cases hNumeral with
  | negative cs => exact ⟨'-', cs, rfl, Or.inr rfl⟩
  | plain cs hMagnitude =>
      obtain ⟨c, rest, rfl, hDigit⟩ := hMagnitude.exists_eq_cons
      exact ⟨c, rest, rfl, Or.inl hDigit⟩

/-! ### Whole numbers -/

theorem isDigits_toDigits (n : Nat) : IsDigits (Nat.toDigits 10 n) where
  ne_nil := Nat.toDigits_ne_nil
  isDigit _ hMem := Nat.isDigit_of_mem_toDigits (by decide) (by decide) hMem

/-- Only zero is written with a zero in front. -/
theorem head?_toDigits_ne_zero {n : Nat} (hPos : 0 < n) : (Nat.toDigits 10 n).head? ≠ some '0' := by
  have hSingle : ∀ m < 10, 0 < m → Nat.digitChar m ≠ '0' := by decide
  induction n using Nat.strongRecOn with
  | ind n ih =>
      by_cases hSmall : n < 10
      · rw [Nat.toDigits_of_lt_base hSmall, List.head?_cons, ne_eq, Option.some.injEq]
        exact hSingle n hSmall hPos
      · have hFront := ih (n / 10) (by omega) (by omega)
        have hSome : (Nat.toDigits 10 (n / 10)).head?.isSome = true :=
          List.isSome_head?.mpr Nat.toDigits_ne_nil
        rw [Nat.toDigits_of_base_le (by decide) (by omega), List.head?_append,
          Option.or_of_isSome hSome]
        exact hFront

theorem isWhole_toDigits (n : Nat) : IsWhole (Nat.toDigits 10 n) := by
  by_cases hZero : n = 0
  · subst hZero
    exact .zero
  · have hHead := head?_toDigits_ne_zero (Nat.pos_of_ne_zero hZero)
    have hDigits := isDigits_toDigits n
    cases hText : Nat.toDigits 10 n with
    | nil => exact absurd hText Nat.toDigits_ne_nil
    | cons c cs =>
        rw [hText] at hHead hDigits
        exact .digits c cs hDigits fun hC => hHead (by rw [hC]; rfl)

/-- A natural number is written as a number. -/
theorem isNumeral_toString (n : Nat) : IsNumeral (toString n).toList := by
  rw [Nat.toString_eq_repr, Nat.toList_repr]
  exact .plain _ (.of_isWhole (isWhole_toDigits n))

/-- So is an integer. -/
theorem isNumeral_toString_int (n : Int) : IsNumeral (toString n).toList := by
  cases n with
  | ofNat n => exact isNumeral_toString n
  | negSucc n =>
      have hText : (toString (Int.negSucc n)).toList = '-' :: Nat.toDigits 10 (n + 1) := by
        show ("-" ++ Nat.repr (n + 1)).toList = _
        rw [String.toList_append, Nat.toList_repr]
        rfl
      rw [hText]
      exact .negative _ (.of_isWhole (isWhole_toDigits (n + 1)))

/-! ### Reading numbers -/

/-- A text that does not carry on a number in front of it. -/
def EndsNumber (rest : List Char) : Prop :=
  ∀ c ∈ rest.head?, c.isDigit = false ∧ c ≠ '.' ∧ c ≠ 'e' ∧ c ≠ 'E'

theorem readDigits?_append {ds rest : List Char} (hDigits : IsDigits ds)
    (hRest : ∀ c ∈ rest.head?, c.isDigit = false) : readDigits? (ds ++ rest) = some (ds, rest) := by
  have hStops : rest.takeWhile Char.isDigit = [] ∧ rest.dropWhile Char.isDigit = rest := by
    cases rest with
    | nil => exact ⟨rfl, rfl⟩
    | cons c cs => simp [hRest c rfl]
  have hTake : (ds ++ rest).takeWhile Char.isDigit = ds := by
    rw [List.takeWhile_append_of_pos hDigits.isDigit, hStops.1, List.append_nil]
  have hDrop : (ds ++ rest).dropWhile Char.isDigit = rest := by
    rw [List.dropWhile_append_of_pos hDigits.isDigit, hStops.2]
  rw [readDigits?, hTake, hDrop]
  simp [hDigits.ne_nil]

theorem readWhole?_append {whole rest : List Char} (hWhole : IsWhole whole)
    (hRest : ∀ c ∈ rest.head?, c.isDigit = false) :
    readWhole? (whole ++ rest) = some (whole, rest) := by
  cases hWhole with
  | zero =>
      cases rest with
      | nil => rfl
      | cons c cs => simp [readWhole?, hRest c rfl]
  | digits c cs hDigits hHead =>
      rw [← readDigits?_append hDigits hRest, List.cons_append, readWhole?]
      simp [hHead]

theorem readFraction?_append {fraction rest : List Char} (hFraction : IsFraction fraction)
    (hRest : ∀ c ∈ rest.head?, c.isDigit = false ∧ c ≠ '.') :
    readFraction? (fraction ++ rest) = some (fraction, rest) := by
  cases hFraction with
  | missing =>
      cases rest with
      | nil => rfl
      | cons c cs => simp [readFraction?, (hRest c rfl).2]
  | digits cs hDigits =>
      rw [List.cons_append, readFraction?, readDigits?_append hDigits fun c hC => (hRest c hC).1]
      rfl

theorem readPower?_append {power rest : List Char} (hPower : IsPower power)
    (hRest : EndsNumber rest) : readPower? (power ++ rest) = some (power, rest) := by
  have hDigit : ∀ c ∈ rest.head?, c.isDigit = false := fun c hC => (hRest c hC).1
  cases hPower with
  | missing =>
      cases rest with
      | nil => rfl
      | cons c cs =>
          obtain ⟨-, -, hSmall, hLarge⟩ := hRest c rfl
          simp [readPower?, hSmall, hLarge]
  | digits e cs hMark hDigits =>
      have hRead := readDigits?_append hDigits hDigit
      cases cs with
      | nil => exact absurd rfl hDigits.ne_nil
      | cons c cs =>
          -- a digit is no sign
          have hC := hDigits.isDigit c List.mem_cons_self
          have hPlus : c ≠ '+' := by rintro rfl; cases hC
          have hMinus : c ≠ '-' := by rintro rfl; cases hC
          rcases hMark with rfl | rfl <;> simp_all [readPower?]
  | signed e sign cs hMark hSign hDigits =>
      have hRead := readDigits?_append hDigits hDigit
      rcases hMark with rfl | rfl <;> rcases hSign with rfl | rfl <;> simp [readPower?, hRead]

/-- A power of ten begins with its mark. -/
theorem head?_power_append {power rest : List Char} (hPower : IsPower power)
    (hRest : EndsNumber rest) : ∀ c ∈ (power ++ rest).head?, c.isDigit = false ∧ c ≠ '.' := by
  cases hPower with
  | missing => exact fun c hC => ⟨(hRest c hC).1, (hRest c hC).2.1⟩
  | digits e cs hMark | signed e sign cs hMark =>
      rintro c ⟨⟩
      rcases hMark with rfl | rfl <;> decide

/-- A fraction begins with a point. -/
theorem head?_fraction_append {fraction rest : List Char} (hFraction : IsFraction fraction)
    (hRest : ∀ c ∈ rest.head?, c.isDigit = false) :
    ∀ c ∈ (fraction ++ rest).head?, c.isDigit = false := by
  cases hFraction with
  | missing => exact hRest
  | digits cs =>
      rintro c ⟨⟩
      decide

theorem readMagnitude?_append {cs rest : List Char} (hMagnitude : IsMagnitude cs)
    (hRest : EndsNumber rest) : readMagnitude? (cs ++ rest) = some (cs, rest) := by
  obtain ⟨whole, fraction, power, hWhole, hFraction, hPower⟩ := hMagnitude
  have hAfterFraction := head?_power_append hPower hRest
  have hAfterWhole := head?_fraction_append hFraction fun c hC => (hAfterFraction c hC).1
  rw [List.append_assoc, List.append_assoc, readMagnitude?, readWhole?_append hWhole hAfterWhole]
  simp only [Option.bind_eq_bind, Option.bind_some, readFraction?_append hFraction hAfterFraction,
    readPower?_append hPower hRest, List.append_assoc, Option.pure_def]

/-- A number is read back from any text that it begins, if what follows does not carry it on. -/
theorem readNumber?_append {cs rest : List Char} (hNumeral : IsNumeral cs)
    (hRest : EndsNumber rest) :
    readNumber? (cs ++ rest) = some (number (String.ofList cs), rest) := by
  cases hNumeral with
  | negative cs hMagnitude =>
      rw [List.cons_append, readNumber?, readMagnitude?_append hMagnitude hRest]
      rfl
  | plain cs hMagnitude =>
      have hRead := readMagnitude?_append hMagnitude hRest
      obtain ⟨c, tail, rfl, hHead⟩ := hMagnitude.exists_eq_cons
      have hMinus : c ≠ '-' := by
        rintro rfl
        cases hHead
      rw [List.cons_append] at hRead ⊢
      rw [readNumber?, hRead]
      · rfl
      · rintro _ ⟨⟩
        exact hMinus rfl

/-! ### Numbers that were read -/

theorem eq_append_of_readDigits? {cs ds rest : List Char}
    (hRead : readDigits? cs = some (ds, rest)) : cs = ds ++ rest ∧ IsDigits ds := by
  simp only [readDigits?] at hRead
  split at hRead
  · cases hRead
  · rename_i hSome
    cases hRead
    refine ⟨List.takeWhile_append_dropWhile.symm, by simpa using hSome, ?_⟩
    exact List.all_eq_true.mp List.all_takeWhile

theorem eq_append_of_readWhole? {cs whole rest : List Char}
    (hRead : readWhole? cs = some (whole, rest)) : cs = whole ++ rest ∧ IsWhole whole := by
  unfold readWhole? at hRead
  split at hRead
  · split at hRead
    · split at hRead
      · cases hRead
      · cases hRead
        exact ⟨rfl, .zero⟩
    · cases hRead
      exact ⟨rfl, .zero⟩
  · rename_i hNoZero
    obtain ⟨rfl, hDigits⟩ := eq_append_of_readDigits? hRead
    cases whole with
    | nil => exact absurd rfl hDigits.ne_nil
    | cons c ds =>
        refine ⟨rfl, .digits c ds hDigits ?_⟩
        rintro rfl
        exact hNoZero _ rfl

theorem eq_append_of_readFraction? {cs fraction rest : List Char}
    (hRead : readFraction? cs = some (fraction, rest)) :
    cs = fraction ++ rest ∧ IsFraction fraction := by
  unfold readFraction? at hRead
  split at hRead
  · obtain ⟨⟨ds, tail⟩, hRead, hSame⟩ := Option.map_eq_some_iff.mp hRead
    cases hSame
    obtain ⟨rfl, hDigits⟩ := eq_append_of_readDigits? hRead
    exact ⟨rfl, .digits ds hDigits⟩
  · cases hRead
    exact ⟨rfl, .missing⟩

theorem eq_append_of_readPower? {cs power rest : List Char}
    (hRead : readPower? cs = some (power, rest)) : cs = power ++ rest ∧ IsPower power := by
  unfold readPower? at hRead
  split at hRead
  · rename_i e _
    split at hRead
    · rename_i hMark
      simp only [Bool.or_eq_true, decide_eq_true_eq] at hMark
      split at hRead
      all_goals
        obtain ⟨⟨ds, tail⟩, hRead, hSame⟩ := Option.map_eq_some_iff.mp hRead
        cases hSame
        obtain ⟨rfl, hDigits⟩ := eq_append_of_readDigits? hRead
      · exact ⟨rfl, .signed e '+' ds hMark (Or.inl rfl) hDigits⟩
      · exact ⟨rfl, .signed e '-' ds hMark (Or.inr rfl) hDigits⟩
      · exact ⟨rfl, .digits e ds hMark hDigits⟩
    · cases hRead
      exact ⟨rfl, .missing⟩
  · cases hRead
    exact ⟨rfl, .missing⟩

theorem eq_append_of_readMagnitude? {cs ds rest : List Char}
    (hRead : readMagnitude? cs = some (ds, rest)) : cs = ds ++ rest ∧ IsMagnitude ds := by
  obtain ⟨⟨whole, afterWhole⟩, hReadWhole, hRead⟩ := Option.bind_eq_some_iff.mp hRead
  obtain ⟨⟨fraction, afterFraction⟩, hReadFraction, hRead⟩ := Option.bind_eq_some_iff.mp hRead
  obtain ⟨⟨power, afterPower⟩, hReadPower, hRead⟩ := Option.bind_eq_some_iff.mp hRead
  cases hRead
  obtain ⟨rfl, hWhole⟩ := eq_append_of_readWhole? hReadWhole
  obtain ⟨rfl, hFraction⟩ := eq_append_of_readFraction? hReadFraction
  obtain ⟨rfl, hPower⟩ := eq_append_of_readPower? hReadPower
  exact ⟨by simp only [List.append_assoc], .parts whole fraction power hWhole hFraction hPower⟩

/-- Whatever is read as a number is a number by the grammar, with which the text begins. -/
theorem exists_of_readNumber? {cs rest : List Char} {v : Json}
    (hRead : readNumber? cs = some (v, rest)) :
    ∃ digits, v = number digits ∧ cs = digits.toList ++ rest ∧ IsNumeral digits.toList := by
  unfold readNumber? at hRead
  split at hRead
  all_goals
    obtain ⟨⟨ds, tail⟩, hRead, hSame⟩ := Option.map_eq_some_iff.mp hRead
    cases hSame
    obtain ⟨rfl, hMagnitude⟩ := eq_append_of_readMagnitude? hRead
    refine ⟨_, rfl, ?_⟩
    rw [String.toList_ofList]
  · exact ⟨rfl, .negative ds hMagnitude⟩
  · exact ⟨rfl, .plain ds hMagnitude⟩

end LateBinding.Json
