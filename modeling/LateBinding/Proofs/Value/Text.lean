import Mathlib.Algebra.Group.Nat.Defs
import LateBinding.Proofs.Value.Evaluation

/-!
# Operators on text

A text is joined with any value by `+`, and repeated by `*`.  Joining turns its operands into text
and sets them side by side, so it does not matter which of two joins is done first.  Repetition is
refused if the result would be too large, and otherwise adds up over the number of times.

* `evaluate_plus_text_left`, `evaluate_plus_text_right` - joining, whichever operand is the text.
* `Text.repeated_eq_join` - repeated text as a list of texts.
* `Primitive.repeatText_cases`, `Primitive.exists_repeatText_of_add` - when repetition succeeds, and
  how it adds up.
* `Primitive.repeatInWords_eq` - the bound is right also if the size of the result is computed in
  machine words, as long as an overflow is noticed.
* `evaluate_text` - the laws of both operators.
-/

namespace LateBinding

open Dispatch (DispatchError)

/-- Nothing has a numeric type in common with a text. -/
theorem Tag.commonWidth?_text_right (t : Tag) : t.commonWidth? .text = none := by
  rw [commonWidth?_comm]
  rfl

/-- Repeated text is a number of copies joined together. -/
theorem Text.repeated_eq_join (s : String) (n : Nat) :
    repeated s n = String.join (List.replicate n s) := by
  induction n with
  | zero => rw [repeated_zero, List.replicate_zero, String.join_nil]
  | succ n ih => rw [repeated_succ, ih, List.replicate_succ', String.join_append, String.join_cons,
      String.join_nil, String.append_empty]

/-! ### Joining -/

namespace Operator

theorem evaluate_plus_text_right (a : Value) (s : String) :
    plus.evaluate [a, .text s] = .ok (.text (a.toText ++ s)) := by
  refine evaluate_eq (p := .concatenation) ?_ ?_
  · show plus.arithmeticPrimitive? a.tag .text = _
    simp [arithmeticPrimitive?, Tag.commonWidth?_text_right, isAdditive]
  · rw [Primitive.run?, Value.toText]

theorem evaluate_plus_text_left (s : String) (c : Value) :
    plus.evaluate [.text s, c] = .ok (.text (s ++ c.toText)) := by
  refine evaluate_eq (p := .concatenation) rfl ?_
  rw [Primitive.run?, Value.toText]

theorem evaluate_times_text (s : String) (count : Int32) :
    times.evaluate [.text s, .int count] = Primitive.repeatText s count :=
  evaluate_eq (p := .repetition) rfl rfl

end Operator

/-! ### Repeating -/

namespace Primitive

/-- The size of a repeated text, in bytes; a negative number of times counts as none. -/
def repeatedSize (s : String) (count : Int32) : Nat :=
  s.utf8ByteSize * count.toInt.toNat

/-- Repetition is refused exactly if the size of the result goes beyond the limit. -/
theorem repeatText_cases (s : String) (count : Int32) :
    (repeatedSize s count ≤ repeatLimit ∧
      repeatText s count = .ok (.text (Text.repeated s count.toInt.toNat))) ∨
    (repeatLimit < repeatedSize s count ∧
      repeatText s count = .error (.repeatTooLarge s.utf8ByteSize count repeatLimit)) := by
  by_cases hFits : repeatedSize s count ≤ repeatLimit
  · exact Or.inl ⟨hFits, if_pos hFits⟩
  · exact Or.inr ⟨Nat.lt_of_not_le hFits, if_neg hFits⟩

/-- A text can be repeated fewer times, and in two parts. -/
theorem exists_repeatText_of_add {s : String} {m n k : Int32} (hM : 0 ≤ m.toInt) (hN : 0 ≤ n.toInt)
    (hSum : k.toInt = m.toInt + n.toInt) {whole : Value} (hWhole : repeatText s k = .ok whole) :
    ∃ first second : String, repeatText s m = .ok (.text first) ∧
      repeatText s n = .ok (.text second) ∧ whole = .text (first ++ second) := by
  have hTimes : k.toInt.toNat = m.toInt.toNat + n.toInt.toNat := by omega
  rcases repeatText_cases s k with ⟨hFits, hK⟩ | ⟨-, hK⟩
  · have hParts : repeatedSize s m + repeatedSize s n ≤ repeatLimit := by
      rw [repeatedSize, hTimes, Nat.mul_add] at hFits
      exact hFits
    refine ⟨_, _, if_pos (Nat.le_trans (Nat.le_add_right _ _) hParts),
      if_pos (Nat.le_trans (Nat.le_add_left _ _) hParts), ?_⟩
    rw [hWhole, hTimes, Text.repeated_add] at hK
    exact Except.ok.inj hK
  · rw [hWhole] at hK
    cases hK

/-- The product of two machine words, if it is a word. -/
def checkedProduct? {bits : Nat} (x y : BitVec bits) : Option (BitVec bits) :=
  if x.umulOverflow y then none else some (x * y)

/-- Repetition with the size of the result computed in machine words. -/
def repeatInWords (bits : Nat) (s : String) (count : Int32) : Except DispatchError Value :=
  match checkedProduct? (BitVec.ofNat bits s.utf8ByteSize)
      (BitVec.ofNat bits count.toInt.toNat) with
  | some size =>
      if size.toNat ≤ repeatLimit then .ok (.text (Text.repeated s count.toInt.toNat))
      else .error (.repeatTooLarge s.utf8ByteSize count repeatLimit)
  | none => .error (.repeatTooLarge s.utf8ByteSize count repeatLimit)

/-- The checked product of two numbers that are words is their product, if that is a word. -/
theorem checkedProduct?_ofNat {bits m n : Nat} (hM : m < 2 ^ bits) (hN : n < 2 ^ bits) :
    (checkedProduct? (BitVec.ofNat bits m) (BitVec.ofNat bits n)).map BitVec.toNat =
      if m * n < 2 ^ bits then some (m * n) else none := by
  have hOverflow : (BitVec.ofNat bits m).umulOverflow (BitVec.ofNat bits n) =
      decide (2 ^ bits ≤ m * n) := by
    simp [BitVec.umulOverflow, Nat.mod_eq_of_lt hM, Nat.mod_eq_of_lt hN]
  rw [checkedProduct?, hOverflow]
  by_cases hWord : m * n < 2 ^ bits
  · simp [hWord, Nat.not_le_of_lt hWord, Nat.mod_eq_of_lt hWord]
  · simp [hWord, Nat.le_of_not_lt hWord]

/-- Machine words that can hold the size of the text and every count give the right bound. -/
theorem repeatInWords_eq {bits : Nat} {s : String} (count : Int32) (hBits : 31 ≤ bits)
    (hSize : s.utf8ByteSize < 2 ^ bits) : repeatInWords bits s count = repeatText s count := by
  have hRange : 2 ^ 31 ≤ 2 ^ bits := Nat.pow_le_pow_right (by decide) hBits
  have hTimes : count.toInt.toNat < 2 ^ bits := by
    have hLt := count.toInt_lt
    omega
  have hProduct := checkedProduct?_ofNat hSize hTimes
  unfold repeatInWords repeatText
  split
  · rename_i size hChecked
    rw [hChecked, Option.map_some] at hProduct
    split at hProduct
    · rw [Option.some.inj hProduct]
    · cases hProduct
  · rename_i hChecked
    rw [hChecked, Option.map_none] at hProduct
    split at hProduct
    · cases hProduct
    · -- a product that is no word is beyond the limit
      rename_i hNoWord
      have hLimit : repeatLimit < 2 ^ 31 := by decide
      rw [if_neg (by omega)]

end Primitive

/-! ### The laws -/

namespace Operator

/-- **Joining is associative around a text, and repetition adds up.**  A text can be joined with any
value on either side; with values on both sides, it does not matter which join is done first: the
result is the texts of the three, in order.  A text is repeated exactly if the size of the result,
in which a negative number of times counts as none, is within the limit, and the result is then so
many copies and has this size; otherwise the failure names the size of the text and the number of
times.  Computing the size in machine words, and refusing an overflow, makes no difference.  What can
be repeated `m + n` times can be repeated `m` and `n` times, and the two joined are the whole. -/
theorem evaluate_text (s : String) (a c : Value) :
    plus.evaluate [a, .text s] = .ok (.text (a.toText ++ s)) ∧
    plus.evaluate [.text s, a] = .ok (.text (s ++ a.toText)) ∧
    (plus.evaluate [a, .text s] >>= fun left => plus.evaluate [left, c]) =
      .ok (.text (a.toText ++ s ++ c.toText)) ∧
    (plus.evaluate [.text s, c] >>= fun right => plus.evaluate [a, right]) =
      .ok (.text (a.toText ++ s ++ c.toText)) ∧
    (∀ n : Int32,
      (s.utf8ByteSize * n.toInt.toNat ≤ repeatLimit ∧
        ∃ t : String, times.evaluate [.text s, .int n] = .ok (.text t) ∧
          t = String.join (List.replicate n.toInt.toNat s) ∧
          t.utf8ByteSize = s.utf8ByteSize * n.toInt.toNat) ∨
      (repeatLimit < s.utf8ByteSize * n.toInt.toNat ∧
        times.evaluate [.text s, .int n] =
          .error (.repeatTooLarge s.utf8ByteSize n repeatLimit))) ∧
    (∀ (bits : Nat) (n : Int32), 31 ≤ bits → s.utf8ByteSize < 2 ^ bits →
      times.evaluate [.text s, .int n] = Primitive.repeatInWords bits s n) ∧
    ∀ m n k : Int32, 0 ≤ m.toInt → 0 ≤ n.toInt → k.toInt = m.toInt + n.toInt →
      ∀ whole, times.evaluate [.text s, .int k] = .ok whole →
        ∃ first second, times.evaluate [.text s, .int m] = .ok first ∧
          times.evaluate [.text s, .int n] = .ok second ∧
          plus.evaluate [first, second] = .ok whole := by
  refine ⟨evaluate_plus_text_right a s, evaluate_plus_text_left s a, ?_, ?_, ?_, ?_, ?_⟩
  · rw [evaluate_plus_text_right]
    exact evaluate_plus_text_left _ c
  · rw [evaluate_plus_text_left, String.append_assoc]
    exact evaluate_plus_text_right a _
  · intro n
    rw [evaluate_times_text]
    rcases Primitive.repeatText_cases s n with ⟨hFits, hOk⟩ | hRefused
    · exact Or.inl ⟨hFits, _, hOk, Text.repeated_eq_join s _, Text.repeated_utf8ByteSize s _⟩
    · exact Or.inr hRefused
  · intro bits n hBits hSize
    rw [evaluate_times_text, Primitive.repeatInWords_eq n hBits hSize]
  · intro m n k hM hN hSum whole hWhole
    rw [evaluate_times_text] at hWhole
    obtain ⟨first, second, hFirst, hSecond, rfl⟩ :=
      Primitive.exists_repeatText_of_add hM hN hSum hWhole
    refine ⟨.text first, .text second, ?_, ?_, ?_⟩
    · rw [evaluate_times_text, hFirst]
    · rw [evaluate_times_text, hSecond]
    · rw [evaluate_plus_text_left, Value.toText]

end Operator

end LateBinding
