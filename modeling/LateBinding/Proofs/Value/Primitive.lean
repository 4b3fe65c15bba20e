import LateBinding.Value.Primitive

/-!
# Primitives work on the operands they are chosen for

The types of the operands choose a primitive, and later the primitive takes values apart: it reads
numbers, texts or truth values out of them.  The two analyses fit together.  A primitive that is
chosen for some types has an answer for all values of these types, and there are only two failures:
a whole number is divided by zero, or a repeated text becomes too large.

* `Primitive.Fits` - the operand types that a primitive works on; `fits_of_primitive?` says that a
  primitive is chosen for these only, and belongs to the operator it is chosen for.
* `Value.readable_of_commonWidth?` - numbers can be read in the wider of their types.
* `Primitive.DividesByZero`, `Fits.run?_cases` - what a primitive gives on operands that it fits.
-/

namespace LateBinding

open Dispatch (DispatchError)

/-! ### Types -/

namespace Tag

/-- Two types with a common numeric type are both numeric, and neither is wider. -/
theorem exists_of_commonWidth? {a b : Tag} {w : Width} (hCommon : a.commonWidth? b = some w) :
    ∃ u v, a.width? = some u ∧ b.width? = some v ∧ u.rank ≤ w.rank ∧ v.rank ≤ w.rank := by
  unfold commonWidth? at hCommon
  cases hA : a.width? with
  | none => simp [hA] at hCommon
  | some u =>
      cases hB : b.width? with
      | none => simp [hA, hB] at hCommon
      | some v =>
          simp only [hA, hB, Option.some.injEq] at hCommon
          refine ⟨u, v, rfl, rfl, ?_⟩
          rw [← hCommon, Width.wider]
          split <;> omega

end Tag

/-! ### Values of a type -/

namespace Value

theorem exists_of_tag_text {v : Value} (hTag : v.tag = .text) : ∃ s, v = .text s := by
  cases v with
  | text s => exact ⟨s, rfl⟩
  | _ => cases hTag

theorem exists_of_tag_bool {v : Value} (hTag : v.tag = .bool) : ∃ b, v = .bool b := by
  cases v with
  | bool b => exact ⟨b, rfl⟩
  | _ => cases hTag

theorem exists_of_tag_int {v : Value} (hTag : v.tag = .int) : ∃ i, v = .int i := by
  cases v with
  | int i => exact ⟨i, rfl⟩
  | _ => cases hTag

theorem exists_of_tags_singleton {operands : List Value} {t : Tag}
    (hTags : tags operands = [t]) : ∃ a, operands = [a] ∧ a.tag = t := by
  obtain ⟨a, rfl, hA⟩ := List.map_eq_singleton_iff.mp hTags
  exact ⟨a, rfl, hA⟩

theorem exists_of_tags_pair {operands : List Value} {left right : Tag}
    (hTags : tags operands = [left, right]) :
    ∃ a b, operands = [a, b] ∧ a.tag = left ∧ b.tag = right := by
  obtain ⟨a, rest, rfl, hA, hRest⟩ := List.map_eq_cons_iff.mp hTags
  obtain ⟨b, rfl, hB⟩ := exists_of_tags_singleton hRest
  exact ⟨a, b, rfl, hA, hB⟩

/-- A value can be read as a number of a type. -/
def Readable (w : Width) (v : Value) : Prop :=
  match w with
  | .int => ∃ x, v.toInt32? = some x
  | .long => ∃ x, v.toInt64? = some x
  | .float => ∃ x, v.toFloat32? = some x
  | .double => ∃ x, v.toFloat? = some x

/-- A number can be read in its own type and in every wider one. -/
theorem readable_of_rank_le {v : Value} {u w : Width} (hWidth : v.tag.width? = some u)
    (hRank : u.rank ≤ w.rank) : v.Readable w := by
  cases v with
  | int i => cases w <;> exact ⟨_, rfl⟩
  | long i =>
      cases hWidth
      cases w with
      | int => exact absurd hRank (by decide)
      | _ => exact ⟨_, rfl⟩
  | float x =>
      cases hWidth
      cases w with
      | int | long => exact absurd hRank (by decide)
      | _ => exact ⟨_, rfl⟩
  | double x =>
      cases hWidth
      cases w with
      | double => exact ⟨_, rfl⟩
      | _ => exact absurd hRank (by decide)
  | _ => cases hWidth

/-- Two numbers can be read in their common type. -/
theorem readable_of_commonWidth? {a b : Value} {w : Width}
    (hCommon : a.tag.commonWidth? b.tag = some w) : a.Readable w ∧ b.Readable w := by
  obtain ⟨u, v, hA, hB, hRankA, hRankB⟩ := Tag.exists_of_commonWidth? hCommon
  exact ⟨readable_of_rank_le hA hRankA, readable_of_rank_le hB hRankB⟩

/-- The whole numbers that nothing can be divided by. -/
def IsWholeZero (v : Value) : Prop :=
  v = .int 0 ∨ v = .long 0

theorem toInt32?_eq_zero_iff {v : Value} {x : Int32} (hRead : v.toInt32? = some x) :
    x = 0 ↔ v.IsWholeZero := by
  cases v with
  | int i =>
      cases hRead
      simp [IsWholeZero]
  | _ => cases hRead

theorem toInt64?_eq_zero_iff {v : Value} {x : Int64} (hRead : v.toInt64? = some x) :
    x = 0 ↔ v.IsWholeZero := by
  cases v with
  | int i =>
      cases hRead
      have hWiden : i.toInt64 = 0 ↔ i = 0 := by
        rw [← Int64.toInt_inj, ← Int32.toInt_inj, Int32.toInt_toInt64]
        rfl
      simpa [IsWholeZero] using hWiden
  | long i =>
      cases hRead
      simp [IsWholeZero]
  | _ => cases hRead

end Value

namespace Primitive

/-! ### The choice -/

/-- The operand types that a primitive works on. -/
inductive Fits : Primitive → List Tag → Prop where
  | arithmetic {op : Operator} {w : Width} {left right : Tag} (hOp : op.isArithmetic = true)
      (hWidth : left.commonWidth? right = some w) : Fits (.arithmetic op w) [left, right]
  | concatenation {left right : Tag} (hText : left = .text ∨ right = .text) :
      Fits .concatenation [left, right]
  | repetition : Fits .repetition [.text, .int]
  | numberOrder {op : Operator} {w : Width} {left right : Tag} (hOp : op.isOrdering = true)
      (hWidth : left.commonWidth? right = some w) : Fits (.numberOrder op w) [left, right]
  | textOrder {op : Operator} (hOp : op.isOrdering = true) : Fits (.textOrder op) [.text, .text]
  | equality (negated : Bool) (left right : Tag) : Fits (.equality negated) [left, right]
  | identity (negated : Bool) (left right : Tag) : Fits (.identity negated) [left, right]
  | orIfNull (left right : Tag) : Fits .orIfNull [left, right]
  | not : Fits .not [.bool]
  | negation {w : Width} {operand : Tag} (hWidth : operand.width? = some w) :
      Fits (.negation w) [operand]

theorem fits_of_arithmeticPrimitive? {op : Operator} {left right : Tag} {p : Primitive}
    (hOp : op.isArithmetic = true) (hChosen : op.arithmeticPrimitive? left right = some p) :
    p.operator = op ∧ p.Fits [left, right] := by
  unfold Operator.arithmeticPrimitive? at hChosen
  split at hChosen
  · rename_i w hWidth
    cases hChosen
    exact ⟨rfl, .arithmetic hOp hWidth⟩
  · split at hChosen
    · rename_i hJoins
      cases hChosen
      simp only [Bool.and_eq_true, Bool.or_eq_true, decide_eq_true_eq] at hJoins
      refine ⟨?_, .concatenation hJoins.2⟩
      -- only one operator joins texts
      cases op with
      | plus => rfl
      | _ => cases hJoins.1
    · split at hChosen
      · rename_i hRepeats
        cases hChosen
        simp only [Bool.and_eq_true, decide_eq_true_eq] at hRepeats
        obtain ⟨⟨rfl, rfl⟩, rfl⟩ := hRepeats
        exact ⟨rfl, .repetition⟩
      · cases hChosen

theorem fits_of_orderPrimitive? {op : Operator} {left right : Tag} {p : Primitive}
    (hOp : op.isOrdering = true) (hChosen : op.orderPrimitive? left right = some p) :
    p.operator = op ∧ p.Fits [left, right] := by
  unfold Operator.orderPrimitive? at hChosen
  split at hChosen
  · rename_i hTexts
    cases hChosen
    simp only [Bool.and_eq_true, decide_eq_true_eq] at hTexts
    obtain ⟨rfl, rfl⟩ := hTexts
    exact ⟨rfl, .textOrder hOp⟩
  · obtain ⟨w, hWidth, rfl⟩ := Option.map_eq_some_iff.mp hChosen
    exact ⟨rfl, .numberOrder hOp hWidth⟩

/-- A primitive that is chosen for an operator belongs to it, and works on the types it is chosen
for. -/
theorem fits_of_primitive? {op : Operator} {operands : List Tag} {p : Primitive}
    (hChosen : op.primitive? operands = some p) : p.operator = op ∧ p.Fits operands := by
  unfold Operator.primitive? at hChosen
  split at hChosen
  case h_1 =>
    cases hChosen
    exact ⟨rfl, .not⟩
  case h_2 operand =>
    obtain ⟨w, hWidth, rfl⟩ := Option.map_eq_some_iff.mp hChosen
    exact ⟨rfl, .negation hWidth⟩
  case h_3 =>
    cases hChosen
    exact ⟨rfl, .equality ..⟩
  case h_4 =>
    cases hChosen
    exact ⟨rfl, .equality ..⟩
  case h_5 =>
    cases hChosen
    exact ⟨rfl, .identity ..⟩
  case h_6 =>
    cases hChosen
    exact ⟨rfl, .identity ..⟩
  case h_7 =>
    cases hChosen
    exact ⟨rfl, .orIfNull ..⟩
  case h_8 =>
    split at hChosen
    · rename_i hOp
      exact fits_of_arithmeticPrimitive? hOp hChosen
    · split at hChosen
      · rename_i hOp
        exact fits_of_orderPrimitive? hOp hChosen
      · cases hChosen
  case h_9 => cases hChosen

/-! ### Arithmetic -/

/-- A division of whole numbers by zero. -/
def DividesByZero (op : Operator) (operands : List Value) : Prop :=
  (op = .divide ∨ op = .modulo) ∧
    ∃ a b, operands = [a, b] ∧
      (a.tag.commonWidth? b.tag = some .int ∨ a.tag.commonWidth? b.tag = some .long) ∧
      b.IsWholeZero

theorem dividesByZero_pair_iff {op : Operator} {a b : Value} {w : Width}
    (hWidth : a.tag.commonWidth? b.tag = some w) :
    DividesByZero op [a, b] ↔
      (op = .divide ∨ op = .modulo) ∧ (w = .int ∨ w = .long) ∧ b.IsWholeZero := by
  unfold DividesByZero
  refine and_congr_right fun _ => ?_
  constructor
  · rintro ⟨c, d, hSame, hWhole, hZero⟩
    obtain ⟨rfl, rfl⟩ : a = c ∧ b = d := by simpa using hSame
    rw [hWidth] at hWhole
    exact ⟨by simpa using hWhole, hZero⟩
  · rintro ⟨hWhole, hZero⟩
    refine ⟨a, b, rfl, ?_, hZero⟩
    rw [hWidth]
    simpa using hWhole

theorem not_dividesByZero_of_isOrdering {op : Operator} {operands : List Value}
    (hOp : op.isOrdering = true) : ¬DividesByZero op operands := by
  rintro ⟨rfl | rfl, -⟩ <;> cases hOp

/-- Whole-number arithmetic fails on a zero divisor and nowhere else. -/
theorem exists_integerArithmetic? {α : Type} [Add α] [Sub α] [Mul α] [Div α] [Mod α] [OfNat α 0]
    [DecidableEq α] {op : Operator} (hOp : op.isArithmetic = true) (a b : α) :
    ∃ c, integerArithmetic? op a b =
      some (if (op = .divide ∨ op = .modulo) ∧ b = 0 then .error (.divisionByZero op)
        else .ok c) := by
  cases op with
  | plus => exact ⟨a + b, by simp [integerArithmetic?]⟩
  | minus => exact ⟨a - b, by simp [integerArithmetic?]⟩
  | times => exact ⟨a * b, by simp [integerArithmetic?]⟩
  | divide => exact ⟨a / b, by simp [integerArithmetic?]⟩
  | modulo => exact ⟨a % b, by simp [integerArithmetic?]⟩
  | _ => cases hOp

/-- Arithmetic on numbers with a fraction does not fail. -/
theorem exists_fractionArithmetic? {α : Type} [Add α] [Sub α] [Mul α] [Div α] {op : Operator}
    (hOp : op.isArithmetic = true) (remainder : α → α → α) (a b : α) :
    ∃ c, fractionArithmetic? remainder op a b = some (.ok c) := by
  cases op with
  | plus => exact ⟨a + b, rfl⟩
  | minus => exact ⟨a - b, rfl⟩
  | times => exact ⟨a * b, rfl⟩
  | divide => exact ⟨a / b, rfl⟩
  | modulo => exact ⟨remainder a b, rfl⟩
  | _ => cases hOp

theorem onNumbers?_eq {α : Type} {read : Value → Option α} (make : α → Value)
    (run : α → α → Option (Except DispatchError α)) {a b : Value} {x y : α}
    (hA : read a = some x) (hB : read b = some y) :
    onNumbers? read make run a b = (run x y).map fun result => result.map make := by
  rw [onNumbers?, hA, hB]

/-- Reading whole numbers and computing with them fails on a zero divisor and nowhere else. -/
theorem onNumbers?_integer_cases {α : Type} [Add α] [Sub α] [Mul α] [Div α] [Mod α] [OfNat α 0]
    [DecidableEq α] {read : Value → Option α} (make : α → Value) {op : Operator} {w : Width}
    {a b : Value} {x y : α} (hOp : op.isArithmetic = true)
    (hWidth : a.tag.commonWidth? b.tag = some w) (hWhole : w = .int ∨ w = .long)
    (hA : read a = some x) (hB : read b = some y) (hZero : y = 0 ↔ b.IsWholeZero) :
    (¬DividesByZero op [a, b] ∧
      ∃ v, onNumbers? read make (integerArithmetic? op) a b = some (.ok v)) ∨
    (DividesByZero op [a, b] ∧
      onNumbers? read make (integerArithmetic? op) a b = some (.error (.divisionByZero op))) := by
  obtain ⟨c, hC⟩ := exists_integerArithmetic? hOp x y
  rw [onNumbers?_eq make _ hA hB, hC, dividesByZero_pair_iff hWidth, ← hZero]
  by_cases hFails : (op = .divide ∨ op = .modulo) ∧ y = 0
  · rw [if_pos hFails]
    exact Or.inr ⟨⟨hFails.1, hWhole, hFails.2⟩, rfl⟩
  · rw [if_neg hFails]
    exact Or.inl ⟨fun hDivides => hFails ⟨hDivides.1, hDivides.2.2⟩, make c, rfl⟩

/-- Reading numbers and computing with them as numbers with a fraction does not fail. -/
theorem exists_onNumbers?_fraction {α : Type} [Add α] [Sub α] [Mul α] [Div α]
    {read : Value → Option α} (make : α → Value) (remainder : α → α → α) {op : Operator}
    {a b : Value} {x y : α} (hOp : op.isArithmetic = true) (hA : read a = some x)
    (hB : read b = some y) :
    ∃ v, onNumbers? read make (fractionArithmetic? remainder op) a b = some (.ok v) := by
  obtain ⟨c, hC⟩ := exists_fractionArithmetic? hOp remainder x y
  rw [onNumbers?_eq make _ hA hB, hC]
  exact ⟨make c, rfl⟩

/-- Arithmetic in the common type of two numbers fails where whole numbers are divided by zero, and
nowhere else. -/
theorem arithmetic?_cases {op : Operator} {w : Width} {a b : Value} (hOp : op.isArithmetic = true)
    (hWidth : a.tag.commonWidth? b.tag = some w) :
    (¬DividesByZero op [a, b] ∧ ∃ v, arithmetic? op w a b = some (.ok v)) ∨
    (DividesByZero op [a, b] ∧ arithmetic? op w a b = some (.error (.divisionByZero op))) := by
  obtain ⟨hReadA, hReadB⟩ := Value.readable_of_commonWidth? hWidth
  cases w with
  | int =>
      obtain ⟨x, hA⟩ := hReadA
      obtain ⟨y, hB⟩ := hReadB
      exact onNumbers?_integer_cases .int hOp hWidth (Or.inl rfl) hA hB
        (Value.toInt32?_eq_zero_iff hB)
  | long =>
      obtain ⟨x, hA⟩ := hReadA
      obtain ⟨y, hB⟩ := hReadB
      exact onNumbers?_integer_cases .long hOp hWidth (Or.inr rfl) hA hB
        (Value.toInt64?_eq_zero_iff hB)
  | float =>
      obtain ⟨x, hA⟩ := hReadA
      obtain ⟨y, hB⟩ := hReadB
      refine Or.inl ⟨?_, exists_onNumbers?_fraction .float _ hOp hA hB⟩
      simp [dividesByZero_pair_iff hWidth]
  | double =>
      obtain ⟨x, hA⟩ := hReadA
      obtain ⟨y, hB⟩ := hReadB
      refine Or.inl ⟨?_, exists_onNumbers?_fraction .double _ hOp hA hB⟩
      simp [dividesByZero_pair_iff hWidth]

/-! ### Every primitive -/

/-- Two numbers compare in their common type. -/
theorem exists_compareAs? {a b : Value} {w : Width} (hWidth : a.tag.commonWidth? b.tag = some w) :
    ∃ order, a.compareAs? w b = some order := by
  -- numbers of type `int` are compared as those of type `long`
  have hLong : ∀ v : Value, v.Readable .int → v.Readable .long := by
    rintro v ⟨x, hRead⟩
    cases v with
    | int i => exact ⟨_, rfl⟩
    | _ => cases hRead
  obtain ⟨hReadA, hReadB⟩ := Value.readable_of_commonWidth? hWidth
  cases w with
  | int =>
      obtain ⟨x, hA⟩ := hLong a hReadA
      obtain ⟨y, hB⟩ := hLong b hReadB
      exact ⟨_, by rw [Value.compareAs?, hA, hB]⟩
  | long | float | double =>
      obtain ⟨x, hA⟩ := hReadA
      obtain ⟨y, hB⟩ := hReadB
      exact ⟨_, by rw [Value.compareAs?, hA, hB]⟩

/-- A number has a negative. -/
theorem exists_negated? {a : Value} {w : Width} (hWidth : a.tag.width? = some w) :
    ∃ v, negated? a = some v := by
  cases a with
  | int i => exact ⟨_, rfl⟩
  | long i => exact ⟨_, rfl⟩
  | float x => exact ⟨_, rfl⟩
  | double x => exact ⟨_, rfl⟩
  | _ => cases hWidth

/-- A primitive has an answer for operands of the types that it works on.  The answer is a value,
unless a whole number is divided by zero or a repeated text would become too large. -/
theorem Fits.run?_cases {p : Primitive} {operands : List Value}
    (hFits : p.Fits (Value.tags operands)) :
    (¬DividesByZero p.operator operands ∧ ∃ v, p.run? operands = some (.ok v)) ∨
    (DividesByZero p.operator operands ∧
      p.run? operands = some (.error (.divisionByZero p.operator))) ∨
    (p.operator = .times ∧ ∃ s count, operands = [.text s, .int count] ∧
      repeatLimit < s.utf8ByteSize * count.toInt.toNat ∧
      p.run? operands = some (.error (.repeatTooLarge s.utf8ByteSize count repeatLimit))) := by
  generalize hTags : Value.tags operands = types at hFits
  cases hFits with
  | @arithmetic op w left right hOp hWidth =>
      obtain ⟨a, b, rfl, rfl, rfl⟩ := Value.exists_of_tags_pair hTags
      rcases arithmetic?_cases hOp hWidth with hValue | hFails
      · exact Or.inl hValue
      · exact Or.inr (Or.inl hFails)
  | concatenation =>
      obtain ⟨a, b, rfl, -, -⟩ := Value.exists_of_tags_pair hTags
      exact Or.inl ⟨by simp [DividesByZero, operator], _, rfl⟩
  | repetition =>
      obtain ⟨a, b, rfl, hA, hB⟩ := Value.exists_of_tags_pair hTags
      obtain ⟨s, rfl⟩ := Value.exists_of_tag_text hA
      obtain ⟨count, rfl⟩ := Value.exists_of_tag_int hB
      by_cases hFitting : s.utf8ByteSize * count.toInt.toNat ≤ repeatLimit
      · refine Or.inl ⟨by simp [DividesByZero, operator],
          .text (Text.repeated s count.toInt.toNat), ?_⟩
        rw [run?, repeatText, if_pos hFitting]
      · refine Or.inr (Or.inr ⟨rfl, s, count, rfl, Nat.lt_of_not_le hFitting, ?_⟩)
        rw [run?, repeatText, if_neg hFitting]
  | @numberOrder op w left right hOp hWidth =>
      obtain ⟨a, b, rfl, rfl, rfl⟩ := Value.exists_of_tags_pair hTags
      obtain ⟨order, hOrder⟩ := exists_compareAs? hWidth
      refine Or.inl ⟨not_dividesByZero_of_isOrdering hOp, .bool (op.holds order), ?_⟩
      rw [run?, hOrder, Option.map_some]
  | textOrder hOp =>
      obtain ⟨a, b, rfl, hA, hB⟩ := Value.exists_of_tags_pair hTags
      obtain ⟨s, rfl⟩ := Value.exists_of_tag_text hA
      obtain ⟨t, rfl⟩ := Value.exists_of_tag_text hB
      exact Or.inl ⟨not_dividesByZero_of_isOrdering hOp, _, rfl⟩
  | equality negated =>
      obtain ⟨a, b, rfl, -, -⟩ := Value.exists_of_tags_pair hTags
      exact Or.inl ⟨by cases negated <;> simp [DividesByZero, operator], _, rfl⟩
  | identity negated =>
      obtain ⟨a, b, rfl, -, -⟩ := Value.exists_of_tags_pair hTags
      exact Or.inl ⟨by cases negated <;> simp [DividesByZero, operator], _, rfl⟩
  | orIfNull =>
      obtain ⟨a, b, rfl, -, -⟩ := Value.exists_of_tags_pair hTags
      exact Or.inl ⟨by simp [DividesByZero, operator], _, rfl⟩
  | not =>
      obtain ⟨a, rfl, hA⟩ := Value.exists_of_tags_singleton hTags
      obtain ⟨b, rfl⟩ := Value.exists_of_tag_bool hA
      exact Or.inl ⟨by simp [DividesByZero, operator], _, rfl⟩
  | negation hWidth =>
      obtain ⟨a, rfl, rfl⟩ := Value.exists_of_tags_singleton hTags
      obtain ⟨v, hV⟩ := exists_negated? hWidth
      refine Or.inl ⟨by simp [DividesByZero, operator], v, ?_⟩
      rw [run?, hV, Option.map_some]

end Primitive

end LateBinding
