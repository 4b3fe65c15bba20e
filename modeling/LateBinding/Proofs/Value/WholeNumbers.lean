import Mathlib.Data.Int.ModEq
import LateBinding.Proofs.Value.Evaluation

/-!
# Arithmetic on whole numbers

The values of the types `int` and `long` stand for whole numbers of 32 and 64 bits.  Arithmetic on
them is that of the whole numbers, brought back into the range of the wider type.  Both types follow
the same laws, which are stated once (`IsModular`) and used for either.

* `Value.IsWhole` - the whole number that a value of a type stands for.
* `Value.IsWrapped`, `isWrapped_iff` - the one value of a type that is congruent to a number.
* `Operator.exactResult?` - the exact result of an operator; a division by zero has none.
* `IsWhole.evaluate_cases` - an operator evaluates to its exact result, wrapped.
* `evaluate_whole` - the laws of the single operators.
-/

namespace LateBinding

open Dispatch (DispatchError)

/-- The number of bits of a numeric type. -/
def Width.bits : Width → Nat
  | int | float => 32
  | long | double => 64

theorem Width.wider_wider_right (v w : Width) : (v.wider w).wider w = v.wider w := by
  cases v <;> cases w <;> rfl

/-- Wrapping a number gives the one in the range of the type that is congruent to it. -/
theorem Width.bmod_eq_iff (w : Width) (z n : Int) :
    z.bmod (2 ^ w.bits) = n ↔
      (-2 ^ (w.bits - 1) ≤ n ∧ n < 2 ^ (w.bits - 1)) ∧ n ≡ z [ZMOD 2 ^ w.bits] := by
  rw [Int.bmod_eq_iff (Nat.two_pow_pos _), Int.modEq_comm, Int.modEq_iff_dvd, Nat.cast_pow,
    Nat.cast_ofNat, ← and_assoc]
  refine and_congr_left' ?_
  cases w <;> simp only [Width.bits] <;> omega

namespace Value

/-! ### The whole number of a value -/

/-- A value of a whole-number type stands for a number. -/
inductive IsWhole : Value → Width → Int → Prop where
  | int (i : Int32) : IsWhole (.int i) .int i.toInt
  | long (i : Int64) : IsWhole (.long i) .long i.toInt

/-- The values of whole-number types are those of type `int` and `long`. -/
theorem exists_isWhole_iff (v : Value) :
    (∃ w n, v.IsWhole w n) ↔ v.tag = .int ∨ v.tag = .long := by
  constructor
  · rintro ⟨w, n, hV⟩
    cases hV with
    | int i => exact Or.inl rfl
    | long i => exact Or.inr rfl
  · cases v with
    | int i => exact fun _ => ⟨.int, i.toInt, .int i⟩
    | long i => exact fun _ => ⟨.long, i.toInt, .long i⟩
    | _ => rintro (hTag | hTag) <;> cases hTag

namespace IsWhole

variable {a b : Value} {v w : Width} {x y : Int}

theorem tag_eq (hA : a.IsWhole v x) : a.tag = .ofWidth v := by
  cases hA <;> rfl

theorem width?_eq (hA : a.IsWhole v x) : a.tag.width? = some v := by
  rw [hA.tag_eq, Tag.width?_ofWidth]

theorem commonWidth?_eq (hA : a.IsWhole v x) (hB : b.IsWhole w y) :
    a.tag.commonWidth? b.tag = some (v.wider w) := by
  rw [Tag.commonWidth?, hA.width?_eq, hB.width?_eq]

/-- A number of a type stays within its range. -/
theorem bounds (hA : a.IsWhole v x) : -2 ^ (v.bits - 1) ≤ x ∧ x < 2 ^ (v.bits - 1) := by
  cases hA with
  | int i => exact ⟨i.le_toInt, i.toInt_lt⟩
  | long i => exact ⟨i.le_toInt, i.toInt_lt⟩

/-- A number has one value in a type. -/
theorem unique (hA : a.IsWhole v x) (hB : b.IsWhole v x) : a = b := by
  cases hA with
  | int i =>
      generalize hNumber : i.toInt = z at hB
      cases hB with
      | int j => rw [Int32.toInt_inj.mp hNumber]
  | long i =>
      generalize hNumber : i.toInt = z at hB
      cases hB with
      | long j => rw [Int64.toInt_inj.mp hNumber]

end IsWhole

/-! ### Wrapping -/

namespace IsWhole

variable {a b : Value} {v w : Width} {x y : Int}

/-- Among the numbers congruent to `z`, the one in the range of the type is the wrapped one. -/
theorem modEq_iff (hA : a.IsWhole v x) (z : Int) :
    x ≡ z [ZMOD 2 ^ v.bits] ↔ z.bmod (2 ^ v.bits) = x := by
  rw [Width.bmod_eq_iff]
  exact (and_iff_right hA.bounds).symm

/-- A number of a type is not changed by wrapping. -/
theorem bmod_eq_self (hA : a.IsWhole v x) : x.bmod (2 ^ v.bits) = x :=
  (hA.modEq_iff x).mp (Int.ModEq.refl x)

end IsWhole

/-- The value of a type that is congruent to a number. -/
def IsWrapped (c : Value) (w : Width) (z : Int) : Prop :=
  ∃ n, c.IsWhole w n ∧ n ≡ z [ZMOD 2 ^ w.bits]

theorem isWrapped_iff (c : Value) (w : Width) (z : Int) :
    c.IsWrapped w z ↔ c.IsWhole w (z.bmod (2 ^ w.bits)) := by
  constructor
  · rintro ⟨n, hC, hCongruent⟩
    rwa [(hC.modEq_iff z).mp hCongruent]
  · exact fun hC => ⟨_, hC, (hC.modEq_iff z).mpr rfl⟩

namespace IsWhole

variable {a b : Value} {v w : Width} {x y : Int}

/-- A number of a type is one of every wider type. -/
theorem exists_wider (hA : a.IsWhole v x) (hB : b.IsWhole w y) :
    ∃ c : Value, c.IsWhole (v.wider w) x := by
  have hWiden : ∀ i : Int32, (Value.long i.toInt64).IsWhole .long i.toInt := by
    intro i
    rw [← Int32.toInt_toInt64]
    exact .long i.toInt64
  cases hA with
  | int i =>
      cases hB with
      | int j => exact ⟨_, .int i⟩
      | long j => exact ⟨_, hWiden i⟩
  | long i =>
      cases hB with
      | int j | long j => exact ⟨_, .long i⟩

/-- Two whole numbers are both of type `int`, or the wider of their types is `long`. -/
theorem eq_int_or_wider_eq_long (hA : a.IsWhole v x) (hB : b.IsWhole w y) :
    (v = .int ∧ w = .int) ∨ v.wider w = .long := by
  cases hA <;> cases hB <;> simp [Width.wider, Width.rank]

/-- The number that is read as an `int`. -/
theorem exists_toInt32? (hA : a.IsWhole .int x) : ∃ i, a.toInt32? = some i ∧ i.toInt = x := by
  cases hA with
  | int i => exact ⟨i, rfl, rfl⟩

/-- The number that is read as a `long`. -/
theorem exists_toInt64? (hA : a.IsWhole v x) : ∃ i, a.toInt64? = some i ∧ i.toInt = x := by
  cases hA with
  | int i => exact ⟨i.toInt64, rfl, Int32.toInt_toInt64 i⟩
  | long i => exact ⟨i, rfl, rfl⟩

end IsWhole

end Value

/-! ### Exact results -/

/-- The exact result of an arithmetic operator on whole numbers: the quotient is rounded towards
zero, and the remainder is what it leaves.  A division by zero has no result. -/
def Operator.exactResult? (op : Operator) (x y : Int) : Option Int :=
  match op with
  | .plus => some (x + y)
  | .minus => some (x - y)
  | .times => some (x * y)
  | .divide => if y = 0 then none else some (x.tdiv y)
  | .modulo => if y = 0 then none else some (x.tmod y)
  | _ => none

/-- The laws of a fixed-width integer type that makes the values of a numeric type: its operations
are those of the whole numbers, wrapped. -/
structure IsModular {α : Type} [Add α] [Sub α] [Mul α] [Div α] [Mod α] [OfNat α 0] (w : Width)
    (make : α → Value) (number : α → Int) : Prop where
  isWhole : ∀ i, (make i).IsWhole w (number i)
  number_eq_zero_iff : ∀ i, number i = 0 ↔ i = 0
  number_add : ∀ i j, number (i + j) = (number i + number j).bmod (2 ^ w.bits)
  number_sub : ∀ i j, number (i - j) = (number i - number j).bmod (2 ^ w.bits)
  number_mul : ∀ i j, number (i * j) = (number i * number j).bmod (2 ^ w.bits)
  number_div : ∀ i j, number (i / j) = ((number i).tdiv (number j)).bmod (2 ^ w.bits)
  number_mod : ∀ i j, number (i % j) = (number i).tmod (number j)

theorem isModular_int : IsModular .int Value.int Int32.toInt where
  isWhole := .int
  number_eq_zero_iff i := by rw [← Int32.toInt_zero, Int32.toInt_inj]
  number_add := Int32.toInt_add
  number_sub := Int32.toInt_sub
  number_mul := Int32.toInt_mul
  number_div := Int32.toInt_div
  number_mod := Int32.toInt_mod

theorem isModular_long : IsModular .long Value.long Int64.toInt where
  isWhole := .long
  number_eq_zero_iff i := by rw [← Int64.toInt_zero, Int64.toInt_inj]
  number_add := Int64.toInt_add
  number_sub := Int64.toInt_sub
  number_mul := Int64.toInt_mul
  number_div := Int64.toInt_div
  number_mod := Int64.toInt_mod

namespace IsModular

variable {α : Type} [Add α] [Sub α] [Mul α] [Div α] [Mod α] [OfNat α 0] [DecidableEq α] {w : Width}
  {make : α → Value} {number : α → Int} {op : Operator}

/-- Arithmetic gives the exact result, wrapped, or divides by zero. -/
theorem integerArithmetic?_cases (hModular : IsModular w make number)
    (hOp : op.isArithmetic = true) (i j : α) :
    (∃ z k, op.exactResult? (number i) (number j) = some z ∧
      Primitive.integerArithmetic? op i j = some (.ok k) ∧ number k = z.bmod (2 ^ w.bits)) ∨
    (op.exactResult? (number i) (number j) = none ∧
      Primitive.integerArithmetic? op i j = some (.error (.divisionByZero op))) := by
  have hZero := hModular.number_eq_zero_iff j
  cases op with
  | plus => exact Or.inl ⟨_, i + j, rfl, rfl, hModular.number_add i j⟩
  | minus => exact Or.inl ⟨_, i - j, rfl, rfl, hModular.number_sub i j⟩
  | times => exact Or.inl ⟨_, i * j, rfl, rfl, hModular.number_mul i j⟩
  | divide =>
      by_cases hJ : j = 0
      · exact Or.inr ⟨if_pos (hZero.mpr hJ), congrArg some (if_pos hJ)⟩
      · exact Or.inl ⟨_, i / j, if_neg (mt hZero.mp hJ), congrArg some (if_neg hJ),
          hModular.number_div i j⟩
  | modulo =>
      by_cases hJ : j = 0
      · exact Or.inr ⟨if_pos (hZero.mpr hJ), congrArg some (if_pos hJ)⟩
      · refine Or.inl ⟨_, i % j, if_neg (mt hZero.mp hJ), congrArg some (if_neg hJ), ?_⟩
        rw [← hModular.number_mod i j, (hModular.isWhole _).bmod_eq_self]
  | _ => cases hOp

/-- An operator on two operands that are read as numbers of the type evaluates to the exact result,
wrapped, or divides by zero. -/
theorem evaluate_cases (hModular : IsModular w make number) (hOp : op.isArithmetic = true)
    {read : Value → Option α} {a b : Value} {i j : α}
    (hCommon : a.tag.commonWidth? b.tag = some w)
    (hRun : Primitive.arithmetic? op w a b =
      Primitive.onNumbers? read make (Primitive.integerArithmetic? op) a b)
    (hA : read a = some i) (hB : read b = some j) :
    (∃ z c, op.exactResult? (number i) (number j) = some z ∧ op.evaluate [a, b] = .ok c ∧
      c.IsWrapped w z) ∨
    (op.exactResult? (number i) (number j) = none ∧
      op.evaluate [a, b] = .error (.divisionByZero op)) := by
  rw [Primitive.onNumbers?_eq make _ hA hB] at hRun
  rcases hModular.integerArithmetic?_cases hOp i j with ⟨z, k, hExact, hOk, hK⟩ | ⟨hNone, hError⟩
  · rw [hOk] at hRun
    refine Or.inl ⟨z, make k, hExact, Operator.evaluate_of_isArithmetic hOp hCommon hRun, ?_⟩
    rw [Value.isWrapped_iff, ← hK]
    exact hModular.isWhole k
  · rw [hError] at hRun
    exact Or.inr ⟨hNone, Operator.evaluate_of_isArithmetic hOp hCommon hRun⟩

end IsModular

/-! ### Quotients and remainders -/

/-- Rounding a quotient towards zero leaves the range only where the least number is divided by
`-1`. -/
theorem tdiv_mem_range_iff {least x y : Int} (hX : least ≤ x ∧ x < -least) (hY : y ≠ 0) :
    (least ≤ x.tdiv y ∧ x.tdiv y < -least) ↔ ¬(x = least ∧ y = -1) := by
  have hAbs : (x.tdiv y).natAbs = x.natAbs / y.natAbs := Int.natAbs_tdiv x y
  by_cases hOne : y = 1
  · subst hOne
    rw [Int.tdiv_one]
    omega
  · by_cases hMinus : y = -1
    · subst hMinus
      rw [Int.tdiv_neg, Int.tdiv_one]
      omega
    · have hHalf : x.natAbs / y.natAbs ≤ x.natAbs / 2 :=
        Nat.div_le_div_left (by omega) (by omega)
      omega

/-- The remainder is smaller than the divisor. -/
theorem natAbs_tmod_lt (x : Int) {y : Int} (hY : y ≠ 0) : (x.tmod y).natAbs < y.natAbs := by
  rw [Int.natAbs_tmod]
  exact Nat.mod_lt _ (by omega)

/-! ### Evaluation -/

namespace Value.IsWhole

variable {a b : Value} {v w : Width} {x y : Int} {op : Operator}

/-- An arithmetic operator evaluates to its exact result, wrapped in the wider type, or divides by
zero. -/
theorem evaluate_cases (hA : a.IsWhole v x) (hB : b.IsWhole w y) (hOp : op.isArithmetic = true) :
    (∃ z c, op.exactResult? x y = some z ∧ op.evaluate [a, b] = .ok c ∧
      c.IsWrapped (v.wider w) z) ∨
    (op.exactResult? x y = none ∧ op.evaluate [a, b] = .error (.divisionByZero op)) := by
  have hCommon := hA.commonWidth?_eq hB
  -- two numbers of type `int` are read as such, and all others as numbers of type `long`
  rcases hA.eq_int_or_wider_eq_long hB with ⟨rfl, rfl⟩ | hLong
  · obtain ⟨i, hI, rfl⟩ := hA.exists_toInt32?
    obtain ⟨j, hJ, rfl⟩ := hB.exists_toInt32?
    exact isModular_int.evaluate_cases hOp hCommon rfl hI hJ
  · rw [hLong] at hCommon ⊢
    obtain ⟨i, hI, rfl⟩ := hA.exists_toInt64?
    obtain ⟨j, hJ, rfl⟩ := hB.exists_toInt64?
    exact isModular_long.evaluate_cases hOp hCommon rfl hI hJ

/-- An operator that has an exact result evaluates to it, wrapped. -/
theorem exists_evaluate (op : Operator) (hA : a.IsWhole v x) (hB : b.IsWhole w y) {z : Int}
    (hExact : op.exactResult? x y = some z) :
    ∃ c : Value, op.evaluate [a, b] = .ok c ∧ c.IsWrapped (v.wider w) z := by
  have hOp : op.isArithmetic = true := by
    cases op with
    | plus | minus | times | divide | modulo => rfl
    | _ => cases hExact
  rcases hA.evaluate_cases hB hOp with ⟨z', c, hSome, hRun, hC⟩ | ⟨hNone, -⟩
  · obtain rfl := Option.some.inj (hExact.symm.trans hSome)
    exact ⟨c, hRun, hC⟩
  · rw [hNone] at hExact
    cases hExact

/-- A division fails exactly if the divisor is zero. -/
theorem evaluate_eq_divisionByZero_iff (hA : a.IsWhole v x) (hB : b.IsWhole w y)
    (hOp : op = .divide ∨ op = .modulo) :
    op.evaluate [a, b] = .error (.divisionByZero op) ↔ y = 0 := by
  have hExact : op.exactResult? x y = none ↔ y = 0 := by
    rcases hOp with rfl | rfl <;> simp [Operator.exactResult?]
  have hArithmetic : op.isArithmetic = true := by
    rcases hOp with rfl | rfl <;> rfl
  rw [← hExact]
  rcases hA.evaluate_cases hB hArithmetic with ⟨z, c, hSome, hRun, -⟩ | ⟨hNone, hRun⟩
  · simp [hSome, hRun]
  · simp [hNone, hRun]

/-! ### Division -/

/-- A value is the number itself, and not another one congruent to it, if the number is in the range
of the type. -/
theorem isWhole_iff_of_isWrapped {c : Value} {z : Int} (hC : c.IsWrapped v z) :
    c.IsWhole v z ↔ -2 ^ (v.bits - 1) ≤ z ∧ z < 2 ^ (v.bits - 1) := by
  constructor
  · exact bounds
  · intro hBounds
    have hSame : z.bmod (2 ^ v.bits) = z := (v.bmod_eq_iff z z).mpr ⟨hBounds, Int.ModEq.refl z⟩
    rw [isWrapped_iff, hSame] at hC
    exact hC

/-- The remainder is never wrapped. -/
theorem isWhole_tmod (hA : a.IsWhole v x) (hB : b.IsWhole w y) (hY : y ≠ 0) {c : Value}
    (hC : c.IsWrapped (v.wider w) (x.tmod y)) : c.IsWhole (v.wider w) (x.tmod y) := by
  obtain ⟨wide, hWide⟩ := hB.exists_wider hA
  rw [Width.wider_comm] at hWide
  have hBounds := hWide.bounds
  have hLt := natAbs_tmod_lt x hY
  exact (isWhole_iff_of_isWrapped hC).mpr ⟨by omega, by omega⟩

/-- A quotient is wrapped only where the least number is divided by `-1`. -/
theorem isWhole_tdiv_iff (hA : a.IsWhole v x) (hB : b.IsWhole w y) (hY : y ≠ 0) {c : Value}
    (hC : c.IsWrapped (v.wider w) (x.tdiv y)) :
    c.IsWhole (v.wider w) (x.tdiv y) ↔ ¬(x = -2 ^ ((v.wider w).bits - 1) ∧ y = -1) := by
  obtain ⟨wide, hWide⟩ := hA.exists_wider hB
  have hBounds := hWide.bounds
  rw [isWhole_iff_of_isWrapped hC, ← tdiv_mem_range_iff (by simpa using hBounds) hY, Int.neg_neg]

/-- The quotient times the divisor, and the remainder added, are the dividend, even where the
quotient is wrapped. -/
theorem exists_evaluate_division (hA : a.IsWhole v x) (hB : b.IsWhole w y) {q r : Value}
    (hQ : q.IsWrapped (v.wider w) (x.tdiv y)) (hR : r.IsWrapped (v.wider w) (x.tmod y)) :
    ∃ p s, Operator.times.evaluate [q, b] = .ok p ∧ Operator.plus.evaluate [p, r] = .ok s ∧
      s.IsWhole (v.wider w) x := by
  rw [isWrapped_iff] at hQ hR
  obtain ⟨p, hTimes, hP⟩ := hQ.exists_evaluate .times hB rfl
  rw [Width.wider_wider_right, isWrapped_iff, Int.bmod_mul_bmod] at hP
  obtain ⟨s, hPlus, hS⟩ := hP.exists_evaluate .plus hR rfl
  rw [Width.wider_self, isWrapped_iff, ← Int.add_bmod, Int.tdiv_mul_add_tmod] at hS
  obtain ⟨wide, hWide⟩ := hA.exists_wider hB
  rw [hWide.bmod_eq_self] at hS
  exact ⟨p, s, hTimes, hPlus, hS⟩

/-! ### Negation -/

/-- A number is negated by subtracting it from the zero of its own type. -/
theorem evaluate_negate_eq (hA : a.IsWhole v x) {zero : Value} (hZero : zero.IsWhole v 0) :
    Operator.negate.evaluate [a] = Operator.minus.evaluate [zero, a] := by
  cases hA with
  | int i =>
      obtain rfl := hZero.unique (.int 0)
      rw [Operator.evaluate_negate rfl rfl, ← Int32.zero_sub]
      rfl
  | long i =>
      obtain rfl := hZero.unique (.long 0)
      rw [Operator.evaluate_negate rfl rfl, ← Int64.zero_sub]
      rfl

end Value.IsWhole

namespace Operator

open Value

/-- **Operators on whole numbers compute the exact result, wrapped.**  The result has the wider of
the types of the operands.  Sums, differences and products evaluate to the one value of that type
that is congruent to the exact result.  Divisions fail exactly on a zero divisor; otherwise the
quotient is rounded towards zero, and wrapped only where the least number is divided by `-1`, and the
remainder has the sign of the dividend and is smaller than the divisor; the quotient times the
divisor and the remainder added, all evaluated, are the dividend.  The negative of a number is what
zero minus the number is, in its own type. -/
theorem evaluate_whole {a b : Value} (hA : a.tag = .int ∨ a.tag = .long)
    (hB : b.tag = .int ∨ b.tag = .long) :
    ∃ v w x y, a.IsWhole v x ∧ b.IsWhole w y ∧
    (v.wider w = (if a.tag = .int ∧ b.tag = .int then .int else .long) ∧
      (v.wider w).bits = if a.tag = .int ∧ b.tag = .int then 32 else 64) ∧
    (∀ op z, (op, z) ∈ [(plus, x + y), (minus, x - y), (times, x * y)] →
      ∃ c, op.evaluate [a, b] = .ok c ∧ c.tag = .ofWidth (v.wider w) ∧
        c.IsWrapped (v.wider w) z ∧ ∀ d, d.IsWrapped (v.wider w) z → d = c) ∧
    (∀ op, op = divide ∨ op = modulo →
      (op.evaluate [a, b] = .error (.divisionByZero op) ↔ y = 0)) ∧
    (y ≠ 0 → ∃ q r, divide.evaluate [a, b] = .ok q ∧ modulo.evaluate [a, b] = .ok r ∧
      q.IsWrapped (v.wider w) (x.tdiv y) ∧
      (q.IsWhole (v.wider w) (x.tdiv y) ↔ ¬(x = -2 ^ ((v.wider w).bits - 1) ∧ y = -1)) ∧
      r.IsWhole (v.wider w) (x.tmod y) ∧ (x.tmod y).natAbs < y.natAbs ∧
      ((x.tmod y).sign = x.sign ∨ x.tmod y = 0) ∧
      ∃ p s, times.evaluate [q, b] = .ok p ∧ plus.evaluate [p, r] = .ok s ∧
        s.IsWhole (v.wider w) x) ∧
    ∃ zero c, zero.IsWhole v 0 ∧ minus.evaluate [zero, a] = .ok c ∧
      negate.evaluate [a] = .ok c ∧ c.IsWrapped v (-x) := by
  obtain ⟨v, x, hA⟩ := (exists_isWhole_iff a).mpr hA
  obtain ⟨w, y, hB⟩ := (exists_isWhole_iff b).mpr hB
  refine ⟨v, w, x, y, hA, hB, ?_, ?_, fun op hOp => hA.evaluate_eq_divisionByZero_iff hB hOp, ?_, ?_⟩
  · cases hA <;> cases hB <;> exact ⟨rfl, rfl⟩
  · intro op z hMem
    have hExact : op.exactResult? x y = some z := by
      simp only [List.mem_cons, Prod.mk.injEq, List.not_mem_nil, or_false] at hMem
      rcases hMem with ⟨rfl, rfl⟩ | ⟨rfl, rfl⟩ | ⟨rfl, rfl⟩ <;> rfl
    obtain ⟨c, hEvaluate, hC⟩ := hA.exists_evaluate op hB hExact
    have hWhole := (isWrapped_iff _ _ _).mp hC
    exact ⟨c, hEvaluate, hWhole.tag_eq, hC,
      fun d hD => ((isWrapped_iff _ _ _).mp hD).unique hWhole⟩
  · intro hY
    obtain ⟨q, hDivide, hQ⟩ := hA.exists_evaluate divide hB (if_neg hY)
    obtain ⟨r, hModulo, hR⟩ := hA.exists_evaluate modulo hB (if_neg hY)
    refine ⟨q, r, hDivide, hModulo, hQ, hA.isWhole_tdiv_iff hB hY hQ, hA.isWhole_tmod hB hY hR,
      natAbs_tmod_lt x hY, ?_, hA.exists_evaluate_division hB hQ hR⟩
    rw [← Int.sign_eq_zero_iff_zero, Int.sign_tmod]
    split
    · exact Or.inr rfl
    · exact Or.inl rfl
  · have hZero : ∃ zero : Value, zero.IsWhole v 0 := by
      cases hA with
      | int i => exact ⟨.int 0, .int 0⟩
      | long i => exact ⟨.long 0, .long 0⟩
    obtain ⟨zero, hZero⟩ := hZero
    obtain ⟨c, hMinus, hC⟩ := hZero.exists_evaluate minus hA rfl
    rw [Width.wider_self, Int.zero_sub] at hC
    exact ⟨zero, c, hZero, hMinus, (hA.evaluate_negate_eq hZero).trans hMinus, hC⟩

/-- The least number of type `long` divided by an `int`, `-1`, is the one quotient that is
wrapped. -/
theorem evaluate_whole_least :
    ∃ q, divide.evaluate [.long Int64.minValue, .int (-1)] = .ok q ∧ q.tag = .long ∧
      ¬q.IsWhole .long (2 ^ 63) := by
  obtain ⟨v, w, x, y, hA, hB, -, -, -, hDivision, -⟩ :=
    evaluate_whole (a := .long Int64.minValue) (b := .int (-1)) (Or.inr rfl) (Or.inl rfl)
  cases hA
  cases hB
  obtain ⟨q, r, hDivide, -, hQ, hWrapped, -⟩ := hDivision (by decide)
  refine ⟨q, hDivide, ((isWrapped_iff _ _ _).mp hQ).tag_eq, ?_⟩
  exact fun hWhole => hWrapped.mp hWhole ⟨rfl, rfl⟩

end Operator

end LateBinding
