/-!
# Repeated text

A text set after itself a number of times.  Main statements: the size is the product of the size of
the text and the number of times, and repetition adds up over the number of times.
-/

namespace LateBinding.Text

/-- The text `s` written `n` times in a row. -/
def repeated (s : String) (n : Nat) : String :=
  if s.utf8ByteSize = 0 then "" else Nat.repeat (fun t => t ++ s) n ""

theorem repeated_eq (s : String) (n : Nat) :
    repeated s n = Nat.repeat (fun t => t ++ s) n "" := by
  unfold repeated
  split
  · rename_i h
    have hs : s = "" := by simpa using h
    subst hs
    induction n with
    | zero => rfl
    | succ n ih => rw [Nat.repeat, ← ih]; rfl
  · rfl

@[simp] theorem repeated_zero (s : String) : repeated s 0 = "" := by
  simp [repeated_eq, Nat.repeat]

theorem repeated_succ (s : String) (n : Nat) : repeated s (n + 1) = repeated s n ++ s := by
  simp [repeated_eq, Nat.repeat]

theorem repeated_add (s : String) (m n : Nat) :
    repeated s (m + n) = repeated s m ++ repeated s n := by
  induction n with
  | zero => simp
  | succ n ih => rw [← Nat.add_assoc, repeated_succ, ih, repeated_succ, String.append_assoc]

theorem repeated_utf8ByteSize (s : String) (n : Nat) :
    (repeated s n).utf8ByteSize = s.utf8ByteSize * n := by
  induction n with
  | zero => simp
  | succ n ih => rw [repeated_succ, String.utf8ByteSize_append, ih, Nat.mul_succ]

end LateBinding.Text
