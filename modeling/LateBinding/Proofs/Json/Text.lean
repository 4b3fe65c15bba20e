import LateBinding.Json.Printer
import LateBinding.Json.Reader

/-!
# Texts in JSON

A text is written between quotes, character by character: a quote and a backslash after a
backslash, a control character by its number, and any other character as it is.  The reader takes
one part of a text for each character written, and ends at the closing quote, since no quote inside
the text stands bare.

* `written`, `toList_writeText` - what is written for each character.
* `pieces?_written_append` - the part that is read for it; `characters?_map_piece` - the characters
  of these parts.
* `readText?_flatMap_written` - texts are read back.
-/

namespace LateBinding.Json

/-! ### Writing -/

/-- What is written for a character of a text. -/
def written (c : Char) : List Char :=
  (writeChar "" c).toList

theorem toList_writeChar (out : String) (c : Char) :
    (writeChar out c).toList = out.toList ++ written c := by
  unfold written writeChar
  split
  · simp
  · split
    · simp
    · split <;> simp

/-- A text is written character by character between quotes. -/
theorem toList_writeText (s : String) :
    (writeText (some s)).toList = '"' :: (s.toList.flatMap written ++ ['"']) := by
  have hFold : ∀ (cs : List Char) (out : String),
      (cs.foldl writeChar out).toList = out.toList ++ cs.flatMap written := by
    intro cs
    induction cs with
    | nil => simp
    | cons c rest ih =>
        intro out
        rw [List.foldl_cons, ih, toList_writeChar, List.flatMap_cons, List.append_assoc]
  rw [writeText, String.toList_push, hFold, Option.getD_some]
  rfl

/-- A text between its quotes, and what follows it. -/
theorem toList_writeText_append (s : String) (rest : List Char) :
    (writeText (some s)).toList ++ rest = '"' :: (s.toList.flatMap written ++ '"' :: rest) := by
  rw [toList_writeText, List.cons_append, List.append_assoc]
  rfl

/-! ### Control characters -/

theorem hexDigit?_digitChar : ∀ n < 16, hexDigit? (Nat.digitChar n) = some n := by
  decide

/-- A control character is written by its number in four digits. -/
theorem exists_toList_controlEscape {c : Char} (hControl : c.toNat < 0x20) :
    ∃ high low, (controlEscape c).toList = ['\\', 'u', '0', '0', high, low] ∧
      hexUnit? '0' '0' high low = some c.toNat := by
  refine ⟨Nat.digitChar (c.toNat / 16), Nat.digitChar (c.toNat % 16), ?_, ?_⟩
  · by_cases hSmall : c.toNat < 16
    · have hHigh : c.toNat / 16 = 0 := Nat.div_eq_of_lt hSmall
      have hLow : c.toNat % 16 = c.toNat := Nat.mod_eq_of_lt hSmall
      simp [controlEscape, Nat.toDigits_of_lt_base hSmall, hHigh, hLow]
    · have hHigh : c.toNat / 16 < 16 := by omega
      have hDigits : Nat.toDigits 16 c.toNat =
          [Nat.digitChar (c.toNat / 16), Nat.digitChar (c.toNat % 16)] := by
        rw [Nat.toDigits_of_base_le (by decide) (by omega), Nat.toDigits_of_lt_base hHigh]
        rfl
      simp [controlEscape, hDigits]
  · have hZero : hexDigit? '0' = some 0 := by decide
    have hHigh := hexDigit?_digitChar (c.toNat / 16) (by omega)
    have hLow := hexDigit?_digitChar (c.toNat % 16) (by omega)
    simp only [hexUnit?, hZero, hHigh, hLow, Option.bind_eq_bind, Option.bind_some, Option.pure_def,
      Option.some.injEq]
    omega

/-! ### Reading -/

/-- The part of a text that stands for a character as it is written. -/
def piece (c : Char) : Piece :=
  if c.toNat < 0x20 then .unit c.toNat else .char c

/-- What is written for a character is read as one part. -/
theorem pieces?_written_append (c : Char) (rest : List Char) :
    pieces? (written c ++ rest) =
      (pieces? rest).map fun (pieces, tail) => (piece c :: pieces, tail) := by
  have hBind : ∀ part : Piece,
      (do let (pieces, tail) ← pieces? rest; return (part :: pieces, tail)) =
        (pieces? rest).map fun (pieces, tail) => (part :: pieces, tail) := by
    intro part
    cases pieces? rest <;> rfl
  unfold written writeChar
  split
  · rename_i hQuote
    subst hQuote
    exact hBind (.char '"')
  · rename_i hQuote
    split
    · rename_i hBackslash
      subst hBackslash
      exact hBind (.char '\\')
    · rename_i hBackslash
      split
      · rename_i hControl
        obtain ⟨high, low, hText, hUnit⟩ := exists_toList_controlEscape hControl
        rw [String.toList_append, hText, piece, if_pos hControl, ← hBind]
        simp [pieces?, hUnit]
      · rename_i hPlain
        rw [piece, if_neg hPlain, ← hBind]
        simp [pieces?, hBackslash, hPlain]

/-- A unit below the surrogates stands for a character. -/
theorem characters?_unit_cons {u : Nat} (hSmall : u < 0xD800) (pieces : List Piece) :
    characters? (.unit u :: pieces) = (characters? pieces).map (Char.ofNat u :: ·) := by
  have hHigh : isHighSurrogate u = false := by simp [isHighSurrogate]; omega
  have hLow : isLowSurrogate u = false := by simp [isLowSurrogate]; omega
  cases pieces with
  | nil => simp [characters?, hHigh, hLow]
  | cons p rest => cases p <;> simp [characters?, hHigh, hLow]

/-- The parts for given characters stand for these characters. -/
theorem characters?_map_piece (cs : List Char) : characters? (cs.map piece) = some cs := by
  induction cs with
  | nil => rfl
  | cons c rest ih =>
      rw [List.map_cons, piece]
      split
      · rw [characters?_unit_cons (by omega), ih, Char.ofNat_toNat]
        rfl
      · rw [characters?, ih]
        rfl

/-- A text is read back, whatever follows its closing quote. -/
theorem readText?_flatMap_written (cs rest : List Char) :
    readText? (cs.flatMap written ++ '"' :: rest) = some (some (String.ofList cs), rest) := by
  have hPieces : pieces? (cs.flatMap written ++ '"' :: rest) = some (cs.map piece, rest) := by
    induction cs with
    | nil => rw [List.flatMap_nil, List.nil_append, pieces?]; rfl
    | cons c cs ih =>
        rw [List.flatMap_cons, List.append_assoc, pieces?_written_append, ih]
        rfl
  simp only [readText?, hPieces, Option.map_some, characters?_map_piece]

end LateBinding.Json
