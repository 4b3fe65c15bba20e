import LateBinding.Text.Unprintable
import LateBinding.Text.Extender

/-!
# Quoted text

A text is quoted between double quotes.  Quotes, backslashes and the four common control characters
are written with a backslash and one letter.  A character that cannot be shown by itself, because it
has no visible form or because it extends the character before it, is written by its code point.
All else stands for itself.
-/

namespace LateBinding.Text

/-- A character by its code point, in lower-case hexadecimal digits. -/
def codePoint (c : Char) : String :=
  "\\u\x7b" ++ String.ofList (Nat.toDigits 16 c.toNat) ++ "\x7d"

/-- The written form of one character inside quotes. -/
def quoteChar (c : Char) : String :=
  match c with
  | '"' => "\\\""
  | '\\' => "\\\\"
  | '\n' => "\\n"
  | '\r' => "\\r"
  | '\t' => "\\t"
  | '\x00' => "\\0"
  | c => if isExtender c || isUnprintable c then codePoint c else String.singleton c

/-- A text between double quotes. -/
def quote (s : String) : String :=
  "\"" ++ String.join (s.toList.map quoteChar) ++ "\""

end LateBinding.Text
