import Scriptlet.Text.GraphemeExtend
import Scriptlet.Text.Unprintable

/-!
# Quoted text

A string between double quotes, on one line and in visible characters: quotes, backslashes and the usual
controls have short escapes, and every other character that would not show on its own is written by its code
point.
-/

namespace Scriptlet.Text

/-- A character by its code point, in lower case hexadecimal without padding. -/
def codePointEscape (c : Char) : String :=
  "\\u\x7b" ++ String.ofList (Nat.toDigits 16 c.toNat) ++ "\x7d"

/-- The only letters with the property Default_Ignorable_Code_Point: the Hangul fillers, which show nothing. -/
def fillers : CodePoints := ⟨#[⟨0x115F, 0x1160⟩, ⟨0x3164, 0x3164⟩, ⟨0xFFA0, 0xFFA0⟩]⟩

/-- The only letters with the property Grapheme_Extend: the halfwidth sound marks, which stand beside the character
before them and not on it. -/
def spacingMarks : CodePoints := ⟨#[⟨0xFF9E, 0xFF9F⟩]⟩

/-- The character would not show on its own: it is unprintable, an invisible letter, or drawn on the character
before it. -/
def isHidden (c : Char) : Bool :=
  isUnprintable c || fillers.contains c || (isGraphemeExtend c && !spacingMarks.contains c)

/-- A character as it stands between double quotes.  A single quote stands for itself. -/
def quotedChar (c : Char) : String :=
  match c with
  | '"' => "\\\""
  | '\\' => "\\\\"
  | '\n' => "\\n"
  | '\r' => "\\r"
  | '\t' => "\\t"
  | '\x00' => "\\0"
  | c => if isHidden c then codePointEscape c else c.toString

/-- The text between double quotes, with escapes. -/
def quoted (s : String) : String :=
  "\"" ++ String.join (s.toList.map quotedChar) ++ "\""

end Scriptlet.Text
