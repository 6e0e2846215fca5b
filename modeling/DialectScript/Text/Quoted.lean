import DialectScript.Text.Blank
import DialectScript.Text.Extending
import DialectScript.Text.Ignorable
import DialectScript.Text.Unassigned

/-!
# Quoted text

A text between double quotes, with everything that could not be read off a page escaped: the
quote and the backslash, line ends, tabs, and by its code point in braces any character that
leaves no mark of its own.
-/

namespace DialectScript.Text

/-- Characters that steer the layout of others. -/
def formatRanges : List (Nat × Nat) :=
  [(0xAD, 0xAD), (0x600, 0x605), (0x61C, 0x61C), (0x6DD, 0x6DD), (0x70F, 0x70F), (0x890, 0x891),
    (0x8E2, 0x8E2), (0x180E, 0x180E), (0x200B, 0x200F), (0x202A, 0x202E), (0x2060, 0x2064),
    (0x2066, 0x206F), (0xFEFF, 0xFEFF), (0xFFF9, 0xFFFB), (0x110BD, 0x110BD), (0x110CD, 0x110CD),
    (0x13430, 0x1343F), (0x1BCA0, 0x1BCA3), (0x1D173, 0x1D17A), (0xE0001, 0xE0001),
    (0xE0020, 0xE007F)]

/-- Characters reserved for private use. -/
def privateRanges : List (Nat × Nat) :=
  [(0xE000, 0xF8FF), (0xF0000, 0xFFFFD), (0x100000, 0x10FFFD)]

/-- Whether a character leaves no mark of its own: controls, all white space but the space,
format, private, ignorable and unassigned characters, and marks that extend the character before
them. -/
def isUnseen (c : Char) : Bool :=
  if c.toNat < 0x7F then c.toNat < 0x20
  else
    c.toNat < 0xA0 || isBlank c || isExtending c || isIgnorable c || inRanges formatRanges c ||
      inRanges privateRanges c || isUnassigned c

/-- A character as it stands in a quoted text. -/
def escape (c : Char) : List Char :=
  match c with
  | '"' => ['\\', '"']
  | '\\' => ['\\', '\\']
  | '\n' => ['\\', 'n']
  | '\r' => ['\\', 'r']
  | '\t' => ['\\', 't']
  | '\x00' => ['\\', '0']
  | c =>
    if isUnseen c then '\\' :: 'u' :: '\x7b' :: Nat.toDigits 16 c.toNat ++ ['\x7d'] else [c]

/-- A text between quotes, escaped where needed. -/
def quote (s : String) : String := .ofList ('"' :: s.toList.flatMap escape ++ ['"'])

end DialectScript.Text
