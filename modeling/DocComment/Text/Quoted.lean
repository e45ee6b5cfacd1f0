import DocComment.Text.Unprintable

/-!
# Quoted texts

A quoted text stands between double quotes on one line. The quote, the backslash
and the common controls are written as two characters, every other character that
would not be shown as itself as `\u` with its code point in braces.
-/
namespace DocComment.Text

/-- A code point in braces, in lower-case hexadecimal without leading zeros. -/
def codePointEscape (c : Char) : Text :=
  ['\\', 'u', '\x7b'] ++ Nat.toDigits 16 c.toNat ++ ['\x7d']

/-- The written form of one character between the quotes: four have short escapes, the quote and
the backslash are escaped, what cannot be shown is told by its code point, and any other
character stands for itself. -/
def quotedCharacter (c : Char) : Text :=
  if c = '\x00' then ['\\', '0']
  else if c = '\t' then ['\\', 't']
  else if c = '\r' then ['\\', 'r']
  else if c = '\n' then ['\\', 'n']
  else if c = '"' then ['\\', '"']
  else if c = '\\' then ['\\', '\\']
  else if isUnprintable c then codePointEscape c
  else [c]

/-- The text between double quotes, each character in its written form. Single quotes are not
escaped. -/
def quoted (text : Text) : Text := '"' :: text.flatMap quotedCharacter ++ ['"']

end DocComment.Text
