import DocComment.Toml.Scalar

/-!
# Strings

A string stands between quotes. Double quotes allow escapes, single quotes do not;
three of either kind allow line breaks. Every reader here starts behind the opening
quotes and returns the string with what follows the closing ones.
-/
namespace DocComment.Toml

/-- Characters that may stand for themselves: the tab and all that are not controls. -/
def isPlain (c : Char) : Bool := c == '\t' || (0x20 ≤ c.toNat && c.toNat != 0x7f)

/-- Whether a text begins with a line break: a line feed, or a carriage return and a line feed. A
carriage return alone is none. -/
def startsWithBreak : Text → Bool
  | '\n' :: _ => true
  | '\r' :: '\n' :: _ => true
  | _ => false

/-- The character of a given number of hexadecimal digits. A number that no character has leaves
no reading. -/
def readCodePoint (count : Nat) (text : Text) : Option (Char × Text) := do
  let digits := text.take count
  let code ← numberOfDigits? 16 digits
  if digits.length = count ∧ code.isValidChar then some (Char.ofNat code, text.drop count)
  else none

/-- The character of an escape, behind its backslash: one of a few letters and signs, or a number
in one of three lengths. -/
def readEscape : Text → Option (Char × Text)
  | 'b' :: rest => some (Char.ofNat 0x8, rest)
  | 't' :: rest => some ('\t', rest)
  | 'n' :: rest => some ('\n', rest)
  | 'f' :: rest => some (Char.ofNat 0xc, rest)
  | 'r' :: rest => some ('\r', rest)
  | 'e' :: rest => some (Char.ofNat 0x1b, rest)
  | '"' :: rest => some ('"', rest)
  | '\\' :: rest => some ('\\', rest)
  | 'x' :: rest => readCodePoint 2 rest
  | 'u' :: rest => readCodePoint 4 rest
  | 'U' :: rest => readCodePoint 8 rest
  | _ => none

/-- A string with escapes on one line; `fuel` bounds its length. -/
def readBasic : (fuel : Nat) → Text → Option (Text × Text)
  | 0, _ | _, [] => none
  | fuel + 1, c :: rest =>
    if c = '"' then some ([], rest)
    else do
      let (content, rest) ← if c = '\\' then readEscape rest
        else if isPlain c then some (c, rest) else none
      let (others, rest) ← readBasic fuel rest
      return (content :: others, rest)

/-- A string without escapes on one line. A single quote always ends it. -/
def readLiteral : Text → Option (Text × Text)
  | [] => none
  | c :: rest =>
    if c = '\'' then some ([], rest)
    else if isPlain c then (readLiteral rest).map fun (others, rest) => (c :: others, rest)
    else none

/-- The text behind spaces and line breaks, which a folded line leaves out. -/
def skipFolded : Text → Option Text
  | [] => some []
  | c :: rest =>
    if c = ' ' ∨ c = '\t' ∨ c = '\n' then skipFolded rest
    else if c = '\r' then if startsWithBreak (c :: rest) then skipFolded rest else none
    else some (c :: rest)

/-- A string over several lines. Up to two quotes may stand before the closing ones. Where there
are escapes, a backslash at the end of a line folds the line break and all spaces and line breaks
behind it; `fuel` bounds the length. -/
def readMultiline (quote : Char) (escapes : Bool) : (fuel : Nat) → Text → Option (Text × Text)
  | 0, _ | _, [] => none
  | fuel + 1, c :: rest =>
    let text := c :: rest
    let quotes := text.takeWhile (· == quote)
    if 3 ≤ quotes.length then
      if quotes.length ≤ 5 then some (quotes.drop 3, text.drop quotes.length) else none
    else if c = '\\' ∧ escapes then
      if startsWithBreak (rest.dropWhile fun c => c == ' ' || c == '\t') then do
        readMultiline quote escapes fuel (← skipFolded rest)
      else do
        let (content, rest) ← readEscape rest
        let (others, rest) ← readMultiline quote escapes fuel rest
        return (content :: others, rest)
    else if isPlain c ∨ startsWithBreak text then do
      let (others, rest) ← readMultiline quote escapes fuel rest
      return (c :: others, rest)
    else none

/-- The text without one line break at its start, which does not count behind three quotes. -/
def dropBreak : Text → Text
  | '\n' :: rest => rest
  | '\r' :: '\n' :: rest => rest
  | text => text

/-- The string at the start of a text, in any of the four forms. Three quotes are looked for
before one. -/
def readString : Text → Option (Text × Text)
  | '"' :: '"' :: '"' :: rest => readMultiline '"' true rest.length (dropBreak rest)
  | '\'' :: '\'' :: '\'' :: rest => readMultiline '\'' false rest.length (dropBreak rest)
  | '"' :: rest => readBasic rest.length rest
  | '\'' :: rest => readLiteral rest
  | _ => none

end DocComment.Toml
