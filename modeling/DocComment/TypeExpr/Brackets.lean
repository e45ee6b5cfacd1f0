import DocComment.Text.CodeRanges

/-!
# Brackets

Type expressions nest in angle brackets, braces, parentheses and square brackets.
The kinds are not told apart: a text is scanned with one signed depth, which an
unmatched closing bracket takes below zero.
-/
namespace DocComment.Brackets

/-- The brackets that open a nested part. Four kinds are told apart from other characters, but
not from each other: any closing bracket closes any of them. -/
def opens (c : Char) : Bool := c == '<' || c == '\x7b' || c == '(' || c == '['

/-- The brackets that close a nested part. -/
def closes (c : Char) : Bool := c == '>' || c == '\x7d' || c == ')' || c == ']'

/-- What one character adds to the depth. Every angle bracket counts, so the head of an arrow
closes like any other. -/
def step (c : Char) : Int := if opens c then 1 else if closes c then -1 else 0

/-- The pieces between the commas that stand at depth zero exactly. There is always a piece;
below depth zero, behind a bracket too many, no comma separates. -/
def splitCommas (depth : Int) : Text → List Text
  | [] => [[]]
  | c :: rest =>
    if c = ',' ∧ depth = 0 then [] :: splitCommas depth rest
    else (splitCommas (depth + step c) rest).modifyHead (c :: ·)

/-- The text before the parenthesis that closes one opened before it, and the text behind that
parenthesis. Only parentheses count; `depth` of them are open besides. Without such a parenthesis
there is no result. -/
def splitClosing (depth : Nat) : Text → Option (Text × Text)
  | [] => none
  | c :: rest =>
    if c = ')' ∧ depth = 0 then some ([], rest)
    else
      let inner := if c = '(' then depth + 1 else if c = ')' then depth - 1 else depth
      (splitClosing inner rest).map fun (inside, behind) => (c :: inside, behind)

end DocComment.Brackets
