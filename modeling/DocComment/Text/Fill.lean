import DocComment.Text.CodeRanges

/-!
# Filling lines up to a width

Lines are filled greedily: a space becomes a line break exactly when the word
behind it would end beyond the width. Only U+0020 is ever replaced. A word longer
than the width stays whole and runs over; existing line breaks stay where they
are and restart the count, and a carriage return before one, or at the very end
of the text, is dropped.
-/
namespace DocComment.Text

/-- The words behind a first one that ended at `column`, each behind a space if it still fits and
behind a line break otherwise. A word that is longer than the width takes a line of its own, and
overflows it. -/
def fillFrom (width column : Nat) : List Text → Text
  | [] => []
  | word :: rest =>
    if column + 1 + word.length ≤ width then
      ' ' :: (word ++ fillFrom width (column + 1 + word.length) rest)
    else
      '\n' :: (word ++ fillFrom width word.length rest)

/-- One line without line breaks, filled up to the width. Its pieces are those between single
spaces: two spaces have an empty piece between them, which is set like a word, and other blanks
are no places to break. -/
def filledLine (width : Nat) (line : Text) : Text :=
  match line.splitOn ' ' with
  | [] => []
  | word :: rest => word ++ fillFrom width word.length rest

/-- The line without one carriage return at its end. Any other carriage return stays, a second
one at the end included. -/
def dropReturn (line : Text) : Text :=
  if line.getLast? = some '\r' then line.dropLast else line

/-- Every line of the text filled up to the width. The lines are not joined, so a break in the
text remains one, and an empty line remains empty. -/
def filled (text : Text) (width : Nat) : Text :=
  ['\n'].intercalate ((text.splitOn '\n').map fun line => filledLine width (dropReturn line))

end DocComment.Text
