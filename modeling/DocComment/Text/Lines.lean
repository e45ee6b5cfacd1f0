import DocComment.Text.Blank

/-!
# Lines

A line feed ends a line. A text that ends in a line feed has no further, empty
line behind it, and the empty text has no line at all.
-/
namespace DocComment.Text

/-- The pieces that end at a line feed, and what follows the last one if anything does. So an
empty text has no line, and a line feed at the end opens none. -/
def lines : Text → List Text
  | [] => []
  | c :: rest =>
    if c = '\n' then [] :: lines rest
    else match lines rest with
      | [] => [[c]]
      | line :: others => (c :: line) :: others

/-- The lines without their trailing blanks, a carriage return among them. Blanks at the start of
a line stay. -/
def trimmedLines (text : Text) : List Text := (lines text).map trimEnd

end DocComment.Text
