import DocComment.Comment.Basic
import DocComment.Layout.Columns
import DocComment.Layout.Frame
import DocComment.Layout.Style
import DocComment.Text.Fill
import DocComment.Text.Lines

/-!
# The text of a comment

A comment shows its summary, its description filled up to the width of the style,
and its tags. Neighbouring tags of one aliased name form a run; an empty line
stands before each run unless it would come first.
-/
namespace DocComment.Comment

/-- Summary, empty line and description, without blanks at the ends of the whole and of each
line. Where one of the two is blank, no empty line is left of it. -/
def openingLines (summary description : Text) (width : Nat) : List Text :=
  Text.trimmedLines (Text.trim (summary ++ ['\n', '\n'] ++ Text.filled description width))

/-- The longest runs of neighbours with one aliased name. Tags of one name that others stand
between are in different runs. -/
def runs (tags : List Tag) : List (List Tag) :=
  tags.splitBy fun one next => one.aliasedName == next.aliasedName

/-- The tags of a run as texts, in columns or each in its own written form. Columns are common to
one run only. -/
def runTexts (style : Style) (run : List Tag) : List Text :=
  if style.aligned then Layout.inColumns run else run.map Tag.written

/-- The lines with those of one more run, behind an empty line if any precede. -/
def appendRun (style : Style) (lines : List Text) (run : List Tag) : List Text :=
  (if lines = [] then [] else lines ++ [[]]) ++
    (runTexts style run).flatMap Text.trimmedLines

/-- The tags in the order in which the style shows them: that of tags, or that of insertion. -/
def shownTags (comment : Comment) (style : Style) : List Tag :=
  if style.sorted then comment.catalog.sorted.map (·.2) else comment.tags

/-- All lines of the comment before they are framed: its opening, and the runs of its tags. -/
def contentLines (comment : Comment) (style : Style) : List Text :=
  (runs (comment.shownTags style)).foldl (appendRun style)
    (openingLines (comment.summary.getD []) comment.description style.width)

/-- The text of the comment in the given style. The comment itself is not changed by being
shown. -/
def render (comment : Comment) (style : Style) : Text :=
  Layout.framed (comment.contentLines style)

end DocComment.Comment
