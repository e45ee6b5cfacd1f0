import DocComment.Text.CodeRanges

/-!
# The frame of a comment

The lines of a comment stand between `/**` and `*/`, each behind an asterisk.
Empty lines at either end are left out, and a comment without any other line is
written in one.
-/
namespace DocComment.Layout

/-- A comment that says nothing, on a single line. -/
def emptyComment : Text := "/** */".toList

/-- A line behind its asterisk; an empty one has no space behind it. -/
def framedLine (line : Text) : Text :=
  if line = [] then " *\n".toList else " * ".toList ++ line ++ ['\n']

/-- The lines from the first to the last that is not empty. Empty ones between these stay. -/
def dropEmptyEnds (lines : List Text) : List Text :=
  ((lines.dropWhile (·.isEmpty)).reverse.dropWhile (·.isEmpty)).reverse

/-- The lines as a comment. If none is left without the empty ones at either end, it is the empty
comment. -/
def framed (lines : List Text) : Text :=
  match dropEmptyEnds lines with
  | [] => emptyComment
  | kept => "/**\n".toList ++ kept.flatMap framedLine ++ " */".toList

end DocComment.Layout
