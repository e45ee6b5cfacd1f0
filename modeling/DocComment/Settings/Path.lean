import DocComment.Text.CodeRanges

/-!
# Paths and who answers for them

A path is the sequence of its segments, between slashes. The first segment says where the path
starts: at the root if it is empty and another one follows, and otherwise in the current
directory. Empty segments and single dots behind it stay in the directory at hand, double dots
go to the directory above.

The directories above a path are found on its text alone, by leaving out segments at the end;
links and double dots are not followed for that. An absolute path ends at the root in this way,
and a relative one at the empty path, which is the current directory.

Whoever looks for a file asks no more than whether a path leads to one, and what its text is. A
file system is what answers these two questions. Nothing is assumed about its answers, not even
that they fit each other; they are only taken to stay the same while one search lasts.
-/
namespace DocComment

/-- The segments of a path between its slashes. The texts of the segments are those of the
path, so that a path and its text stand for each other. -/
abbrev Path := List Text

namespace Path

/-- The path that a text with slashes denotes. An empty text has one segment, the empty one. -/
def ofText (text : Text) : Path := text.splitOn '/'

/-- The text of a path: its segments with slashes between them. The text of the root is one
slash. -/
def text (path : Path) : Text := ['/'].intercalate path

/-- The path of the root: nothing in front of its slash, and nothing behind it. -/
def root : Path := [[], []]

/-- The empty path. It leads to the current directory, and nothing is above it. -/
def empty : Path := [[]]

/-- The path of a name in a directory. A slash at the end of the directory's path is the
one before the name, and in the empty path the name stands alone. -/
def child (directory : Path) (name : Text) : Path :=
  if directory.getLast? = some [] then directory.dropLast ++ [name] else directory ++ [name]

/-- A segment that stays in the directory at hand. At the start of a path it says more: an
empty one begins at the root. -/
def staysHere (segment : Text) : Bool := segment == [] || segment == ['.']

/-- Segments without those at their end that stay in the directory at hand. Between names such
segments are kept. -/
def dropEnd (segments : List Text) : List Text := (segments.reverse.dropWhile staysHere).reverse

/-- The path as shown: without the segments at its ends that change nothing. -/
def shown (path : Path) : Text :=
  ['/'].intercalate ((dropEnd path).dropWhile staysHere)

/-- The path of the directory that is reached by the segments in front of a name. What stays
there at the end is left out, but not the first segment: it tells where the path starts, and
where it is empty and alone, that is the root. -/
def leading : List Text → Path
  | [] => []
  | first :: rest => if first = [] ∧ dropEnd rest = [] then root else first :: dropEnd rest

/-- The paths above one whose segments are given from the last to the first. A segment that
stays is no step down, except for the first one of a path: above every first segment is the
empty path, be it a name or a dot, but nothing is above the root and the empty path itself. -/
def aboveReversed : List Text → List Path
  | [] => []
  | [first] => if first = [] then [] else [empty]
  | segment :: before :: above =>
    if staysHere segment then aboveReversed (before :: above)
    else leading (before :: above).reverse :: aboveReversed (before :: above)

/-- The path itself and those above it, the nearest first. A double dot is a segment like any
other. -/
def ancestors (path : Path) : List Path := path :: aboveReversed path.reverse

end Path

/-- A file system: which paths lead to a file, and the text at a path. The text may be refused
for reasons that are the system's own. -/
structure FileSystem (Refusal : Type) where
  isFile : Path → Bool
  readText : Path → Except Refusal Text

end DocComment
