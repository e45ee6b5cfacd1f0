/-!
# Styles

How a comment is laid out: the width of its description, the order of its tags
and whether their parts stand in columns.
-/
namespace DocComment

/-- The choices that a user makes about the layout. A width of zero is possible here; it is
refused where a style is read from a file. -/
structure Style where
  /-- The width to which the description is filled. -/
  width : Nat
  /-- Tags appear in the order of tags instead of the order of insertion. -/
  sorted : Bool
  /-- The parts of neighbouring tags stand in columns. -/
  aligned : Bool
  deriving DecidableEq

namespace Style

/-- Unless told otherwise, descriptions have 67 columns and tags are aligned in the order of
insertion. -/
def standard : Style := ⟨67, false, true⟩

end DocComment.Style
