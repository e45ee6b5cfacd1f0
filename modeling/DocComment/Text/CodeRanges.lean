/-!
# Tables of code points

A character property of the Unicode standard is a set of code points, written
here as a list of inclusive ranges. Nothing in this module depends on a
particular property; the tables stand in modules named for theirs.
-/
namespace DocComment

/-- A text is the sequence of its characters, each one a Unicode scalar value. Its length is the
number of its characters; lengths in octets are counted separately. -/
abbrev Text := List Char

/-- Inclusive ranges of code points, in increasing order and without overlap. The order is a
habit of the tables, and no search relies on it. -/
abbrev CodeRanges := List (Nat × Nat)

/-- A character is held when some range includes its code point, with both of its ends. -/
def CodeRanges.holds (ranges : CodeRanges) (c : Char) : Bool :=
  ranges.any fun range => range.1 ≤ c.toNat && c.toNat ≤ range.2

end DocComment
