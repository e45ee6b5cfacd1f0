import DocComment.Text.CodeRanges

/-!
# Blanks

The blank characters are those of the Unicode property White_Space. Trimming
removes the blanks at the ends of a text and touches nothing between; the words
of a text are its maximal runs of other characters. Main statement: a trimmed
text is left alone by a second trimming.
-/
namespace DocComment.Text

/-- The code points of White_Space, most of them beyond ASCII. No-break spaces are among them,
while the zero-width space is not. -/
def blankRanges : CodeRanges :=
  [(0x9, 0xd), (0x20, 0x20), (0x85, 0x85), (0xa0, 0xa0), (0x1680, 0x1680), (0x2000, 0x200a),
   (0x2028, 0x2029), (0x202f, 0x202f), (0x205f, 0x205f), (0x3000, 0x3000)]

/-- Blank characters are those with the property White_Space. They separate words and are
trimmed, each one alike: a line feed counts no more than a space. -/
def isBlank (c : Char) : Bool := blankRanges.holds c

/-- The text from its first character that is not blank. Nothing is left of a text of blanks. -/
def trimStart (text : Text) : Text := text.dropWhile isBlank

/-- The text up to its last character that is not blank, found from the end. -/
def trimEnd (text : Text) : Text := (text.reverse.dropWhile isBlank).reverse

/-- The text without the blanks at either end. What stands between the first and the last other
character is kept as it is, the blanks among them. -/
def trim (text : Text) : Text := trimEnd (trimStart text)

/-- The maximal runs of characters that are not blank, in order. No word is empty, so several
blanks separate two words as one does. -/
def words (text : Text) : List Text := (text.splitOnP isBlank).filter (· ≠ [])

/-- The pieces that are not empty, with one space between any two. A piece that is missing leaves
no gap, and what stands inside a piece is not changed. -/
def spaced (pieces : List Text) : Text := [' '].intercalate (pieces.filter (· ≠ []))

/-- Every blank of core's smaller class is blank here. The converse fails beyond ASCII, and for
the vertical tab and the form feed. -/
theorem isBlank_of_isWhitespace {c : Char} (white : c.isWhitespace) : isBlank c := by
  simp only [Char.isWhitespace, Bool.or_eq_true, decide_eq_true_eq] at white
  rcases white with ((rfl | rfl) | rfl) | rfl <;> rfl

/-- Where the start has been trimmed, trimming it again changes nothing. -/
theorem trimStart_trimStart (text : Text) : trimStart (trimStart text) = trimStart text := by
  induction text with
  | nil => rfl
  | cons c rest inductionHypothesis =>
    simp only [trimStart, List.dropWhile_cons] at inductionHypothesis ⊢
    split
    · exact inductionHypothesis
    · rename_i visible
      simp [visible]

/-- Where the end has been trimmed, trimming it again changes nothing. The law for the start is
read backwards. -/
theorem trimEnd_trimEnd (text : Text) : trimEnd (trimEnd text) = trimEnd text := by
  simp only [trimEnd, List.reverse_reverse]
  exact congrArg List.reverse (trimStart_trimStart text.reverse)

/-- Trimming the end keeps a first part of the text. So nothing is moved, and what is cut off can
be put back. -/
theorem trimEnd_isPrefix (text : Text) : trimEnd text <+: text := by
  rw [← List.reverse_suffix]
  simpa [trimEnd] using List.dropWhile_suffix isBlank

/-- A text that begins with no blank still begins with none once its end is trimmed. -/
theorem trimStart_trimEnd {text : Text} (visible : trimStart text = text) :
    trimStart (trimEnd text) = trimEnd text := by
  cases kept : trimEnd text with
  | nil => rfl
  | cons c rest =>
    obtain ⟨dropped, whole⟩ := kept ▸ trimEnd_isPrefix text
    subst whole
    simp only [trimStart, List.cons_append, List.dropWhile_cons] at visible ⊢
    split
    · rename_i blank
      rw [if_pos blank] at visible
      have shorter := (List.dropWhile_suffix isBlank (l := rest ++ dropped)).length_le
      rw [visible] at shorter
      exact absurd shorter (by simp)
    · rfl

/-- A second trimming changes nothing. Every text that is stored trimmed can thus be trimmed
again when it is used, without a look at where it came from. -/
theorem trim_trim (text : Text) : trim (trim text) = trim text := by
  unfold trim
  rw [trimStart_trimEnd (trimStart_trimStart text), trimEnd_trimEnd]

end DocComment.Text
