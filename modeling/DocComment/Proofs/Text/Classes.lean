import DocComment.Proofs.Text.Visible
import DocComment.Text.Alphanumeric

/-!
# Word characters are not blank

Two classes of characters given by tables exclude each other when no range of the one meets a
range of the other. Letters, digits and the underscore of every script are kept apart from
the blanks in this way, so that a text of word characters is visible.
-/
namespace DocComment

/-- No range of the one table meets a range of the other. It is stated range by range, so that
two tables are compared without running through the characters. -/
def CodeRanges.Apart (one other : CodeRanges) : Prop :=
  ∀ range ∈ one, ∀ facing ∈ other, range.2 < facing.1 ∨ facing.2 < range.1

/-- Two tables are finite, so whether they are apart is decided by comparing the ends of their
ranges. -/
instance (one other : CodeRanges) : Decidable (one.Apart other) :=
  inferInstanceAs (Decidable (∀ range ∈ one, ∀ facing ∈ other,
    range.2 < facing.1 ∨ facing.2 < range.1))

/-- A character that one table holds is not held by a table apart from it. The comparison of the
tables is made once, and serves every character. -/
theorem CodeRanges.Apart.holds_eq_false {one other : CodeRanges} (apart : one.Apart other)
    {c : Char} (held : one.holds c) : other.holds c = false := by
  by_contra alsoHeld
  simp only [holds, Bool.not_eq_false, List.any_eq_true, Bool.and_eq_true,
    decide_eq_true_eq] at held alsoHeld
  obtain ⟨range, member, lower, upper⟩ := held
  obtain ⟨facing, facingMember, facingLower, facingUpper⟩ := alsoHeld
  have distinct := apart range member facing facingMember
  omega

namespace Text

/-- The letters and digits beyond ASCII are apart from the blanks. Both tables are compared as
they stand, and nothing is taken from the standard. -/
theorem alphanumericRanges_apart : CodeRanges.Apart alphanumericRanges blankRanges := by
  decide +kernel

/-- A letter or a digit of ASCII is not blank, since the blanks of ASCII are below the digits. -/
theorem isBlank_of_isAlphanum {c : Char} (letter : c.isAlphanum) : isBlank c = false := by
  by_contra blank
  simp [isBlank, blankRanges, CodeRanges.holds] at blank
  delta Char.isAlphanum Char.isAlpha Char.isUpper Char.isLower Char.isDigit at letter
  simp only [Bool.or_eq_true, Bool.and_eq_true, decide_eq_true_eq, UInt32.le_iff_toNat_le]
    at letter
  simp at letter
  omega

/-- A word character is not blank, of whichever script. Hence a name is never cut by trimming or
by looking for words. -/
theorem isBlank_of_isWordCharacter {c : Char} (part : isWordCharacter c) : isBlank c = false := by
  simp only [isWordCharacter, Bool.or_eq_true, beq_iff_eq] at part
  rcases part with letter | rfl
  · rw [isAlphanumeric] at letter
    split at letter
    · exact isBlank_of_isAlphanum letter
    · exact alphanumericRanges_apart.holds_eq_false letter
  · decide

/-- A word character is none of the characters that are no word characters. It is used for the
signs that delimit names: parentheses, commas, dollar signs. -/
theorem ne_of_isWordCharacter {c : Char} (part : isWordCharacter c) (other : Char)
    (apart : isWordCharacter other = false) : c ≠ other := by
  rintro rfl
  rw [part] at apart
  contradiction

/-- A text of characters with a property has no character without it. -/
theorem notMem_of_all {property : Char → Bool} {text : Text} (every : text.all property) {c : Char}
    (lacks : property c = false) : c ∉ text := by
  intro member
  have has := List.all_eq_true.mp every c member
  rw [lacks] at has
  exact Bool.false_ne_true has

/-- A text of word characters is visible. The empty text is one, so nothing is said of there
being a name. -/
theorem visible_of_isWordCharacter {text : Text} (word : text.all isWordCharacter) :
    Visible text :=
  fun c member => isBlank_of_isWordCharacter (List.all_eq_true.mp word c member)

end DocComment.Text
