import DocComment.Proofs.Comment.Words
import DocComment.Proofs.Sorting

/-!
# Where a comment ends

A comment ends at the first closing sign in its text, wherever that stands. The frame writes one
at the very end and puts an asterisk in front of every line, and no asterisk of its own is ever
followed by a slash. So a rendered comment ends too early exactly if a text that it was given
ends one.

The sign has no blank in it, so that it stands in a text exactly if it stands in one of its words.
Layout keeps words whole, and everything that rendering does to a text comes down to that.
-/
namespace DocComment

open Text

namespace Text

/-- The sign that ends a comment stands somewhere in the text, at whatever place. -/
def HasClosing (text : Text) : Prop := "*/".toList <:+: text

/-- The places of the text are gone through one by one. -/
instance (text : Text) : Decidable (HasClosing text) :=
  inferInstanceAs (Decidable ("*/".toList <:+: text))

/-- The empty text has no sign in it. -/
theorem not_hasClosing_nil : ¬ HasClosing [] := by decide

/-- The sign begins a text or stands behind its first character, which is the step of every
induction here. -/
theorem hasClosing_cons {c : Char} {rest : Text} :
    HasClosing (c :: rest) ↔ (c = '*' ∧ rest.head? = some '/') ∨ HasClosing rest := by
  have begins : "*/".toList <+: c :: rest ↔ c = '*' ∧ rest.head? = some '/' := by
    cases rest with
    | nil => simp [List.cons_prefix_cons]
    | cons d others => simp [List.cons_prefix_cons, eq_comm]
  rw [HasClosing, List.infix_cons_iff, begins, HasClosing]

/-- What does not begin with a slash completes no sign in front of it, so the sign stands in one
of the two parts. -/
theorem hasClosing_append {before behind : Text} (apart : behind.head? ≠ some '/') :
    HasClosing (before ++ behind) ↔ HasClosing before ∨ HasClosing behind := by
  induction before with
  | nil => simp [not_hasClosing_nil]
  | cons c rest inductionHypothesis =>
    have first : (rest ++ behind).head? = some '/' ↔ rest.head? = some '/' := by
      cases rest with
      | nil => simp [apart]
      | cons d others => rfl
    rw [List.cons_append, hasClosing_cons, hasClosing_cons, first, inductionHypothesis, or_assoc]

/-- A blank stands within no sign, so what stands on either side of it can be asked by itself. -/
theorem hasClosing_append_cons {c : Char} (blank : isBlank c) (before behind : Text) :
    HasClosing (before ++ c :: behind) ↔ HasClosing before ∨ HasClosing behind := by
  have noSlash : c ≠ '/' := by rintro rfl; exact absurd blank (by decide)
  have noAsterisk : c ≠ '*' := by rintro rfl; exact absurd blank (by decide)
  rw [hasClosing_append (by simpa using noSlash), hasClosing_cons]
  simp [noAsterisk]

/-- The sign stands in a text exactly if it stands in one of its words. -/
theorem hasClosing_iff_words (text : Text) :
    HasClosing text ↔ ∃ word ∈ words text, HasClosing word := by
  -- the induction passes over a word that has begun
  have begun (word : Text) (visible : Visible word) :
      HasClosing (word ++ text) ↔ ∃ each ∈ words (word ++ text), HasClosing each := by
    induction text generalizing word with
    | nil =>
      rw [List.append_nil]
      by_cases empty : word = []
      · simp [empty, not_hasClosing_nil]
      · simp [words_of_visible visible empty]
    | cons c rest inductionHypothesis =>
      cases blank : isBlank c with
      | true =>
        have ended := inductionHypothesis [] (by simp [Visible])
        rw [List.nil_append] at ended
        rw [hasClosing_append_cons blank, words_append_cons blank, ended]
        by_cases empty : word = []
        · simp [empty, not_hasClosing_nil]
        · simp [words_of_visible visible empty]
      | false =>
        have longer : Visible (word ++ [c]) := by
          intro d member
          rcases List.mem_append.mp member with inside | last
          · exact visible d inside
          · exact List.mem_singleton.mp last ▸ blank
        simpa using inductionHypothesis (word ++ [c]) longer
  simpa using begun [] (by simp [Visible])

/-- One of several texts has the sign exactly if one of their words has it. How the words are
divided among the texts makes no difference. -/
theorem exists_hasClosing_iff (texts : List Text) :
    (∃ text ∈ texts, HasClosing text) ↔ ∃ word ∈ wordsOfAll texts, HasClosing word := by
  simp only [wordsOfAll, List.mem_flatMap]
  constructor
  · rintro ⟨text, member, closing⟩
    obtain ⟨word, inside, part⟩ := (hasClosing_iff_words text).mp closing
    exact ⟨word, ⟨text, member, inside⟩, part⟩
  · rintro ⟨word, ⟨text, member, inside⟩, part⟩
    exact ⟨text, member, (hasClosing_iff_words text).mpr ⟨word, inside, part⟩⟩

end Text

namespace Layout

/-- The asterisk in front of a line is part of no sign: a space or the end of the line follows
it. -/
theorem hasClosing_framedText (line : Text) : HasClosing (framedText line) ↔ HasClosing line := by
  rw [framedText]
  split
  · rename_i empty
    rw [empty]
    decide
  · have parted : " * ".toList ++ line = " *".toList ++ ' ' :: line := rfl
    rw [parted, hasClosing_append_cons (by decide), or_iff_right (by decide)]

/-- Framed lines have the sign only in one of the lines, since a line feed stands between any
two. -/
theorem hasClosing_flatMap_framedLine (lines : List Text) (behind : Text) :
    HasClosing (lines.flatMap framedLine ++ behind) ↔
      (∃ line ∈ lines, HasClosing line) ∨ HasClosing behind := by
  induction lines with
  | nil => simp
  | cons line others inductionHypothesis =>
    rw [List.flatMap_cons, framedLine_eq, List.append_assoc, List.append_assoc,
      List.singleton_append, hasClosing_append_cons (by decide), hasClosing_framedText,
      inductionHypothesis]
    simp [or_assoc]

/-- A frame ends with the sign, and it has another one only in its lines. -/
theorem closing_framed (lines : List Text) :
    ∃ shown, framed lines = shown ++ "*/".toList ∧
      (HasClosing shown ↔ ∃ line ∈ lines, HasClosing line) := by
  have kept : (∃ line ∈ lines, HasClosing line) ↔
      ∃ line ∈ dropEmptyEnds lines, HasClosing line := by
    rw [exists_hasClosing_iff lines, ← wordsOfAll_dropEmptyEnds, ← exists_hasClosing_iff]
  rw [framed, kept]
  cases dropEmptyEnds lines with
  | nil =>
    refine ⟨"/** ".toList, rfl, iff_of_false (by decide) ?_⟩
    rintro ⟨line, member, -⟩
    contradiction
  | cons line others =>
    refine ⟨"/**".toList ++ '\n' :: ((line :: others).flatMap framedLine ++ [' ']), by simp, ?_⟩
    rw [hasClosing_append_cons (by decide), hasClosing_flatMap_framedLine,
      or_iff_right (by decide), or_iff_left (by decide)]

end Layout

namespace Comment

/-- A style shows the tags of the catalog, in whatever order, and no others. -/
theorem mem_shownTags_iff (comment : Comment) (style : Style) (tag : Tag) :
    tag ∈ comment.shownTags style ↔ tag ∈ comment.catalog.tags := by
  rw [shownTags]
  split
  · exact ((sortBy_perm _ comment.catalog.entries).map (·.2)).mem_iff
  · rfl

end Comment

end DocComment
