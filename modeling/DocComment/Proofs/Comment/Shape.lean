import DocComment.Proofs.Comment.Words
import Mathlib.Data.List.TakeWhile

/-!
# The shape of a rendered comment

Blank lines come into a comment from everywhere: from its summary, from breaking lines, from
tags of several lines and from the lines between runs. The frame takes them off both ends, and
every line has lost the blanks at its end before it is framed. So a rendered comment is either
the empty one or has a first line, content that neither begins nor ends with an empty line, and
a last line. The empty one stands for those comments that say nothing.
-/
namespace DocComment

open Text

namespace Text

/-- A text without words is blank throughout, or empty. -/
theorem words_eq_nil_iff {text : Text} : words text = [] ↔ ∀ c ∈ text, isBlank c := by
  constructor
  · intro wordless
    induction text with
    | nil => exact nofun
    | cons c rest inductionHypothesis =>
      cases blank : isBlank c with
      | false =>
        have first := head?_words (startsVisible_cons.mpr blank) (List.cons_ne_nil c rest)
        simp [wordless] at first
      | true =>
        rw [words_cons blank] at wordless
        exact List.forall_mem_cons.mpr ⟨blank, inductionHypothesis wordless⟩
  · intro blank
    simpa using words_append_blanks blank []

/-- A text without words is empty if its end is trimmed, as all of it would be trimmed. -/
theorem eq_nil_of_wordless {text : Text} (ended : trimEnd text = text)
    (wordless : words text = []) : text = [] := by
  have blank := words_eq_nil_iff.mp wordless
  rw [← ended, trimEnd, List.reverse_eq_nil_iff, List.dropWhile_eq_nil_iff]
  exact fun c member => blank c (List.mem_reverse.mp member)

/-- The end of every line that a text is broken into is trimmed. Blanks at its start are kept. -/
theorem trimEnd_trimmedLines (text : Text) : ∀ line ∈ trimmedLines text, trimEnd line = line := by
  intro line member
  obtain ⟨whole, -, rfl⟩ := List.mem_map.mp member
  exact trimEnd_trimEnd whole

end Text

namespace Layout

/-- What remains between the empty lines at either end begins and ends with other lines. -/
theorem ends_dropEmptyEnds (lines : List Text) :
    (dropEmptyEnds lines).head? ≠ some [] ∧ (dropEmptyEnds lines).getLast? ≠ some [] := by
  have stops (rows : List Text) : (rows.dropWhile (·.isEmpty)).head? ≠ some [] := by
    intro empty
    have stopped := List.head?_dropWhile_not (·.isEmpty) rows
    rw [empty] at stopped
    contradiction
  constructor
  · -- the kept lines are a first part of those behind the empty lines at the start
    have front : dropEmptyEnds lines <+: lines.dropWhile (·.isEmpty) := by
      rw [dropEmptyEnds, ← List.reverse_suffix, List.reverse_reverse]
      exact List.dropWhile_suffix _
    obtain ⟨back, whole⟩ := front
    intro empty
    refine stops lines ?_
    rw [← whole, List.head?_append, empty]
    rfl
  · rw [dropEmptyEnds, List.getLast?_reverse]
    exact stops _

/-- No line remains exactly if all are empty. -/
theorem dropEmptyEnds_eq_nil_iff {lines : List Text} :
    dropEmptyEnds lines = [] ↔ ∀ line ∈ lines, line = [] := by
  rw [dropEmptyEnds, List.reverse_eq_nil_iff, List.dropWhile_eq_nil_iff]
  constructor
  · intro rest line member
    rw [← List.takeWhile_append_dropWhile (p := (·.isEmpty)) (l := lines)] at member
    rcases List.mem_append.mp member with dropped | kept
    · exact List.isEmpty_iff.mp (List.all_eq_true.mp List.all_takeWhile line dropped)
    · exact List.isEmpty_iff.mp (rest line (List.mem_reverse.mpr kept))
  · intro empty line member
    have inside := (List.dropWhile_suffix _).mem (List.mem_reverse.mp member)
    exact List.isEmpty_iff.mpr (empty line inside)

/-- The frame is the empty comment exactly if no line remains in it: the text of the empty
comment is no frame around lines. -/
theorem framed_eq_emptyComment_iff {lines : List Text} :
    framed lines = "/** */".toList ↔ dropEmptyEnds lines = [] := by
  unfold framed
  cases dropEmptyEnds lines with
  | nil => simp [emptyComment]
  | cons line others => simp

/-- A framed line is its asterisk alone only if it is empty. -/
theorem framedText_eq_asterisk_iff {line : Text} : framedText line = " *".toList ↔ line = [] := by
  unfold framedText
  split
  · rename_i empty
    simp [empty]
  · rename_i something
    simp [something]

/-- Lines whose ends are trimmed stand in a frame behind their asterisks, none of them with a
blank at its end, and neither the first nor the last of them empty. -/
theorem shape_of_framed {lines : List Text} (whole : ∀ line ∈ lines, '\n' ∉ line)
    (ended : ∀ line ∈ lines, trimEnd line = line) (something : dropEmptyEnds lines ≠ []) :
    ∃ content, content ≠ [] ∧
      (framed lines).splitOn '\n' = "/**".toList :: content ++ [" */".toList] ∧
      (∀ line ∈ content, line = " *".toList ∨
        ∃ text, text ≠ [] ∧ EndsVisible text ∧ line = " * ".toList ++ text) ∧
      content.head? ≠ some " *".toList ∧ content.getLast? ≠ some " *".toList := by
  obtain ⟨first, last⟩ := ends_dropEmptyEnds lines
  have asterisk (found : Option Text) (other : found ≠ some []) :
      found.map framedText ≠ some " *".toList := by
    intro alone
    obtain ⟨line, rfl, empty⟩ := Option.map_eq_some_iff.mp alone
    exact other (congrArg some (framedText_eq_asterisk_iff.mp empty))
  refine ⟨(dropEmptyEnds lines).map framedText, by simpa using something,
    splitOn_framed whole something, ?_, ?_, ?_⟩
  · intro framedLine member
    obtain ⟨line, kept, rfl⟩ := List.mem_map.mp member
    unfold framedText
    split
    · exact .inl rfl
    · rename_i visible
      exact .inr ⟨line, visible,
        trimEnd_eq_self_iff.mp (ended line (mem_of_mem_dropEmptyEnds kept)), rfl⟩
  · rw [List.head?_map]
    exact asterisk _ first
  · rw [List.getLast?_map]
    exact asterisk _ last

end Layout

namespace Comment

/-- The end of every line of a comment is trimmed, be it of its opening or of a tag. -/
theorem trimEnd_contentLines (comment : Comment) (style : Style) :
    ∀ line ∈ comment.contentLines style, trimEnd line = line :=
  forall_contentLines (fun line => trimEnd line = line) rfl trimEnd_trimmedLines comment style

/-- A style shows no tag exactly if the catalog has none. -/
theorem shownTags_eq_nil_iff (comment : Comment) (style : Style) :
    comment.shownTags style = [] ↔ comment.catalog.tags = [] := by
  rw [shownTags]
  split
  · rw [Catalog.sorted, Catalog.sortEntries, Catalog.tags, List.map_eq_nil_iff,
      List.map_eq_nil_iff]
    constructor
    · intro none
      exact (none ▸ sortBy_perm _ comment.catalog.entries).nil_eq.symm
    · intro none
      rw [none]
      rfl
  · rfl

/-- A tag begins with a visible sign, so it has a word even if its body is empty. -/
theorem words_written_ne_nil (tag : Tag) : words tag.written ≠ [] := by
  have sign : '@' ∈ tag.written := by
    rw [Tag.written]
    split
    · exact List.mem_cons_self
    · exact List.mem_cons_self
  intro wordless
  exact absurd (words_eq_nil_iff.mp wordless '@' sign) (by decide)

/-- All lines of a comment are empty exactly if it says nothing: it has no tag, and nothing but
blanks in its texts. -/
theorem forall_contentLines_empty_iff (comment : Comment) (style : Style) :
    (∀ line ∈ comment.contentLines style, line = []) ↔
      words (comment.summary.getD []) = [] ∧ words comment.description = [] ∧
        comment.catalog.tags = [] := by
  have wordless : (∀ line ∈ comment.contentLines style, line = []) ↔
      wordsOfAll (comment.contentLines style) = [] := by
    rw [wordsOfAll, List.flatMap_eq_nil_iff]
    constructor
    · intro empty line member
      rw [empty line member, words_nil]
    · intro none line member
      exact eq_nil_of_wordless (trimEnd_contentLines comment style line member)
        (none line member)
  have tagless : wordsOfAll ((comment.shownTags style).map Tag.written) = [] ↔
      comment.catalog.tags = [] := by
    rw [← shownTags_eq_nil_iff comment style, wordsOfAll, List.flatMap_map]
    cases comment.shownTags style with
    | nil => simp
    | cons tag others => simp [words_written_ne_nil]
  rw [wordless, wordsOfAll_contentLines, List.append_eq_nil_iff, List.append_eq_nil_iff, tagless,
    and_assoc]

end Comment

end DocComment
