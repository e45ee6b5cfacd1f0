import DocComment.Comment.Render
import DocComment.Proofs.Layout.Unframed
import Mathlib.Data.List.SplitBy

/-!
# The words of a rendered comment

A rendered comment shows the words of its summary, of its description and of each tag,
in this order and none besides, whatever the width and whether tags stand in columns or
not. The text goes through filling, trimming, lines, runs, padded columns and a frame;
each of these keeps the words of what it is given, so that the whole does.

A column is left out exactly when its width is zero, which is when all its cells are
empty: only then does the cell that is skipped have no words.
-/
namespace DocComment

open Text

namespace Layout

/-- Filling a cell up adds no word, whatever the width. -/
theorem words_padded (width : Nat) (cell : Text) : words (padded width cell) = words cell := by
  refine words_append_blanks ?_ cell
  intro c member
  rw [List.eq_of_mem_replicate member]
  decide

/-- A cell behind a space starts with a blank, and so does a cell that is left out. -/
theorem startsBlank_cellBehind (width : Nat) (cell : Text) :
    StartsBlank (cellBehind width cell) := by
  rw [cellBehind]
  split
  · exact startsBlank_nil
  · exact startsBlank_space _

/-- A cell keeps its words unless its column is left out, and then the cell is empty. -/
theorem words_cellBehind {width : Nat} {cell : Text} (fits : cell.length ≤ width) :
    words (cellBehind width cell) = words cell := by
  rw [cellBehind]
  split
  · rename_i zero
    have empty : cell = [] := List.length_eq_zero_iff.mp (by omega)
    rw [empty]
  · rw [words_cons (by decide), words_padded]

/-- The words of a row: those of its cells, from the keyword on, in their order. -/
def Row.words (row : Row) : List Text :=
  Text.words row.keyword ++
    (row.declaration.elim [] fun cells => Text.words cells.1 ++ Text.words cells.2) ++
    Text.words row.rest

/-- Widths are wide enough for a row when its declaration fits into them. -/
def Widths.Fit (widths : Widths) (row : Row) : Prop :=
  ∀ cells ∈ row.declaration, cells.1.length ≤ widths.type ∧ cells.2.length ≤ widths.token

/-- The longest cell is at least as long as any. -/
theorem length_le_widest {cells : List Text} {cell : Text} (member : cell ∈ cells) :
    cell.length ≤ widest cells := by
  induction cells with
  | nil => contradiction
  | cons first others inductionHypothesis =>
    have step : widest (first :: others) = max first.length (widest others) := rfl
    rcases List.mem_cons.mp member with rfl | later
    · omega
    · have bound := inductionHypothesis later
      omega

/-- The widths of a group are wide enough for each of its rows. -/
theorem fit_ofRows {rows : List Row} {row : Row} (member : row ∈ rows) :
    (Widths.ofRows rows).Fit row := by
  intro cells declared
  constructor
  · apply length_le_widest
    exact List.mem_filterMap.mpr ⟨row, member, by simp [Option.mem_def.mp declared]⟩
  · apply length_le_widest
    exact List.mem_filterMap.mpr ⟨row, member, by simp [Option.mem_def.mp declared]⟩

/-- A row is written as its cells, each behind the one before, without blanks at the end. -/
theorem Row.written_eq (widths : Widths) (row : Row) :
    row.written widths = trimEnd (padded widths.keyword row.keyword ++
      (row.declaration.elim [] fun cells =>
        cellBehind widths.type cells.1 ++ cellBehind widths.token cells.2) ++
      behindSpace row.rest) := by
  rw [Row.written, behindSpace]
  cases row.declaration with
  | none => rfl
  | some cells => rfl

/-- A row in columns keeps the words of its cells: they are set apart by spaces as before. -/
theorem words_written {widths : Widths} {row : Row} (fit : widths.Fit row) :
    Text.words (row.written widths) = row.words := by
  rw [Row.written_eq, words_trimEnd, Row.words, words_append (startsBlank_behindSpace _),
    words_behindSpace]
  congr 1
  cases declared : row.declaration with
  | none => simp [words_padded]
  | some cells =>
    obtain ⟨typeFits, tokenFits⟩ := fit cells declared
    simp only [Option.elim_some]
    rw [← List.append_assoc, words_append (startsBlank_cellBehind _ _),
      words_append (startsBlank_cellBehind _ _), words_padded, words_cellBehind typeFits,
      words_cellBehind tokenFits, List.append_assoc]

/-- A tag is written as its keyword and, behind a space, its body; a tag without a body ends with
its keyword. -/
theorem written_eq_behindSpace (tag : Tag) :
    tag.written = '@' :: tag.name.text ++ behindSpace tag.body := by
  rw [Tag.written, behindSpace]
  split
  · rw [List.append_nil]
  · rfl

/-- A tag by itself is written as its cells, each of them behind a space unless it is empty. -/
theorem written_eq_cells (tag : Tag) :
    tag.written = (Row.ofTag tag).keyword ++
      ((Row.ofTag tag).declaration.elim [] fun cells =>
        behindSpace cells.1 ++ behindSpace cells.2) ++ behindSpace (Row.ofTag tag).rest := by
  rw [written_eq_behindSpace]
  obtain ⟨content, labels⟩ := tag
  cases content with
  | generic generic => simp [Row.ofTag]
  | method method => simp [Row.ofTag]
  | mixin type => simp [Row.ofTag]
  | param param => simp [Row.ofTag, Tag.body, behindSpace_spaced]
  | var var => simp [Row.ofTag, Tag.body, behindSpace_spaced]
  | property access property => simp [Row.ofTag, Tag.body, behindSpace_spaced]
  | returns returns =>
    have empty : behindSpace [] = [] := rfl
    simp [Row.ofTag, Tag.body, behindSpace_spaced, empty]

/-- The cells of a tag have the words of its written form, so columns show what the tag by itself
shows. -/
theorem words_ofTag (tag : Tag) : (Row.ofTag tag).words = Text.words tag.written := by
  rw [written_eq_cells, words_append (startsBlank_behindSpace _), words_behindSpace, Row.words]
  congr 1
  cases (Row.ofTag tag).declaration with
  | none => rw [Option.elim_none, Option.elim_none, List.append_nil, List.append_nil]
  | some cells =>
    rw [Option.elim_some, Option.elim_some, ← List.append_assoc _ (behindSpace cells.1),
      words_append (startsBlank_behindSpace _), words_append (startsBlank_behindSpace _),
      words_behindSpace, words_behindSpace, List.append_assoc]

/-- Tags in columns keep their words, tag by tag. -/
theorem wordsOfAll_inColumns (tags : List Tag) :
    wordsOfAll (inColumns tags) = wordsOfAll (tags.map Tag.written) := by
  rw [inColumns, wordsOfAll, wordsOfAll, List.flatMap_map, List.flatMap_map, List.flatMap_map]
  refine List.flatMap_congr fun tag member => ?_
  rw [words_written (fit_ofRows (List.mem_map_of_mem member)), words_ofTag]

end Layout

namespace Comment

/-- The opening shows the words of the summary and then those of the description, whatever the
width. -/
theorem wordsOfAll_openingLines (summary description : Text) (width : Nat) :
    wordsOfAll (openingLines summary description width) = words summary ++ words description := by
  have feed : isBlank '\n' := by decide
  have parted : summary ++ ['\n', '\n'] ++ filled description width =
      summary ++ '\n' :: '\n' :: filled description width := by simp
  rw [openingLines, wordsOfAll_trimmedLines, words_trim, parted, words_append_cons feed,
    words_cons feed, words_filled]

/-- The texts of a run have the words of its tags, in columns or not. -/
theorem wordsOfAll_runTexts (style : Style) (run : List Tag) :
    wordsOfAll (runTexts style run) = wordsOfAll (run.map Tag.written) := by
  rw [runTexts]
  split
  · exact Layout.wordsOfAll_inColumns run
  · rfl

/-- A run adds the words of its tags; the empty line in front of it adds none. -/
theorem wordsOfAll_appendRun (style : Style) (lines : List Text) (run : List Tag) :
    wordsOfAll (appendRun style lines run) =
      wordsOfAll lines ++ wordsOfAll (run.map Tag.written) := by
  have broken : wordsOfAll ((runTexts style run).flatMap trimmedLines) =
      wordsOfAll (runTexts style run) := by
    induction runTexts style run with
    | nil => rfl
    | cons text others inductionHypothesis =>
      rw [List.flatMap_cons, wordsOfAll_append, inductionHypothesis, wordsOfAll_trimmedLines,
        wordsOfAll_cons]
  rw [appendRun, wordsOfAll_append, broken, wordsOfAll_runTexts]
  split
  · rename_i none
    rw [none]
  · simp

/-- All runs together add the words of all tags, in the order of the runs. -/
theorem wordsOfAll_foldl_appendRun (style : Style) (runs : List (List Tag)) (lines : List Text) :
    wordsOfAll (runs.foldl (appendRun style) lines) =
      wordsOfAll lines ++ wordsOfAll (runs.flatten.map Tag.written) := by
  induction runs generalizing lines with
  | nil => simp
  | cons run others inductionHypothesis =>
    rw [List.foldl_cons, inductionHypothesis, wordsOfAll_appendRun, List.flatten_cons,
      List.map_append, wordsOfAll_append, List.append_assoc]

/-- What holds of the empty line and of every line that a text is broken into holds of all lines
of a comment, since it has no others. -/
theorem forall_contentLines (holds : Text → Prop) (empty : holds [])
    (broken : ∀ text, ∀ line ∈ trimmedLines text, holds line) (comment : Comment)
    (style : Style) : ∀ line ∈ comment.contentLines style, holds line := by
  have kept (runs : List (List Tag)) (lines : List Text) (before : ∀ line ∈ lines, holds line) :
      ∀ line ∈ runs.foldl (appendRun style) lines, holds line := by
    induction runs generalizing lines with
    | nil => exact before
    | cons run others inductionHypothesis =>
      refine inductionHypothesis _ fun line member => ?_
      rcases List.mem_append.mp member with old | added
      · split at old
        · contradiction
        · rcases List.mem_append.mp old with earlier | separator
          · exact before line earlier
          · exact List.mem_singleton.mp separator ▸ empty
      · obtain ⟨text, -, part⟩ := List.mem_flatMap.mp added
        exact broken text line part
  exact kept _ _ (broken _)

/-- No line of a comment has a line feed in it, so the frame can be cut at its line feeds. -/
theorem notMem_contentLines (comment : Comment) (style : Style) :
    ∀ line ∈ comment.contentLines style, '\n' ∉ line :=
  forall_contentLines ('\n' ∉ ·) List.not_mem_nil notMem_trimmedLines comment style

/-- The lines of a comment have the words of its parts: of the summary, of the description and of
the tags. -/
theorem wordsOfAll_contentLines (comment : Comment) (style : Style) :
    wordsOfAll (comment.contentLines style) =
      words (comment.summary.getD []) ++ words comment.description ++
        wordsOfAll ((comment.shownTags style).map Tag.written) := by
  rw [contentLines, wordsOfAll_foldl_appendRun, wordsOfAll_openingLines, runs,
    List.flatten_splitBy]

/-- What a rendered comment shows, word by word, once its frame is taken off. -/
theorem wordsOfAll_unframed_render (comment : Comment) (style : Style) :
    wordsOfAll (Layout.unframed (comment.render style)) =
      words (comment.summary.getD []) ++ words comment.description ++
        wordsOfAll ((comment.shownTags style).map Tag.written) := by
  rw [render, Layout.unframed_framed _ (notMem_contentLines comment style),
    Layout.wordsOfAll_dropEmptyEnds, wordsOfAll_contentLines]

end Comment

end DocComment
