import DocComment.Proofs.Catalog.FirstAppearance
import DocComment.Proofs.Comment.Runs
import DocComment.Proofs.Tag.Built

/-!
# Alignment without neighbours

A tag that stands alone has nothing to align with. In columns it is then written as by itself,
but for blanks at the end, whichever of its cells are empty: each column is as wide as its only
cell, and a column whose only cell is empty has no place. The blanks at the end matter only to a
content that was written down directly, since a tag that was built ends without them.

So a comment in which no two neighbours have one aliased name is the same text with columns and
without.
-/
namespace DocComment

open Text

/-- The written form of a tag that was built has no blank at its end, be it the body or the
keyword that ends it. -/
theorem Tag.Built.endsVisible_written {tag : Tag} (built : tag.Built) :
    EndsVisible tag.written := by
  rw [Layout.written_eq_behindSpace]
  by_cases empty : tag.body = []
  · have visible : Visible ('@' :: tag.name.text) :=
      List.forall_mem_cons.mpr ⟨by decide, Tag.visible_keyword tag.name⟩
    rw [empty, behindSpace, if_pos rfl, List.append_nil]
    exact fun c last => visible c (List.mem_of_getLast? last)
  · rw [behindSpace_of_ne_nil empty]
    exact endsVisible_append _ (List.cons_ne_nil ' ' _)
      (endsVisible_cons empty built.endsVisible_body)

namespace Layout

/-- A cell fills a column of its own length, so nothing is put behind it. -/
theorem padded_length (cell : Text) : padded cell.length cell = cell := by
  rw [padded, List.rightpad, Nat.sub_self, List.replicate_zero, List.append_nil]

/-- In a column of its own length, a cell stands behind a space unless it is empty. -/
theorem cellBehind_length (cell : Text) : cellBehind cell.length cell = behindSpace cell := by
  rw [cellBehind, behindSpace, padded_length]
  simp only [List.length_eq_zero_iff]

/-- The widths of a single row are those of its cells, so there is no padding between them. -/
theorem Row.written_ofRows_self (row : Row) :
    row.written (.ofRows [row]) = trimEnd (row.keyword ++
      (row.declaration.elim [] fun cells => behindSpace cells.1 ++ behindSpace cells.2) ++
      behindSpace row.rest) := by
  have keyword : (Widths.ofRows [row]).keyword = row.keyword.length := Nat.max_zero _
  rw [Row.written_eq, keyword, padded_length]
  cases declared : row.declaration with
  | none => rfl
  | some cells =>
    have type : (Widths.ofRows [row]).type = cells.1.length := by
      simp [Widths.ofRows, declared, widest]
    have token : (Widths.ofRows [row]).token = cells.2.length := by
      simp [Widths.ofRows, declared, widest]
    rw [type, token, Option.elim_some, cellBehind_length, cellBehind_length, Option.elim_some]

/-- A tag alone in its columns is written as by itself, without blanks at the end. -/
theorem inColumns_singleton (tag : Tag) : inColumns [tag] = [trimEnd tag.written] := by
  rw [written_eq_cells, ← Row.written_ofRows_self]
  rfl

end Layout

namespace Comment

/-- Tags whose neighbours differ are runs by themselves. Tags further apart may have one name. -/
theorem runs_of_isChain_ne {tags : List Tag}
    (apart : tags.IsChain fun tag next => tag.aliasedName ≠ next.aliasedName) :
    runs tags = tags.map ([·]) := by
  refine runs_eq_iff.mpr ⟨?_, ?_, ?_, ?_⟩
  · rw [← List.flatMap_def, List.flatMap_singleton']
  · simp
  · simp
  · rw [List.isChain_map]
    simpa using apart

/-- A run of one tag that was built has the same text with columns and without. -/
theorem runTexts_singleton (style : Style) {tag : Tag} (built : tag.Built) :
    runTexts style [tag] = [tag.written] := by
  rw [runTexts, Layout.inColumns_singleton, trimEnd_eq_self_iff.mpr built.endsVisible_written]
  split
  · rfl
  · rfl

/-- Tags that were built and whose neighbours differ come one by one, whatever the style. The
right side does not mention the columns. -/
theorem contentLines_of_isChain_ne (comment : Comment) (style : Style)
    (built : ∀ tag ∈ comment.catalog.tags, tag.Built)
    (apart : (comment.shownTags style).IsChain fun tag next =>
      tag.aliasedName ≠ next.aliasedName) :
    comment.contentLines style =
      (comment.shownTags style).foldl
        (fun lines tag =>
          (if lines = [] then [] else lines ++ [[]]) ++ trimmedLines tag.written)
        (openingLines (comment.summary.getD []) comment.description style.width) := by
  rw [contentLines, runs_of_isChain_ne apart, List.foldl_map]
  refine List.foldl_ext _ _ _ fun lines tag member => ?_
  have given := built tag ((mem_shownTags_iff comment style tag).mp member)
  rw [appendRun, runTexts_singleton style given, List.flatMap_singleton]

/-- A tag alone in its columns is written as by itself, without blanks at the end. Hence a
comment of tags that were built, of which no two neighbours have one aliased name, has the same
text with columns and without, whatever its width and its order. -/
theorem alignment_is_idle :
    (∀ tag, Layout.inColumns [tag] = [trimEnd tag.written]) ∧
    ∀ (comment : Comment) (style : Style), (∀ tag ∈ comment.catalog.tags, tag.Built) →
      ((comment.shownTags style).IsChain fun tag next => tag.aliasedName ≠ next.aliasedName) →
      comment.render { style with aligned := true } =
        comment.render { style with aligned := false } := by
  refine ⟨Layout.inColumns_singleton, fun comment style built apart => ?_⟩
  have aligned := contentLines_of_isChain_ne comment { style with aligned := true } built apart
  have plain := contentLines_of_isChain_ne comment { style with aligned := false } built apart
  rw [render, render, aligned, plain]
  rfl

/-- A parameter, a return, a variable without a name and a mixin, with one empty cell or more in
three of them. -/
def scattered : Comment :=
  .ofParts (some "Summary.".toList) [] [
    .unlabelled (.param ⟨.ofText [], "id".toList, false, false, "The number.".toList⟩),
    .unlabelled (.returns ⟨.ofText "string".toList, []⟩),
    .unlabelled (.var ⟨.ofText [], none, "Something.".toList⟩),
    .unlabelled (.mixin (.ofText "Base".toList))]

/-- No two of its neighbours have one name, so that columns change nothing. -/
theorem alignment_is_idle_scattered :
    (∀ tag ∈ scattered.catalog.tags, tag.Built) ∧
    ((scattered.shownTags .standard).IsChain fun tag next =>
      tag.aliasedName ≠ next.aliasedName) ∧
    scattered.render .standard = scattered.render ⟨67, false, false⟩ ∧
    (scattered.render .standard).splitOn '\n' = ["/**",
      " * Summary.",
      " *",
      " * @param $id The number.",
      " *",
      " * @return string",
      " *",
      " * @var Something.",
      " *",
      " * @mixin Base",
      " */"].map String.toList := by
  have built : ∀ tag ∈ scattered.catalog.tags, tag.Built := by
    change ∀ tag ∈ (Catalog.ofTags _).tags, tag.Built
    rw [Catalog.tags_ofTags]
    refine List.forall_mem_cons.mpr ⟨?_, List.forall_mem_cons.mpr ⟨?_,
      List.forall_mem_cons.mpr ⟨?_, List.forall_mem_cons.mpr ⟨?_, nofun⟩⟩⟩⟩
    · exact .param (show Tag.ofParam (.ofText []) "id".toList "The number.".toList = .ok _ by
        decide +kernel)
    · exact .returns (show Tag.ofReturn (.ofText "string".toList) [] = .ok _ by decide +kernel)
    · exact .var (show Tag.ofVar (.ofText []) none "Something.".toList = .ok _ by decide +kernel)
    · exact .mixin (show Tag.ofMixin (.ofText "Base".toList) = .ok _ by decide +kernel)
  have apart : (scattered.shownTags .standard).IsChain fun tag next =>
      tag.aliasedName ≠ next.aliasedName := by decide +kernel
  exact ⟨built, apart, alignment_is_idle.2 scattered .standard built apart, by decide +kernel⟩

end Comment

end DocComment
