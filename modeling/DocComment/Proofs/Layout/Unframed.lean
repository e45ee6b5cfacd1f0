import DocComment.Layout.Frame
import DocComment.Proofs.Text.Words

/-!
# Reading lines out of a frame

The lines of a framed comment are found again between its first and its last line, each
behind its asterisk and at most one space. What comes back is what was framed, except for
the empty lines at either end.
-/
namespace DocComment.Layout

/-- A line without the asterisk in front of it and one space behind that. -/
def dropAsterisk : Text → Text
  | ' ' :: '*' :: ' ' :: line => line
  | ' ' :: '*' :: line => line
  | line => line

/-- The lines between the first and the last line of a comment, without their asterisks; none for
a comment of one line. -/
def unframed (comment : Text) : List Text :=
  ((comment.splitOn '\n').drop 1).dropLast.map dropAsterisk

/-- A framed line without the line feed behind it. -/
def framedText (line : Text) : Text :=
  if line = [] then " *".toList else " * ".toList ++ line

/-- A framed line ends in a line feed, and has no other one if the line has none. -/
theorem framedLine_eq (line : Text) : framedLine line = framedText line ++ ['\n'] := by
  unfold framedLine framedText
  split
  · rfl
  · rfl

/-- The asterisk is found again in front of every line, also in front of one that begins with a
blank. -/
theorem dropAsterisk_framedText (line : Text) : dropAsterisk (framedText line) = line := by
  unfold framedText
  split
  · rename_i empty
    rw [empty]
    rfl
  · rfl

/-- Framing a line puts no line feed into it. -/
theorem notMem_framedText {line : Text} (whole : '\n' ∉ line) : '\n' ∉ framedText line := by
  unfold framedText
  split
  · decide
  · intro member
    rcases List.mem_append.mp member with sign | inside
    · revert sign
      decide
    · exact whole inside

/-- Framed lines are cut apart again at the line feeds. What follows the last of them is cut by
itself. -/
theorem splitOn_flatMap_framedLine (lines : List Text) (whole : ∀ line ∈ lines, '\n' ∉ line)
    (last : Text) :
    (lines.flatMap framedLine ++ last).splitOn '\n' =
      lines.map framedText ++ last.splitOn '\n' := by
  induction lines with
  | nil => rfl
  | cons line others inductionHypothesis =>
    have first : '\n' ∉ framedText line := notMem_framedText (whole line List.mem_cons_self)
    have rest := inductionHypothesis fun other member =>
      whole other (List.mem_cons_of_mem line member)
    rw [List.flatMap_cons, framedLine_eq, List.append_assoc, List.append_assoc,
      List.singleton_append, List.splitOn_append_cons_self_of_not_mem first, rest]
    rfl

/-- Dropping the empty lines at either end brings in no line that was not there. -/
theorem mem_of_mem_dropEmptyEnds {lines : List Text} {line : Text}
    (kept : line ∈ dropEmptyEnds lines) : line ∈ lines := by
  have behind := (List.dropWhile_suffix _).mem (List.mem_reverse.mp kept)
  exact (List.dropWhile_suffix _).mem (List.mem_reverse.mp behind)

/-- A comment of more than one line is cut at its line feeds into its first line, the framed
lines and its last line. -/
theorem splitOn_framed {lines : List Text} (whole : ∀ line ∈ lines, '\n' ∉ line)
    (something : dropEmptyEnds lines ≠ []) :
    (framed lines).splitOn '\n' =
      "/**".toList :: (dropEmptyEnds lines).map framedText ++ [" */".toList] := by
  have wholeKept : ∀ line ∈ dropEmptyEnds lines, '\n' ∉ line := fun line member =>
    whole line (mem_of_mem_dropEmptyEnds member)
  have opening : "/**\n".toList = "/**".toList ++ ['\n'] := rfl
  have closing : " */".toList.splitOn '\n' = [" */".toList] := by decide
  have unbroken : '\n' ∉ "/**".toList := by decide
  unfold framed
  cases kept : dropEmptyEnds lines with
  | nil => exact absurd kept something
  | cons line others =>
    rw [kept] at wholeKept
    simp only [opening]
    rw [List.append_assoc, List.append_assoc, List.singleton_append,
      List.splitOn_append_cons_self_of_not_mem unbroken,
      splitOn_flatMap_framedLine _ wholeKept, closing]
    rfl

/-- A frame gives back what was framed, without the empty lines at either end. That holds for the
empty comment too, which gives back nothing. -/
theorem unframed_framed (lines : List Text) (whole : ∀ line ∈ lines, '\n' ∉ line) :
    unframed (framed lines) = dropEmptyEnds lines := by
  by_cases nothing : dropEmptyEnds lines = []
  · rw [framed, nothing]
    decide
  · rw [unframed, splitOn_framed whole nothing]
    simp only [List.cons_append, List.drop_succ_cons, List.drop_zero, List.dropLast_concat,
      List.map_map]
    calc (dropEmptyEnds lines).map (dropAsterisk ∘ framedText) = (dropEmptyEnds lines).map id :=
          List.map_congr_left fun each _ => dropAsterisk_framedText each
      _ = dropEmptyEnds lines := List.map_id _

/-- Empty lines have no words. -/
theorem wordsOfAll_empty {lines : List Text} (empty : ∀ line ∈ lines, line.isEmpty) :
    Text.wordsOfAll lines = [] := by
  refine List.flatMap_eq_nil_iff.mpr fun line member => ?_
  rw [List.isEmpty_iff.mp (empty line member), Text.words_nil]

/-- Dropping empty lines at either end drops no word. -/
theorem wordsOfAll_dropEmptyEnds (lines : List Text) :
    Text.wordsOfAll (dropEmptyEnds lines) = Text.wordsOfAll lines := by
  have start : ∃ front, (∀ line ∈ front, line.isEmpty) ∧
      front ++ lines.dropWhile (·.isEmpty) = lines :=
    ⟨lines.takeWhile (·.isEmpty), List.all_eq_true.mp List.all_takeWhile,
      List.takeWhile_append_dropWhile⟩
  have finish : ∃ back, (∀ line ∈ back, line.isEmpty) ∧
      dropEmptyEnds lines ++ back = lines.dropWhile (·.isEmpty) := by
    refine ⟨((lines.dropWhile (·.isEmpty)).reverse.takeWhile (·.isEmpty)).reverse, ?_, ?_⟩
    · intro line member
      exact List.all_eq_true.mp List.all_takeWhile line (List.mem_reverse.mp member)
    · rw [dropEmptyEnds, ← List.reverse_append, List.takeWhile_append_dropWhile,
        List.reverse_reverse]
  obtain ⟨front, emptyFront, whole⟩ := start
  obtain ⟨back, emptyBack, middle⟩ := finish
  calc Text.wordsOfAll (dropEmptyEnds lines)
      = Text.wordsOfAll (dropEmptyEnds lines ++ back) := by
        rw [Text.wordsOfAll_append, wordsOfAll_empty emptyBack, List.append_nil]
    _ = Text.wordsOfAll (front ++ lines.dropWhile (·.isEmpty)) := by
        rw [middle, Text.wordsOfAll_append, wordsOfAll_empty emptyFront, List.nil_append]
    _ = Text.wordsOfAll lines := by rw [whole]

end DocComment.Layout
