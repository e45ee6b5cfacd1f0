import DocComment.Proofs.Text.Filling

/-!
# Filled texts

Filling puts line breaks in the place of some spaces and leaves all other characters as they
are; before it does so, it takes one carriage return from the end of every line. Each line of a
filled text is within the width or has no space at which it could be broken.

Such a line is filled already: no choice of breaks has fewer pieces than none at all. So a filled
text is not changed by filling it again, unless a line of it still ends in a carriage return.
-/
namespace DocComment.Text

/-- The text without one carriage return directly before each line feed and one at its very end.
It is defined on the characters, and not by the lines that filling takes. -/
def withoutReturns : Text → Text
  | [] => []
  | c :: rest =>
    if c = '\r' ∧ rest.head?.all (· == '\n') then withoutReturns rest
    else c :: withoutReturns rest

/-- A character is kept, or it is a space that becomes a line break. Read position by position,
two such texts have the same length. -/
def KeptOrBroken (before after : Char) : Prop := after = before ∨ before = ' ' ∧ after = '\n'

/-! Carriage returns -/

/-- A line ends in a carriage return as its last characters do. Only a line that is the return
alone loses it at its first character. -/
theorem dropReturn_cons (c : Char) (line : Text) :
    dropReturn (c :: line) = if c = '\r' ∧ line = [] then [] else c :: dropReturn line := by
  cases line with
  | nil => by_cases returned : c = '\r' <;> simp [dropReturn, returned]
  | cons d rest =>
    rw [if_neg (by simp)]
    simp only [dropReturn, List.getLast?_cons_cons, List.dropLast_cons_cons]
    split <;> rfl

/-- Taking carriage returns from a text adds nothing to it, and leaves what remains in its
order. -/
theorem withoutReturns_sublist (text : Text) : (withoutReturns text).Sublist text := by
  induction text with
  | nil => exact .slnil
  | cons c rest inductionHypothesis =>
    rw [withoutReturns]
    split
    · exact inductionHypothesis.cons c
    · exact inductionHypothesis.cons_cons c

/-- The first line is empty where the text ends or goes on with a line feed. The two definitions
of being without returns look at this from different sides. -/
theorem splitOn_eq_nil_cons_iff {text first : Text} {others : List Text}
    (cut : text.splitOn '\n' = first :: others) :
    text.head?.all (· == '\n') ↔ first = [] := by
  cases text with
  | nil => simp_all
  | cons c rest =>
    rw [List.splitOn_cons_eq_if_modifyHead] at cut
    split at cut
    · rename_i feed
      simp_all
    · rename_i other
      obtain ⟨begun, more, same⟩ := List.exists_cons_of_ne_nil (List.splitOn_ne_nil '\n' rest)
      rw [same] at cut
      obtain ⟨rfl, rfl⟩ := List.cons.inj cut
      simp_all

/-- A text without its carriage returns is made of its lines without theirs. So the description
by characters and the one by lines agree on every text. -/
theorem withoutReturns_eq (text : Text) :
    withoutReturns text = ['\n'].intercalate ((text.splitOn '\n').map dropReturn) := by
  induction text with
  | nil => rfl
  | cons c rest inductionHypothesis =>
    obtain ⟨first, others, cut⟩ := List.exists_cons_of_ne_nil (List.splitOn_ne_nil '\n' rest)
    have ended := splitOn_eq_nil_cons_iff cut
    rw [cut] at inductionHypothesis
    rw [withoutReturns, List.splitOn_cons_eq_if_modifyHead, cut, inductionHypothesis]
    by_cases feed : c = '\n'
    · subst feed
      simp [dropReturn, List.intercalate_cons_cons]
    · simp only [beq_iff_eq, if_neg feed, List.modifyHead_cons, List.map_cons, dropReturn_cons]
      by_cases returned : c = '\r' ∧ first = []
      · rw [if_pos ⟨returned.1, ended.mpr returned.2⟩, if_pos returned, returned.2]
        rfl
      · rw [if_neg fun both => returned ⟨both.1, ended.mp both.2⟩, if_neg returned,
          List.intercalate_cons_cons_left]

/-! Characters -/

/-- Pieces joined by line breaks are the pieces joined by spaces, up to these. The pieces may be
anything, spaces and line breaks among their characters. -/
theorem keptOrBroken_intercalate (pieces : List Text) :
    List.Forall₂ KeptOrBroken ([' '].intercalate pieces) (['\n'].intercalate pieces) := by
  have kept (text : Text) : List.Forall₂ KeptOrBroken text text :=
    List.forall₂_same.mpr fun _ _ => .inl rfl
  induction pieces with
  | nil => exact .nil
  | cons piece others inductionHypothesis =>
    cases others with
    | nil => simpa using kept piece
    | cons next more =>
      have broken : List.Forall₂ KeptOrBroken [' '] ['\n'] := .cons (.inr ⟨rfl, rfl⟩) .nil
      rw [List.intercalate_cons_cons, List.intercalate_cons_cons]
      exact List.rel_append (List.rel_append (kept piece) broken) inductionHypothesis

/-- Filling a line keeps or breaks at each of its characters, since the pieces of filling join to
the line again. -/
theorem keptOrBroken_filledLine (width : Nat) (line : Text) :
    List.Forall₂ KeptOrBroken line (filledLine width line) := by
  obtain ⟨pieces, ⟨broken, -⟩, same⟩ := filledLine_fewest width line
  have kept := keptOrBroken_intercalate pieces
  rwa [broken.joined, ← same] at kept

/-- Filling a text keeps or breaks at each of its characters, once its lines are without their
carriage returns. Line feeds of the text are kept like any other character. -/
theorem keptOrBroken_filled (text : Text) (width : Nat) :
    List.Forall₂ KeptOrBroken (withoutReturns text) (filled text width) := by
  rw [withoutReturns_eq, filled]
  induction text.splitOn '\n' with
  | nil => exact .nil
  | cons line others inductionHypothesis =>
    have first := keptOrBroken_filledLine width (dropReturn line)
    cases others with
    | nil => simpa using first
    | cons next more =>
      have feed : List.Forall₂ KeptOrBroken ['\n'] ['\n'] := .cons (.inl rfl) .nil
      simp only [List.map_cons, List.intercalate_cons_cons] at inductionHypothesis ⊢
      exact List.rel_append (List.rel_append first feed) inductionHypothesis

/-! Lines -/

/-- The pieces of texts that are joined at a character are those of each of them, in order. There
must be a text, for nothing joined is still one empty piece. -/
theorem splitOn_intercalate_eq_flatMap {c : Char} {texts : List Text} (something : texts ≠ []) :
    ([c].intercalate texts).splitOn c = texts.flatMap (·.splitOn c) := by
  induction texts with
  | nil => contradiction
  | cons text others inductionHypothesis =>
    cases others with
    | nil => simp
    | cons next more =>
      rw [List.intercalate_cons_cons, List.append_assoc, List.singleton_append,
        List.splitOn_append_cons_self, inductionHypothesis (List.cons_ne_nil next more)]
      rfl

/-- What is broken into pieces has every character of each piece. -/
theorem mem_intercalate {separator piece : Text} {pieces : List Text} {c : Char}
    (member : piece ∈ pieces) (inside : c ∈ piece) : c ∈ separator.intercalate pieces := by
  induction pieces with
  | nil => contradiction
  | cons first others inductionHypothesis =>
    cases others with
    | nil => simpa [List.mem_singleton.mp member] using inside
    | cons next more =>
      rw [List.intercalate_cons_cons, List.mem_append, List.mem_append]
      rcases List.mem_cons.mp member with rfl | later
      · exact .inl (.inl inside)
      · exact .inr (inductionHypothesis later)

/-- The lines of a filled line fit. The line itself has no line break, so that its pieces are
known to be the lines. -/
theorem fits_filledLine {width : Nat} {line : Text} (single : '\n' ∉ line) :
    ∀ piece ∈ (filledLine width line).splitOn '\n', Fits width piece := by
  obtain ⟨pieces, ⟨broken, -⟩, same⟩ := filledLine_fewest width line
  have unbroken : ∀ piece ∈ pieces, '\n' ∉ piece := fun piece member feed =>
    single (broken.joined ▸ mem_intercalate member feed)
  rw [same, List.splitOn_intercalate '\n' unbroken broken.something]
  exact broken.fit

/-- The lines of a filled text fit, those that the text had and those that filling made. -/
theorem fits_filled (text : Text) (width : Nat) :
    ∀ line ∈ (filled text width).splitOn '\n', Fits width line := by
  have something : (text.splitOn '\n').map (fun line => filledLine width (dropReturn line)) ≠ [] :=
    mt List.map_eq_nil_iff.mp (List.splitOn_ne_nil '\n' text)
  intro line member
  rw [filled, splitOn_intercalate_eq_flatMap something, List.flatMap_map] at member
  obtain ⟨whole, present, inside⟩ := List.mem_flatMap.mp member
  have single : '\n' ∉ dropReturn whole := by
    intro feed
    refine notMem_of_mem_splitOn present ?_
    rw [dropReturn] at feed
    split at feed
    · exact List.dropLast_subset whole feed
    · exact feed
  exact fits_filledLine single line inside

/-- Filling replaces some spaces of a text by line breaks and, apart from a carriage return at
the end of a line, changes nothing else, so that no character is added or lost; and every line of
the result is within the width or has no space. -/
theorem filled_breaks_spaces (text : Text) (width : Nat) :
    List.Forall₂ KeptOrBroken (withoutReturns text) (filled text width) ∧
      ∀ line ∈ (filled text width).splitOn '\n', line.length ≤ width ∨ ' ' ∉ line :=
  ⟨keptOrBroken_filled text width, fits_filled text width⟩

/-! Filling again -/

/-- A line that fits is not broken. This is a consequence of breaking into the fewest pieces: the
line itself is one piece, and no choice has fewer. -/
theorem filledLine_of_fits {width : Nat} {line : Text} (fits : Fits width line) :
    filledLine width line = line := by
  obtain ⟨pieces, ⟨broken, fewest⟩, same⟩ := filledLine_fewest width line
  have whole : BrokenInto width line [line] :=
    ⟨List.cons_ne_nil line [], List.intercalate_singleton, by simpa using fits⟩
  have atMostOne : pieces.length ≤ 1 := fewest [line] whole
  obtain ⟨piece, others, rfl⟩ := List.exists_cons_of_ne_nil broken.something
  obtain rfl : others = [] := List.eq_nil_of_length_eq_zero (by simpa using atMostOne)
  rw [same, List.intercalate_singleton, ← broken.joined, List.intercalate_singleton]

/-- Filling adds no carriage return, because it adds no character at all. -/
theorem notMem_filled {text : Text} (returnless : '\r' ∉ text) (width : Nat) :
    '\r' ∉ filled text width := by
  intro returned
  obtain ⟨place, inside, found⟩ := List.getElem_of_mem returned
  have alike := keptOrBroken_filled text width
  have bound : place < (withoutReturns text).length := alike.length_eq ▸ inside
  rcases alike.get bound inside with kept | ⟨-, feed⟩
  · have same : (withoutReturns text)[place] = '\r' := kept.symm.trans found
    exact returnless ((withoutReturns_sublist text).mem (same ▸ List.getElem_mem bound))
  · exact absurd (found.symm.trans feed) (by decide)

/-- A text without carriage returns that was filled is not changed by filling it again. The width
is the same both times, and may be any; with returns the statement would fail, as a second filling
drops one more of several at the end of a line. -/
theorem filled_filled {text : Text} (returnless : '\r' ∉ text) (width : Nat) :
    filled (filled text width) width = filled text width := by
  have joined : ['\n'].intercalate ((filled text width).splitOn '\n') = filled text width :=
    List.intercalate_splitOn '\n'
  have eachLine : ∀ line ∈ (filled text width).splitOn '\n',
      filledLine width (dropReturn line) = line := by
    intro line member
    have unreturned : '\r' ∉ line := fun inside =>
      notMem_filled returnless width (joined ▸ mem_intercalate member inside)
    have unchanged : dropReturn line = line :=
      if_neg fun last => unreturned (List.mem_of_getLast? last)
    rw [unchanged, filledLine_of_fits (fits_filled text width line member)]
  conv_lhs => rw [filled, List.map_congr_left eachLine, List.map_id']
  exact joined

/-- Words that are too long, empty words and line breaks of the text itself, at a width that one
line meets exactly. None of them keeps the second filling from changing nothing. -/
theorem filled_filled_overlong :
    let text := "one  two\n\n overlong a b c".toList
    '\r' ∉ text ∧ filled text 5 = "one \ntwo\n\n\noverlong\na b c".toList ∧
      filled (filled text 5) 5 = filled text 5 := by
  intro text
  have returnless : '\r' ∉ text := by decide
  exact ⟨returnless, by decide, filled_filled returnless 5⟩

end DocComment.Text
