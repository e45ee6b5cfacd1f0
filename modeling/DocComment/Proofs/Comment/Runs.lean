import DocComment.Proofs.Comment.Closing
import DocComment.Proofs.Comment.Shape
import DocComment.Proofs.Layout.Columns

/-!
# Runs and the empty lines between them

A comment shows its tags one line each, as long as none of them has a line feed. An empty line
stands between two neighbours exactly if their aliased names differ, and one between the opening
and the first tag if there is an opening. The tags are never compared all at once: they are cut
into runs of neighbours that are alike, and each run but the first that is written comes behind an
empty line. A cut into runs is the only one in which all tags of a run are alike and no tags of
neighbouring runs are.

The main statement is about the lines of the whole text. The frame takes empty lines off both
ends, but there are none: an opening is trimmed as a whole, and no tag leaves an empty line.
-/
namespace DocComment

open Text

namespace Text

/-- A text without a line feed is one line, unless it is empty and has none. -/
theorem lines_of_notMem {text : Text} (single : '\n' ∉ text) (something : text ≠ []) :
    lines text = [text] := by
  induction text with
  | nil => contradiction
  | cons c rest inductionHypothesis =>
    obtain ⟨other, single⟩ := not_or.mp (mt List.mem_cons.mpr single)
    rw [lines, if_neg (Ne.symm other)]
    cases rest with
    | nil => rfl
    | cons d more => rw [inductionHypothesis single (List.cons_ne_nil d more)]

/-- Only the empty text has no line; a line feed alone is an empty line. -/
theorem lines_eq_nil_iff {text : Text} : lines text = [] ↔ text = [] := by
  cases text with
  | nil => simp [lines]
  | cons c rest =>
    simp only [lines, reduceCtorEq, iff_false]
    split
    · exact List.cons_ne_nil _ _
    · split <;> exact List.cons_ne_nil _ _

/-- The first line of a text that starts visibly starts so too and is not empty. -/
theorem head?_lines {text line : Text} (starts : StartsVisible text)
    (first : (lines text).head? = some line) : StartsVisible line ∧ line ≠ [] := by
  cases text with
  | nil => contradiction
  | cons c rest =>
    have visible := startsVisible_cons.mp starts
    have notFeed : c ≠ '\n' := by
      rintro rfl
      exact absurd visible (by decide)
    rw [lines, if_neg notFeed] at first
    cases found : lines rest with
    | nil =>
      rw [found] at first
      obtain rfl := Option.some.inj first
      exact ⟨startsVisible_cons.mpr visible, List.cons_ne_nil _ _⟩
    | cons front others =>
      rw [found] at first
      obtain rfl := Option.some.inj first
      exact ⟨startsVisible_cons.mpr visible, List.cons_ne_nil _ _⟩

/-- The last line of a text that ends visibly ends so too and is not empty. -/
theorem getLast?_lines {text line : Text} (ends : EndsVisible text)
    (last : (lines text).getLast? = some line) : EndsVisible line ∧ line ≠ [] := by
  induction text generalizing line with
  | nil => contradiction
  | cons c rest inductionHypothesis =>
    have endsRest : EndsVisible rest := endsVisible_of_append [c] ends
    rw [lines] at last
    split at last
    · rename_i feed
      subst c
      cases found : lines rest with
      | nil =>
        -- a line feed at the end would be a blank there
        rw [lines_eq_nil_iff.mp found] at ends
        exact absurd (ends '\n' rfl) (by decide)
      | cons front others =>
        rw [found, List.getLast?_cons_cons] at last
        exact inductionHypothesis endsRest (found ▸ last)
    · cases found : lines rest with
      | nil =>
        rw [found] at last
        obtain rfl := Option.some.inj last
        rw [lines_eq_nil_iff.mp found] at ends
        exact ⟨ends, List.cons_ne_nil _ _⟩
      | cons front others =>
        rw [found] at last
        cases others with
        | nil =>
          obtain rfl := Option.some.inj last
          obtain ⟨endsFront, something⟩ := inductionHypothesis endsRest (by rw [found]; rfl)
          exact ⟨endsVisible_cons something endsFront, List.cons_ne_nil _ _⟩
        | cons next more =>
          rw [List.getLast?_cons_cons] at last
          exact inductionHypothesis endsRest (by rw [found, List.getLast?_cons_cons]; exact last)

/-- A trimmed text has no empty line at either end, though there may be some inside. -/
theorem ends_trimmedLines_trim (text : Text) :
    (trimmedLines (trim text)).head? ≠ some [] ∧ (trimmedLines (trim text)).getLast? ≠ some [] := by
  obtain ⟨starts, ends⟩ := trim_eq_self_iff.mp (trim_trim text)
  rw [trimmedLines, List.head?_map, List.getLast?_map]
  constructor
  · intro empty
    obtain ⟨line, first, trimmed⟩ := Option.map_eq_some_iff.mp empty
    obtain ⟨startsLine, something⟩ := head?_lines starts first
    obtain ⟨c, rest, rfl⟩ := List.exists_cons_of_ne_nil something
    have kept := trimEnd_append_cons (startsVisible_cons.mp startsLine) [] rest
    exact absurd (kept.symm.trans trimmed) (List.cons_ne_nil _ _)
  · intro empty
    obtain ⟨line, last, trimmed⟩ := Option.map_eq_some_iff.mp empty
    obtain ⟨endsLine, something⟩ := getLast?_lines ends last
    rw [trimEnd_eq_self_iff.mpr endsLine] at trimmed
    exact something trimmed

end Text

namespace Layout

/-- Nothing is dropped from lines that neither begin nor end with an empty one. -/
theorem dropEmptyEnds_of_ends {lines : List Text} (first : lines.head? ≠ some [])
    (last : lines.getLast? ≠ some []) : dropEmptyEnds lines = lines := by
  have kept {rows : List Text} (stays : rows.head? ≠ some []) :
      rows.dropWhile (·.isEmpty) = rows := by
    cases rows with
    | nil => rfl
    | cons row others =>
      refine List.dropWhile_cons_of_neg ?_
      intro empty
      exact stays (by rw [List.head?_cons, List.isEmpty_iff.mp empty])
  rw [dropEmptyEnds, kept first, kept (by rwa [List.head?_reverse]), List.reverse_reverse]

end Layout

namespace Comment

/-! Cutting tags into runs -/

/-- Tags cut into runs: neighbours stay together as long as their aliased names are the same. -/
structure CutInto (tags : List Tag) (groups : List (List Tag)) : Prop where
  whole : groups.flatten = tags
  filled : ∀ group ∈ groups, group ≠ []
  alike : ∀ group ∈ groups, ∀ one ∈ group, ∀ other ∈ group, one.aliasedName = other.aliasedName
  apart : groups.IsChain fun group next =>
    ∀ one ∈ group, ∀ other ∈ next, one.aliasedName ≠ other.aliasedName

/-- Tags of which any two neighbours are alike are all alike, since names are compared for
equality. -/
theorem alike_of_isChain {group : List Tag}
    (chain : group.IsChain fun one next => one.aliasedName = next.aliasedName) :
    ∀ one ∈ group, ∀ other ∈ group, one.aliasedName = other.aliasedName := by
  induction group with
  | nil => exact nofun
  | cons first rest inductionHypothesis =>
    obtain ⟨joined, later⟩ := List.isChain_cons.mp chain
    have sameLater := inductionHypothesis later
    have same : ∀ tag ∈ first :: rest, tag.aliasedName = first.aliasedName := by
      refine List.forall_mem_cons.mpr ⟨rfl, ?_⟩
      intro tag member
      obtain ⟨next, others, rfl⟩ := List.exists_cons_of_ne_nil (List.ne_nil_of_mem member)
      exact (sameLater tag member next List.mem_cons_self).trans (joined next rfl).symm
    intro one hasOne other hasOther
    exact (same one hasOne).trans (same other hasOther).symm

/-- The runs of some tags are the only cut into runs, so a property of the cut is one of the
runs. -/
theorem runs_eq_iff {tags : List Tag} {groups : List (List Tag)} :
    runs tags = groups ↔ CutInto tags groups := by
  rw [runs, List.splitBy_eq_iff]
  simp only [beq_iff_eq, beq_eq_false_iff_ne]
  constructor
  · rintro ⟨whole, filled, joined, parted⟩
    have something : ∀ group ∈ groups, group ≠ [] := by
      rintro group member rfl
      exact filled member
    have alike := fun group member => alike_of_isChain (joined group member)
    refine ⟨whole.symm, something, alike, parted.imp_of_mem_imp ?_⟩
    rintro group next hasGroup hasNext ⟨some, someNext, differ⟩ one hasOne other hasOther same
    apply differ
    rw [alike group hasGroup _ (List.getLast_mem some) one hasOne, same,
      alike next hasNext _ hasOther _ (List.head_mem someNext)]
  · rintro ⟨whole, filled, alike, apart⟩
    refine ⟨whole.symm, fun empty => filled [] empty rfl, ?_, apart.imp_of_mem_imp ?_⟩
    · intro group member
      refine List.Pairwise.isChain (List.pairwise_iff_forall_sublist.mpr ?_)
      intro one other both
      exact alike group member one (both.subset (by simp)) other (both.subset (by simp))
    · intro group next hasGroup hasNext differ
      exact ⟨filled group hasGroup, filled next hasNext,
        differ _ (List.getLast_mem _) _ (List.head_mem _)⟩

/-! Lines of runs -/

/-- Lines of tags below each other, with an empty line between two neighbours whose aliased names
differ. -/
def separated : List (Tag × Text) → List Text
  | [] => []
  | [(_, line)] => [line]
  | (tag, line) :: (next, other) :: rest =>
    line :: (if tag.aliasedName = next.aliasedName then [] else [[]]) ++
      separated ((next, other) :: rest)

/-- The first line is that of the first tag; no empty line is put in front of it. -/
theorem head?_separated (shown : List (Tag × Text)) :
    (separated shown).head? = (shown.map (·.2)).head? := by
  fun_cases separated shown <;> rfl

/-- There are lines if there are tags. -/
theorem separated_ne_nil {shown : List (Tag × Text)} (something : shown ≠ []) :
    separated shown ≠ [] := by
  intro empty
  have first := head?_separated shown
  rw [empty, List.head?_map, List.head?_nil, eq_comm, Option.map_eq_none_iff,
    List.head?_eq_none_iff] at first
  exact something first

/-- The last line is that of the last tag; no empty line is put behind it. -/
theorem getLast?_separated (shown : List (Tag × Text)) :
    (separated shown).getLast? = (shown.map (·.2)).getLast? := by
  fun_induction separated shown with
  | case1 => rfl
  | case2 => rfl
  | case3 tag line next other rest inductionHypothesis =>
    rw [List.getLast?_append_of_ne_nil _ (separated_ne_nil (List.cons_ne_nil _ _)),
      inductionHypothesis, List.map_cons, List.map_cons, List.map_cons, List.getLast?_cons_cons]

/-- Behind an opening without empty lines at its ends stand tags whose lines are not empty, so
that the whole has none at its ends either. -/
theorem ends_separated {opening : List Text} (shown : List (Tag × Text))
    (first : opening.head? ≠ some []) (last : opening.getLast? ≠ some [])
    (visible : ∀ pair ∈ shown, pair.2 ≠ []) :
    let content := opening ++ (if opening = [] ∨ shown = [] then [] else [[]]) ++ separated shown
    content.head? ≠ some [] ∧ content.getLast? ≠ some [] := by
  have notEmpty {line : Text} (member : line ∈ shown.map (·.2)) : line ≠ [] := by
    obtain ⟨pair, inside, rfl⟩ := List.mem_map.mp member
    exact visible pair inside
  have firstShown : (separated shown).head? ≠ some [] := by
    rw [head?_separated]
    exact fun empty => notEmpty (List.mem_of_head? empty) rfl
  have lastShown : (separated shown).getLast? ≠ some [] := by
    rw [getLast?_separated]
    exact fun empty => notEmpty (List.mem_of_getLast? empty) rfl
  intro content
  by_cases unopened : opening = []
  · have alone : content = separated shown := by simp [content, unopened]
    rw [alone]
    exact ⟨firstShown, lastShown⟩
  · by_cases untagged : shown = []
    · have alone : content = opening := by simp [content, untagged, separated]
      rw [alone]
      exact ⟨first, last⟩
    · have parts : content = opening ++ ([] :: separated shown) := by
        simp [content, unopened, untagged]
      constructor
      · rwa [parts, List.head?_append_of_ne_nil _ unopened]
      · rwa [parts, List.append_cons,
          List.getLast?_append_of_ne_nil _ (separated_ne_nil untagged)]

/-- The lines of a run stand together, and apart from those behind if the first tag there is not
like them. -/
theorem separated_append {run back : List (Tag × Text)} (something : run ≠ [])
    (alike : ∀ one ∈ run, ∀ other ∈ run, one.1.aliasedName = other.1.aliasedName)
    (apart : ∀ one ∈ run, ∀ other ∈ back.head?, one.1.aliasedName ≠ other.1.aliasedName) :
    separated (run ++ back) =
      run.map (·.2) ++ (if back = [] then [] else [[]]) ++ separated back := by
  induction run with
  | nil => contradiction
  | cons first rest inductionHypothesis =>
    obtain ⟨tag, line⟩ := first
    cases rest with
    | nil =>
      cases back with
      | nil => rfl
      | cons next others =>
        have differ := apart (tag, line) List.mem_cons_self next rfl
        simp [separated, differ]
    | cons next others =>
      have same := alike (tag, line) (by simp) next (by simp)
      have later := inductionHypothesis (List.cons_ne_nil _ _)
        (fun one hasOne other hasOther => alike one (List.mem_cons_of_mem _ hasOne) other
          (List.mem_cons_of_mem _ hasOther))
        (fun one hasOne => apart one (List.mem_cons_of_mem _ hasOne))
      rw [List.cons_append] at later
      simp only [List.cons_append, separated, if_pos same, List.nil_append, later, List.map_cons]

/-- The lines of a run that is not like the tag behind it, and what stands behind them. Here tags
and lines are given in two lists of one length. -/
theorem separated_run {run : List Tag} {lines : List Text} {back : List (Tag × Text)}
    (something : run ≠ []) (each : lines.length = run.length)
    (alike : ∀ one ∈ run, ∀ other ∈ run, one.aliasedName = other.aliasedName)
    (apart : ∀ one ∈ run, ∀ other ∈ back.head?, one.aliasedName ≠ other.1.aliasedName) :
    separated (run.zip lines ++ back) =
      lines ++ (if back = [] then [] else [[]]) ++ separated back := by
  have shown : run.zip lines ≠ [] := by
    rw [← List.length_pos_iff, List.length_zip, each, Nat.min_self]
    exact List.length_pos_iff.mpr something
  have own : (run.zip lines).map (·.2) = lines := List.map_snd_zip (Nat.le_of_eq each)
  rw [separated_append shown, own]
  · exact fun one hasOne other hasOther =>
      alike _ (List.of_mem_zip hasOne).1 _ (List.of_mem_zip hasOther).1
  · exact fun one hasOne => apart _ (List.of_mem_zip hasOne).1

/-- The lines of some runs begin with the line of a tag of the first one, since no run is
empty. -/
theorem exists_zip_flatten {run : List Tag} {linesOf : List Tag → List Text} (something : run ≠ [])
    (each : (linesOf run).length = run.length) (others : List (List Tag)) :
    ∃ tag ∈ run, ∃ line rest,
      (run :: others).flatten.zip ((run :: others).flatMap linesOf) = (tag, line) :: rest := by
  obtain ⟨tag, more, rfl⟩ := List.exists_cons_of_ne_nil something
  obtain ⟨line, lines, written⟩ := List.exists_cons_of_length_eq_add_one each
  refine ⟨tag, List.mem_cons_self, line,
    (more ++ others.flatten).zip (lines ++ others.flatMap linesOf), ?_⟩
  rw [List.flatMap_cons, written]
  rfl

/-- Runs that are separated from each other have their lines with an empty line between. The
induction is on the runs. -/
theorem separated_zip_flatten {groups : List (List Tag)} (cut : CutInto groups.flatten groups)
    (linesOf : List Tag → List Text)
    (each : ∀ group ∈ groups, (linesOf group).length = group.length) :
    separated (groups.flatten.zip (groups.flatMap linesOf)) =
      [[]].intercalate (groups.map linesOf) := by
  induction groups with
  | nil => rfl
  | cons run others inductionHypothesis =>
    obtain ⟨-, filled, alike, apart⟩ := cut
    obtain ⟨something, filledOthers⟩ := List.forall_mem_cons.mp filled
    obtain ⟨alikeRun, alikeOthers⟩ := List.forall_mem_cons.mp alike
    obtain ⟨eachRun, eachOther⟩ := List.forall_mem_cons.mp each
    have later := inductionHypothesis ⟨rfl, filledOthers, alikeOthers, apart.tail⟩ eachOther
    rw [List.flatten_cons, List.flatMap_cons, List.zip_append eachRun.symm]
    cases others with
    | nil =>
      rw [separated_run something eachRun alikeRun (by simp)]
      simp [separated]
    | cons next more =>
      obtain ⟨tag, member, line, rest, first⟩ := exists_zip_flatten
        (filledOthers next List.mem_cons_self) (eachOther next List.mem_cons_self) more
      have differ := (List.isChain_cons_cons.mp apart).1
      rw [separated_run something eachRun alikeRun, later, if_neg (first ▸ List.cons_ne_nil _ _)]
      · simp only [List.map_cons, List.intercalate_cons_cons]
      · intro one hasOne other head
        rw [first] at head
        obtain rfl := Option.some.inj head
        exact differ one hasOne tag member

/-- A text shows a tag in one line: it has the words of its written form and no line feed. -/
structure ShowsInLine (tag : Tag) (text : Text) : Prop where
  words : words text = words tag.written
  single : '\n' ∉ text

/-- Such a text is broken into one line, which is not empty, as a tag has its keyword to show. -/
theorem ShowsInLine.trimmedLines {tag : Tag} {text : Text} (shows : ShowsInLine tag text) :
    Text.trimmedLines text = [trimEnd text] ∧ trimEnd text ≠ [] := by
  have visible : trimEnd text ≠ [] := by
    intro empty
    have wordless := words_trimEnd text
    rw [empty, words_nil, shows.words] at wordless
    exact words_written_ne_nil tag wordless.symm
  have something : text ≠ [] := by
    rintro rfl
    exact visible rfl
  exact ⟨by rw [Text.trimmedLines, lines_of_notMem shows.single something]; rfl, visible⟩

/-- A character of a tag in columns is a space or stands in the tag, so columns bring in no line
feed. -/
theorem mem_written_of_mem_row {widths : Layout.Widths} {tag : Tag} {c : Char}
    (member : c ∈ (Layout.Row.ofTag tag).written widths) : c = ' ' ∨ c ∈ tag.written := by
  have filled {width : Nat} {cell : Text} (inside : c ∈ Layout.padded width cell) :
      c ∈ cell ∨ c = ' ' := by
    rcases List.mem_append.mp inside with own | space
    · exact .inl own
    · exact .inr (List.eq_of_mem_replicate space)
  have behind {width : Nat} {cell : Text} (inside : c ∈ Layout.cellBehind width cell) :
      c ∈ behindSpace cell ∨ c = ' ' := by
    rw [Layout.cellBehind] at inside
    split at inside
    · contradiction
    · rcases List.mem_cons.mp inside with space | within
      · exact .inr space
      · refine (filled within).imp_left fun own => ?_
        rw [behindSpace_of_ne_nil (List.ne_nil_of_mem own)]
        exact List.mem_cons_of_mem _ own
  rw [Layout.Row.written_eq] at member
  rw [Layout.written_eq_cells]
  have inside := (trimEnd_isPrefix _).subset member
  cases declared : (Layout.Row.ofTag tag).declaration with
  | none =>
    simp only [declared, Option.elim_none, List.append_nil, List.mem_append] at inside ⊢
    rcases inside with keyword | rest
    · exact (filled keyword).symm.imp_right .inl
    · exact .inr (.inr rest)
  | some cells =>
    simp only [declared, Option.elim_some, List.mem_append] at inside ⊢
    rcases inside with (keyword | type | token) | rest
    · exact (filled keyword).symm.imp_right fun own => .inl (.inl own)
    · exact (behind type).symm.imp_right fun own => .inl (.inr (.inl own))
    · exact (behind token).symm.imp_right fun own => .inl (.inr (.inr own))
    · exact .inr (.inr rest)

/-- The texts of a run show its tags in one line each, in order, with columns and without. -/
theorem showsInLine_runTexts (style : Style) {run : List Tag}
    (single : ∀ tag ∈ run, '\n' ∉ tag.written) :
    List.Forall₂ ShowsInLine run (runTexts style run) := by
  rw [runTexts]
  split
  · apply List.forall₂_map_right_iff.mpr
    apply List.forall₂_map_right_iff.mpr
    refine List.forall₂_same.mpr fun tag member => ⟨?_, ?_⟩
    · rw [Layout.words_written (Layout.fit_ofRows (List.mem_map_of_mem member)),
        Layout.words_ofTag]
    · intro feed
      rcases mem_written_of_mem_row feed with space | inside
      · exact absurd space (by decide)
      · exact single tag member inside
  · refine List.forall₂_map_right_iff.mpr (List.forall₂_same.mpr fun tag member => ?_)
    exact ⟨rfl, single tag member⟩

/-- The texts of all runs show all tags, one behind the other. -/
theorem showsInLine_flatMap (style : Style) {groups : List (List Tag)}
    (single : ∀ tag ∈ groups.flatten, '\n' ∉ tag.written) :
    List.Forall₂ ShowsInLine groups.flatten (groups.flatMap (runTexts style)) := by
  induction groups with
  | nil => exact .nil
  | cons run others inductionHypothesis =>
    rw [List.flatten_cons] at single ⊢
    rw [List.flatMap_cons]
    exact List.rel_append
      (showsInLine_runTexts style fun tag member => single tag (List.mem_append_left _ member))
      (inductionHypothesis fun tag member => single tag (List.mem_append_right _ member))

/-- Texts that show tags in one line each are broken into as many lines. -/
theorem flatMap_trimmedLines {tags : List Tag} {texts : List Text}
    (shown : List.Forall₂ ShowsInLine tags texts) :
    texts.flatMap Text.trimmedLines = texts.map trimEnd := by
  induction shown with
  | nil => rfl
  | cons first _ inductionHypothesis =>
    rw [List.flatMap_cons, first.trimmedLines.1, inductionHypothesis]
    rfl

/-- The texts of a run as they stand in a comment, without blanks at their ends. -/
def runLines (style : Style) (run : List Tag) : List Text := (runTexts style run).map trimEnd

/-- Runs that are written one after the other have an empty line in front of each but the first,
and in front of that as well if any line precedes. -/
theorem foldl_appendRun (style : Style) {groups : List (List Tag)}
    (filled : ∀ group ∈ groups, group ≠ [])
    (single : ∀ tag ∈ groups.flatten, '\n' ∉ tag.written) (lines : List Text) :
    groups.foldl (appendRun style) lines =
      lines ++ (if lines = [] ∨ groups = [] then [] else [[]]) ++
        [[]].intercalate (groups.map (runLines style)) := by
  induction groups generalizing lines with
  | nil => simp
  | cons run others inductionHypothesis =>
    obtain ⟨something, filledOthers⟩ := List.forall_mem_cons.mp filled
    rw [List.flatten_cons] at single
    have shown := showsInLine_runTexts style fun tag member =>
      single tag (List.mem_append_left others.flatten member)
    have appended : appendRun style lines run =
        lines ++ (if lines = [] then [] else [[]]) ++ runLines style run := by
      rw [appendRun, flatMap_trimmedLines shown, runLines]
      by_cases none : lines = [] <;> simp [none]
    have preceded : appendRun style lines run ≠ [] := by
      rw [appended, runLines]
      refine List.append_ne_nil_of_right_ne_nil _ ?_
      rw [← List.length_pos_iff, List.length_map, ← shown.length_eq]
      exact List.length_pos_iff.mpr something
    rw [List.foldl_cons, inductionHypothesis filledOthers fun tag member =>
      single tag (List.mem_append_right run member)]
    simp only [preceded, false_or]
    rw [appended]
    cases others with
    | nil => simp
    | cons next more => simp [List.intercalate_cons_cons]

/-- Each of the lines of a comment's tags, in the order in which they stand, without the empty
lines between them. -/
def tagLines (style : Style) (tags : List Tag) : List Text := (runs tags).flatMap (runLines style)

/-- The lines of tags without line feeds, one for each, with the words of its written form. -/
theorem showsInLine_tagLines (style : Style) {tags : List Tag}
    (single : ∀ tag ∈ tags, '\n' ∉ tag.written) :
    List.Forall₂ (fun tag line => words line = words tag.written ∧ line ≠ []) tags
      (tagLines style tags) := by
  have whole := (runs_eq_iff.mp (rfl : runs tags = runs tags)).whole
  have shown : List.Forall₂ ShowsInLine (runs tags).flatten
      ((runs tags).flatMap (runTexts style)) := showsInLine_flatMap style (by rwa [whole])
  rw [whole] at shown
  have trimmed : tagLines style tags = ((runs tags).flatMap (runTexts style)).map trimEnd := by
    rw [tagLines, List.map_flatMap]
    rfl
  rw [trimmed]
  refine List.forall₂_map_right_iff.mpr (shown.imp ?_)
  intro tag text shows
  exact ⟨by rw [words_trimEnd, shows.words], shows.trimmedLines.2⟩

/-- The lines of a comment: those of its opening and one for each tag, with the empty lines
between them. -/
theorem contentLines_eq (comment : Comment) (style : Style)
    (single : ∀ tag ∈ comment.shownTags style, '\n' ∉ tag.written) :
    let tags := comment.shownTags style
    let opening := openingLines (comment.summary.getD []) comment.description style.width
    comment.contentLines style =
      opening ++ (if opening = [] ∨ tags = [] then [] else [[]]) ++
        separated (tags.zip (tagLines style tags)) := by
  intro tags opening
  have cut := runs_eq_iff.mp (rfl : runs tags = runs tags)
  have whole := cut.whole
  have runless : runs tags = [] ↔ tags = [] := List.splitBy_eq_nil
  have each : ∀ group ∈ runs tags, (runLines style group).length = group.length := by
    intro group member
    have within : ∀ tag ∈ group, tag ∈ tags := fun tag inside =>
      whole ▸ List.mem_flatten.mpr ⟨group, member, inside⟩
    have shown := showsInLine_runTexts style fun tag inside => single tag (within tag inside)
    rw [runLines, List.length_map, shown.length_eq]
  rw [contentLines, foldl_appendRun style cut.filled (by rwa [whole]),
    ← separated_zip_flatten (by rwa [whole]) (runLines style) each, whole]
  simp only [runless]
  rfl

/-- Two properties, a mixin and a third property, behind a summary. The mixin keeps the
properties from being one run. -/
def interrupted : Comment :=
  .ofParts (some "Summary.".toList) [] [
    .unlabelled (.property .readWrite ⟨.ofText "int".toList, "a".toList, []⟩),
    .unlabelled (.property .readOnly ⟨.ofText "string".toList, "b".toList, []⟩),
    .unlabelled (.mixin (.ofText "Base".toList)),
    .unlabelled (.property .writeOnly ⟨.ofText "int".toList, "c".toList, []⟩)]

end Comment

end DocComment
