import DocComment.Settings.Path
import Mathlib.Data.List.Infix

/-!
# Paths, and the directories above them

What a path says are the names in it and where it starts: at the root, at a dot, or with its
first name. Segments that stay in the directory at hand may stand anywhere behind that. Written
without them a path is reduced, and two paths with one reduced form differ in nothing but
slashes and dots.

The directories above a path are found on its text, and three laws tell what they are. Their
reduced forms are those of the path with fewer and fewer names, where a dot at the start counts
as a last step and the root does not. Each of them is a first part of the path's own text. And
where the path has no superfluous segments, neither have they, so that the reduced forms are
the directories themselves.
-/
namespace DocComment.Path

/-- The names in a path, double dots among them. The segments that stay are left out wherever
they stand. -/
def names (path : Path) : List Text := path.filter fun segment => !staysHere segment

/-- The segment at which a path starts if that is no name: an empty one for the root, or a dot.
The empty path starts at neither, although its only segment is empty. -/
def anchor : Path → Path
  | [] => []
  | [first] => if first = ['.'] then [first] else []
  | first :: _ :: _ => if staysHere first then [first] else []

/-- A path without the segments that change nothing: where it starts, and its names. -/
def reduced (path : Path) : Path := path.anchor ++ path.names

/-- A path that has no segment in vain: behind the first one there are only names, or it is the
path of the root. -/
def Clean (path : Path) : Prop :=
  path = root ∨ ∀ segment ∈ path.tail, staysHere segment = false

/-- All segments but the first are gone through, and the root is one path. -/
instance (path : Path) : Decidable path.Clean := inferInstanceAs (Decidable (_ ∨ _))

/-- The paths of a file in a directory and in those above it, in their reduced forms. The names
of the directory become fewer from the end on; where its path starts at a dot, the current
directory comes last, once more and without the dot. -/
def upwards (directory : Path) (file : Text) : List Path :=
  (directory.names.inits.reverse.map fun names => directory.anchor ++ names ++ [file]) ++
    if directory.anchor = [['.']] then [[file]] else []

/-! Names -/

/-- A segment that stays is no name, so the names are those behind it. -/
theorem names_cons_of_staysHere {segment : Text} (stays : staysHere segment = true)
    (rest : Path) : names (segment :: rest) = names rest := by
  simp [names, stays]

/-- Any other segment is one, and comes first among the names. -/
theorem names_cons_of_moves {segment : Text} (moves : staysHere segment = false)
    (rest : Path) : names (segment :: rest) = segment :: names rest := by
  simp [names, moves]

/-- A path read backwards has its names backwards. -/
theorem names_reverse (path : Path) : names path.reverse = path.names.reverse :=
  List.filter_reverse

/-- Segments that stay in the directory at hand hold no name, so leaving them out at the front
keeps the names. -/
theorem names_dropWhile (path : Path) : names (path.dropWhile staysHere) = path.names := by
  induction path with
  | nil => rfl
  | cons segment rest inductionHypothesis =>
    cases stays : staysHere segment with
    | true => rw [List.dropWhile_cons_of_pos stays, inductionHypothesis,
        names_cons_of_staysHere stays]
    | false => rw [List.dropWhile_cons_of_neg (by simp [stays])]

/-- What is left out at the end of a path holds no name either. -/
theorem names_dropEnd (path : Path) : names (dropEnd path) = path.names := by
  rw [dropEnd, names_reverse, names_dropWhile, names_reverse, List.reverse_reverse]

/-- Leaving out segments at the end leaves a first part of them. -/
theorem dropEnd_isPrefix (segments : List Text) : dropEnd segments <+: segments := by
  have left : dropEnd segments <+: segments.reverse.reverse :=
    List.reverse_prefix.mpr (List.dropWhile_suffix staysHere)
  rwa [List.reverse_reverse] at left

/-- Where every segment is a name, there is nothing to leave out. -/
theorem dropEnd_of_moves {segments : List Text}
    (moves : ∀ segment ∈ segments, staysHere segment = false) : dropEnd segments = segments := by
  have nothing : segments.reverse.dropWhile staysHere = segments.reverse := by
    cases reversed : segments.reverse with
    | nil => rfl
    | cons last front =>
      have member : last ∈ segments := List.mem_reverse.mp (reversed ▸ List.mem_cons_self)
      rw [List.dropWhile_cons_of_neg (by simp [moves last member])]
  rw [dropEnd, nothing, List.reverse_reverse]

/-! Where paths start -/

/-- A path starts at its first segment if that stays, except for the empty path. -/
theorem anchor_cons {first : Text} {rest : Path} (something : first :: rest ≠ empty) :
    anchor (first :: rest) = if staysHere first then [first] else [] := by
  cases rest with
  | cons second others => rfl
  | nil =>
    have marked : first ≠ [] := fun same => something (by rw [same, empty])
    simp [anchor, staysHere, marked]

/-- The path of a name in a directory ends with that name. What is in front of it has the names
of the directory's path, and the path starts where that one starts. -/
theorem exists_child_eq (directory : Path) {name : Text} (moves : staysHere name = false) :
    ∃ front, directory.child name = front ++ [name] ∧ front.names = directory.names ∧
      (directory.child name).anchor = directory.anchor := by
  have undotted : name ≠ ['.'] := by
    rintro rfl
    exact Bool.noConfusion moves
  by_cases slashed : directory.getLast? = some []
  · obtain ⟨front, rfl⟩ := List.getLast?_eq_some_iff.mp slashed
    have ends : child (front ++ [[]]) name = front ++ [name] := by
      rw [child, if_pos slashed, List.dropLast_concat]
    refine ⟨front, ends, ?_, ?_⟩
    · have stays : staysHere [] = true := rfl
      simp [names, stays]
    · rw [ends]
      rcases front with _ | ⟨first, _ | ⟨second, others⟩⟩
      · simp [anchor, undotted]
      · rfl
      · rfl
  · have ends : directory.child name = directory ++ [name] := by rw [child, if_neg slashed]
    refine ⟨directory, ends, rfl, ?_⟩
    rw [ends]
    rcases directory with _ | ⟨first, _ | ⟨second, others⟩⟩
    · simp [anchor, undotted]
    · have marked : first ≠ [] := fun same => slashed (by rw [same]; rfl)
      simp [anchor, staysHere, marked]
    · rfl

/-- The names of a path to a name in a directory: those of the directory and this one. -/
theorem names_child (directory : Path) {name : Text} (moves : staysHere name = false) :
    (directory.child name).names = directory.names ++ [name] := by
  obtain ⟨front, ends, same, -⟩ := exists_child_eq directory moves
  rw [ends, ← same]
  simp [names, moves]

/-- A name in a directory stands behind the directory's path in its reduced form, whether that
path ends in a slash or not. -/
theorem reduced_child (directory : Path) {name : Text} (moves : staysHere name = false) :
    (directory.child name).reduced = directory.reduced ++ [name] := by
  obtain ⟨-, -, -, start⟩ := exists_child_eq directory moves
  rw [reduced, start, names_child directory moves, reduced, List.append_assoc]

/-! The directories above a path -/

/-- The first of the last parts of a list is the whole of it. -/
theorem tails_eq_cons {α : Type} (elements : List α) :
    elements.tails = elements :: elements.tails.tail := by
  cases elements with
  | nil => rfl
  | cons _ rest => rw [List.tails_cons, List.tail_cons]

/-- The first parts of a list, the longest first: the whole of it, and those that lack more and
more at the end. Read backwards they are the last parts of the reversed list, which is how the
way up goes. -/
theorem reverse_inits_eq_cons {α : Type} (elements : List α) :
    elements.inits.reverse = elements :: elements.reverse.tails.tail.map List.reverse := by
  rw [List.inits_eq_tails, List.reverse_reverse, tails_eq_cons elements.reverse, List.map_cons,
    List.reverse_reverse, List.tail_cons]

/-- Below a segment there are the segments in front of it: one step of the way up. -/
theorem aboveReversed_cons (segment : Text) {above : List Text} (something : above ≠ []) :
    aboveReversed (segment :: above) =
      if staysHere segment then aboveReversed above
      else leading above.reverse :: aboveReversed above := by
  cases above with
  | nil => contradiction
  | cons before others => rw [aboveReversed]

/-- The path of the directory in front of a name starts where the segments start and has their
names. In particular the root keeps its slash. -/
theorem reduced_leading (first : Text) (rest : List Text) :
    (leading (first :: rest)).reduced =
      (if staysHere first then [first] else []) ++ names (first :: rest) := by
  by_cases rooted : first = [] ∧ dropEnd rest = []
  · obtain ⟨rfl, nothing⟩ := rooted
    have unnamed : names ([] :: rest) = [] := by
      rw [names_cons_of_staysHere rfl, ← names_dropEnd, nothing]
      rfl
    rw [leading, if_pos ⟨rfl, nothing⟩, unnamed]
    rfl
  · have something : first :: dropEnd rest ≠ empty := by
      intro same
      obtain ⟨rfl, nothing⟩ := List.cons_eq_cons.mp same
      exact rooted ⟨rfl, nothing⟩
    have same : names (first :: dropEnd rest) = names (first :: rest) := by
      cases stays : staysHere first with
      | true => rw [names_cons_of_staysHere stays, names_cons_of_staysHere stays, names_dropEnd]
      | false => rw [names_cons_of_moves stays, names_cons_of_moves stays, names_dropEnd]
    rw [leading, if_neg rooted, reduced, anchor_cons something, same]

/-- The directories above a path, from its segments read backwards: each lacks the last name of
the one before, and above a dot at the start is the empty path. The induction is on the
segments behind the first one, which decides how the way up ends. -/
theorem map_reduced_aboveReversed (first : Text) (segments : List Text) :
    (aboveReversed (segments ++ [first])).map reduced =
      ((names (segments ++ [first])).tails.tail.map fun left =>
        (if staysHere first then [first] else []) ++ left.reverse) ++
        if first = ['.'] then [[]] else [] := by
  induction segments with
  | nil =>
    rcases Decidable.eq_or_ne first [] with rfl | marked
    · rfl
    · by_cases dotted : first = ['.']
      · subst dotted
        rfl
      · simp [aboveReversed, marked, dotted, names, reduced, empty, anchor, staysHere]
  | cons segment above inductionHypothesis =>
    have something : above ++ [first] ≠ [] := by simp
    rw [List.cons_append, aboveReversed_cons segment something]
    cases stays : staysHere segment with
    | true => rw [if_pos rfl, inductionHypothesis, names_cons_of_staysHere stays]
    | false =>
      have nearest : (leading (above ++ [first]).reverse).reduced =
          (if staysHere first then [first] else []) ++ (names (above ++ [first])).reverse := by
        rw [List.reverse_append, List.reverse_singleton, List.singleton_append, reduced_leading,
          ← names_reverse, List.reverse_append, List.reverse_singleton, List.singleton_append]
      rw [if_neg Bool.false_ne_true, List.map_cons, nearest, inductionHypothesis,
        names_cons_of_moves stays, List.tails_cons, List.tail_cons,
        tails_eq_cons (names (above ++ [first])), List.map_cons, List.cons_append, List.tail_cons]

/-- The directories of a path, itself and those above it, in their reduced forms: the initial
parts of its names, the longest first, and behind these the empty path if it starts at a dot. -/
theorem map_reduced_ancestors (path : Path) :
    path.ancestors.map reduced =
      (path.names.inits.reverse.map fun names => path.anchor ++ names) ++
        if path.anchor = [['.']] then [[]] else [] := by
  rcases path with _ | ⟨first, rest⟩
  · rfl
  · by_cases nothing : first :: rest = empty
    · rw [nothing]
      rfl
    · have start := anchor_cons nothing
      have dotted : anchor (first :: rest) = [['.']] ↔ first = ['.'] := by
        rw [start]
        by_cases stays : staysHere first
        · simp [stays]
        · simp only [stays, Bool.false_eq_true, if_false, List.nil_eq, reduceCtorEq, false_iff]
          rintro rfl
          exact stays rfl
      have backwards : (first :: rest).reverse = rest.reverse ++ [first] := List.reverse_cons
      rw [ancestors, List.map_cons, backwards, map_reduced_aboveReversed, ← backwards,
        names_reverse, reverse_inits_eq_cons, List.map_cons, List.map_map, List.cons_append]
      simp only [dotted]
      rw [← start]
      rfl

/-- The paths of a file in a directory and in those above it, up to segments that change
nothing. The way up ends at the root or at the empty path, depending on where the directory's
path starts. -/
theorem map_reduced_child_ancestors (directory : Path) {file : Text}
    (moves : staysHere file = false) :
    (directory.ancestors.map (·.child file)).map reduced = directory.upwards file := by
  have each : (directory.ancestors.map (·.child file)).map reduced =
      (directory.ancestors.map reduced).map (· ++ [file]) := by
    rw [List.map_map, List.map_map]
    exact List.map_congr_left fun above _ => reduced_child above moves
  rw [each, map_reduced_ancestors, upwards, List.map_append, List.map_map]
  congr 1
  split <;> rfl

/-! Directories above a path, as they are written -/

/-- Between two parts of a path its text has a slash. Neither part may be without segments. -/
theorem text_append {front back : Path} (before : front ≠ []) (behind : back ≠ []) :
    text (front ++ back) = front.text ++ '/' :: back.text := by
  induction front with
  | nil => contradiction
  | cons first others inductionHypothesis =>
    rcases others with _ | ⟨second, more⟩
    · obtain ⟨next, rest, rfl⟩ := List.exists_cons_of_ne_nil behind
      simp [text, List.intercalate_cons_cons]
    · have further := inductionHypothesis (List.cons_ne_nil second more)
      rw [List.cons_append] at further
      rw [text, text] at further ⊢
      rw [List.cons_append, List.cons_append, List.intercalate_cons_cons, further,
        List.intercalate_cons_cons]
      simp

/-- The first segments of a path make up a first part of its text. -/
theorem text_isPrefix_of_isPrefix {front path : Path} (part : front <+: path) :
    front.text <+: path.text := by
  obtain ⟨back, rfl⟩ := part
  by_cases before : front = []
  · rw [before]
    exact List.nil_prefix
  by_cases behind : back = []
  · rw [behind, List.append_nil]
  · rw [text_append before behind]
    exact List.prefix_append _ _

/-- The directory in front of a name is a first part of the text. That holds for the root too,
since the slash in front of the name is its own. -/
theorem text_leading_isPrefix (segments : List Text) (name : Text) :
    (leading segments).text <+: text (segments ++ [name]) := by
  cases segments with
  | nil => exact List.nil_prefix
  | cons first rest =>
    by_cases rooted : first = [] ∧ dropEnd rest = []
    · have slash : text (first :: rest ++ [name]) = '/' :: text (rest ++ [name]) := by
        have something : rest ++ [name] ≠ [] := by simp
        have parted := text_append (List.cons_ne_nil first []) something
        simpa [rooted.1, text] using parted
      rw [leading, if_pos rooted, slash]
      exact List.prefix_cons_inj _ |>.mpr List.nil_prefix
    · rw [leading, if_neg rooted, List.cons_append]
      refine text_isPrefix_of_isPrefix ((List.prefix_cons_inj first).mpr ?_)
      exact (dropEnd_isPrefix rest).trans (List.prefix_append rest [name])

/-- Each of the directories above a path is a first part of its text. The induction is on the
segments, from the last one on. -/
theorem text_isPrefix_of_mem_aboveReversed (segments : List Text) :
    ∀ directory ∈ aboveReversed segments, directory.text <+: text segments.reverse := by
  induction segments with
  | nil => simp [aboveReversed]
  | cons segment above inductionHypothesis =>
    intro directory member
    have shorter : text above.reverse <+: text (segment :: above).reverse := by
      rw [List.reverse_cons]
      exact text_isPrefix_of_isPrefix (List.prefix_append _ _)
    by_cases something : above = []
    · subst something
      have alone : directory = empty := by
        rw [aboveReversed] at member
        split at member
        · cases member
        · exact List.mem_singleton.mp member
      rw [alone]
      exact List.nil_prefix
    · rw [aboveReversed_cons segment something] at member
      split at member
      · exact (inductionHypothesis directory member).trans shorter
      · rcases List.mem_cons.mp member with rfl | farther
        · rw [List.reverse_cons]
          exact text_leading_isPrefix above.reverse segment
        · exact (inductionHypothesis directory farther).trans shorter

/-- A path and those above it are first parts of its text, so no directory is asked that the path
does not tell. -/
theorem text_isPrefix_of_mem_ancestors {path directory : Path}
    (member : directory ∈ path.ancestors) : directory.text <+: path.text := by
  rcases List.mem_cons.mp member with rfl | above
  · exact List.prefix_rfl
  · simpa using text_isPrefix_of_mem_aboveReversed path.reverse directory above

/-- Above segments that are all names, the first one perhaps excepted, there are only paths
without superfluous segments. -/
theorem clean_of_mem_aboveReversed (first : Text) {segments : List Text}
    (moves : ∀ segment ∈ segments, staysHere segment = false) :
    ∀ directory ∈ aboveReversed (segments ++ [first]), directory.Clean := by
  intro directory member
  induction segments with
  | nil =>
    rw [List.nil_append, aboveReversed] at member
    split at member
    · cases member
    · rw [List.mem_singleton.mp member]
      exact .inr (by simp [empty])
  | cons segment above inductionHypothesis =>
    have further : ∀ segment ∈ above, staysHere segment = false :=
      fun other inside => moves other (List.mem_cons_of_mem segment inside)
    have named : ¬staysHere segment = true := by simp [moves segment List.mem_cons_self]
    rw [List.cons_append, aboveReversed_cons segment (by simp), if_neg named] at member
    rcases List.mem_cons.mp member with rfl | farther
    · have kept : dropEnd above.reverse = above.reverse :=
        dropEnd_of_moves fun other inside => further other (List.mem_reverse.mp inside)
      rw [List.reverse_append, List.reverse_singleton, List.singleton_append, leading, kept]
      split
      · exact .inl rfl
      · exact .inr fun other inside => further other (List.mem_reverse.mp inside)
    · exact inductionHypothesis further farther

/-- Above a path without superfluous segments are only such paths, the root among them. -/
theorem clean_of_mem_ancestors {path directory : Path} (clean : path.Clean)
    (member : directory ∈ path.ancestors) : directory.Clean := by
  rcases clean with rfl | moves
  · exact .inl (List.mem_singleton.mp member)
  rcases path with _ | ⟨first, rest⟩
  · rw [List.mem_singleton.mp member]
    exact .inr (by simp)
  rcases List.mem_cons.mp member with rfl | above
  · exact .inr moves
  · rw [List.reverse_cons] at above
    exact clean_of_mem_aboveReversed first (by simpa using moves) directory above

/-- A name in a directory without superfluous segments is reduced as it stands. -/
theorem reduced_child_of_clean {directory : Path} (clean : directory.Clean) {name : Text}
    (moves : staysHere name = false) :
    (directory.child name).reduced = directory.child name := by
  have marked : name ≠ [] := by
    rintro rfl
    exact Bool.noConfusion moves
  rw [reduced_child directory moves]
  rcases clean with rfl | named
  · rfl
  rcases directory with _ | ⟨first, rest⟩
  · rfl
  by_cases nothing : first :: rest = empty
  · rw [nothing]
    rfl
  have unslashed : (first :: rest).getLast? ≠ some [] := by
    intro slashed
    rcases List.eq_nil_or_concat rest with rfl | ⟨front, last, rfl⟩
    · exact nothing (by simpa [empty] using slashed)
    · have last_eq : last = [] := by simpa [List.getLast?_cons] using slashed
      have moved := named last (by simp)
      rw [last_eq] at moved
      exact Bool.noConfusion moved
  have kept : names rest = rest := List.filter_eq_self.mpr fun segment inside => by
    simp [named segment inside]
  rw [child, if_neg unslashed, reduced, anchor_cons nothing]
  cases stays : staysHere first with
  | true => rw [names_cons_of_staysHere stays, kept]; rfl
  | false => rw [names_cons_of_moves stays, kept]; rfl

end DocComment.Path
