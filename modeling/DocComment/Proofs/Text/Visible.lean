import DocComment.Text.Blank
import Mathlib.Data.List.TakeDrop

/-!
# Visible texts

A text is visible when no character of it is blank, as a word is. A text that starts with
a blank, or is empty, ends a word in front of it. A text is left alone by trimming exactly
when neither its first nor its last character is blank.
-/
namespace DocComment.Text

/-- No character is blank. The empty text is visible too; where a word is meant, that it is not
empty is said separately. -/
def Visible (text : Text) : Prop := ∀ c ∈ text, isBlank c = false

/-- The first character is blank, if there is one. This is how a text may go on behind a word: at
a blank or not at all. -/
def StartsBlank (text : Text) : Prop := ∀ c ∈ text.head?, isBlank c

/-- The first character is not blank, if there is one. Trimming the start leaves such a text
alone. -/
def StartsVisible (text : Text) : Prop := ∀ c ∈ text.head?, isBlank c = false

/-- The last character is not blank, if there is one. Trimming the end leaves such a text
alone. -/
def EndsVisible (text : Text) : Prop := ∀ c ∈ text.getLast?, isBlank c = false

/-- A text that ends starts no word: nothing counts as starting with a blank. -/
theorem startsBlank_nil : StartsBlank [] := by simp [StartsBlank]

/-- A space starts with a blank, whatever follows it. -/
theorem startsBlank_space (text : Text) : StartsBlank (' ' :: text) := by
  intro c first
  obtain rfl : ' ' = c := Option.some.inj first
  decide

/-- If two texts start with a blank or not at all, so do both behind each other. The second one
matters where the first is empty. -/
theorem startsBlank_append {before behind : Text} (starts : StartsBlank before)
    (continues : StartsBlank behind) : StartsBlank (before ++ behind) := by
  cases before with
  | nil => exact continues
  | cons c rest => exact starts

/-- A first part of a text starts as the text does, or is empty. -/
theorem startsBlank_of_append {before behind : Text} (starts : StartsBlank (before ++ behind)) :
    StartsBlank before := by
  cases before with
  | nil => exact startsBlank_nil
  | cons c rest => exact starts

/-- Whether a text starts visibly is settled by its first character. -/
theorem startsVisible_cons {c : Char} {rest : Text} :
    StartsVisible (c :: rest) ↔ isBlank c = false := by simp [StartsVisible]

/-- A first part of a text starts as the text does, or is empty. Either way it starts visibly. -/
theorem startsVisible_of_append {before behind : Text}
    (starts : StartsVisible (before ++ behind)) : StartsVisible before := by
  cases before with
  | nil => simp [StartsVisible]
  | cons c rest => exact starts

/-- A text starts as its first part does, if that part is not empty. -/
theorem startsVisible_append {before behind : Text} (something : before ≠ [])
    (starts : StartsVisible before) : StartsVisible (before ++ behind) := by
  cases before with
  | nil => contradiction
  | cons c rest => exact starts

/-- A text ends where its last part ends. -/
theorem endsVisible_append (before : Text) {behind : Text} (something : behind ≠ [])
    (ends : EndsVisible behind) : EndsVisible (before ++ behind) := by
  have last := List.getLast?_eq_some_getLast something
  intro d final
  rw [List.getLast?_append, last] at final
  obtain rfl : behind.getLast something = d := by simpa using final
  exact ends _ last

/-- A character in front of a text that is not empty does not change how it ends. -/
theorem endsVisible_cons {c : Char} {rest : Text} (something : rest ≠ [])
    (ends : EndsVisible rest) : EndsVisible (c :: rest) :=
  endsVisible_append [c] something ends

/-- A last part of a text ends as the text does, or is empty. Either way it ends visibly. -/
theorem endsVisible_of_append (before : Text) {behind : Text}
    (ends : EndsVisible (before ++ behind)) : EndsVisible behind := by
  intro c last
  exact ends c (by rw [List.getLast?_append, Option.mem_def.mp last]; rfl)

/-- A visible text starts visibly, for no character of it is blank. -/
theorem Visible.startsVisible {text : Text} (visible : Visible text) : StartsVisible text :=
  fun c first => visible c (List.mem_of_mem_head? first)

/-- A visible text ends visibly, for no character of it is blank. -/
theorem Visible.endsVisible {text : Text} (visible : Visible text) : EndsVisible text :=
  fun c last => visible c (List.mem_of_getLast? last)

/-- A character that is not blank keeps the word behind it visible. It serves the signs in front
of a name. -/
theorem Visible.cons {c : Char} {word : Text} (visible : Visible word)
    (notBlank : isBlank c = false) : Visible (c :: word) := by
  intro d member
  rcases List.mem_cons.mp member with rfl | inside
  · exact notBlank
  · exact visible d inside

/-- Trimming the start leaves exactly those texts alone that do not start with a blank. The empty
text is one of them. -/
theorem trimStart_eq_self_iff {text : Text} : trimStart text = text ↔ StartsVisible text := by
  cases text with
  | nil => simp [trimStart, StartsVisible]
  | cons c rest =>
    rw [startsVisible_cons, trimStart, List.dropWhile_cons]
    cases blank : isBlank c with
    | false => simp
    | true =>
      have shorter := (List.dropWhile_suffix isBlank (l := rest)).length_le
      simp only [if_true, Bool.true_eq_false, iff_false]
      intro same
      have lengths := congrArg List.length same
      simp only [List.length_cons] at lengths
      omega

/-- Trimming the end leaves exactly those texts alone that do not end with a blank. -/
theorem trimEnd_eq_self_iff {text : Text} : trimEnd text = text ↔ EndsVisible text := by
  change (trimStart text.reverse).reverse = text ↔ _
  rw [List.reverse_eq_iff, trimStart_eq_self_iff, StartsVisible, EndsVisible, List.head?_reverse]

/-- Trimming leaves exactly those texts alone that neither start nor end with a blank. So being
trimmed, which is an equation, can be used as a fact about two characters. -/
theorem trim_eq_self_iff {text : Text} :
    trim text = text ↔ StartsVisible text ∧ EndsVisible text := by
  constructor
  · intro same
    have start : trimStart text = text := by
      have suffix : trimStart text <:+ text := List.dropWhile_suffix isBlank
      have shorter := (trimEnd_isPrefix (trimStart text)).length_le
      have kept : (trimEnd (trimStart text)).length = text.length := congrArg List.length same
      exact suffix.eq_of_length (Nat.le_antisymm suffix.length_le (kept ▸ shorter))
    have finish : trimEnd text = text := by
      have ended : trimEnd (trimStart text) = text := same
      rwa [start] at ended
    exact ⟨trimStart_eq_self_iff.mp start, trimEnd_eq_self_iff.mp finish⟩
  · rintro ⟨starts, ends⟩
    rw [trim, trimStart_eq_self_iff.mpr starts, trimEnd_eq_self_iff.mpr ends]

/-- A last part of a trimmed text ends as the text does, or is empty. How the part starts is left
open. -/
theorem endsVisible_of_isSuffix {behind text : Text} (last : behind <:+ text)
    (trimmed : trim text = text) : EndsVisible behind := by
  obtain ⟨before, rfl⟩ := last
  exact endsVisible_of_append before (trim_eq_self_iff.mp trimmed).2

/-- A visible text is left alone by trimming, and in particular every word is. -/
theorem Visible.trim_eq {text : Text} (visible : Visible text) : trim text = text :=
  trim_eq_self_iff.mpr ⟨visible.startsVisible, visible.endsVisible⟩

/-- A text that was trimmed ends visibly, even if nothing is left of it. -/
theorem endsVisible_trim (text : Text) : EndsVisible (trim text) :=
  (trim_eq_self_iff.mp (trim_trim text)).2

/-- Where a text ends visibly, there is nothing to trim but its start. -/
theorem trimStart_eq_trim {text : Text} (ends : EndsVisible text) : trimStart text = trim text := by
  obtain ⟨blanks, whole⟩ := List.dropWhile_suffix isBlank (l := text)
  have endsTrimmed : EndsVisible (trimStart text) := by
    refine endsVisible_of_append blanks ?_
    rwa [trimStart, whole]
  rw [trim, trimEnd_eq_self_iff.mpr endsTrimmed]

/-- Nothing is trimmed to nothing. -/
theorem trim_nil : trim [] = [] := rfl

/-- A visible character keeps what stands behind it when the start is trimmed. What stands in
front of it is trimmed as if it were alone. -/
theorem trimStart_append_cons {c : Char} (visible : isBlank c = false) (before behind : Text) :
    trimStart (before ++ c :: behind) = trimStart before ++ c :: behind := by
  induction before with
  | nil => simp [trimStart, visible]
  | cons d rest inductionHypothesis =>
    simp only [trimStart, List.cons_append, List.dropWhile_cons] at inductionHypothesis ⊢
    split
    · exact inductionHypothesis
    · rfl

/-- A visible character keeps what stands in front of it when the end is trimmed. What stands
behind it is trimmed as if it were alone. -/
theorem trimEnd_append_cons {c : Char} (visible : isBlank c = false) (before behind : Text) :
    trimEnd (before ++ c :: behind) = before ++ c :: trimEnd behind := by
  have turned : (before ++ c :: behind).reverse = behind.reverse ++ c :: before.reverse := by simp
  change (trimStart (before ++ c :: behind).reverse).reverse =
    before ++ c :: (trimStart behind.reverse).reverse
  rw [turned, trimStart_append_cons visible]
  simp

/-- A text that ends visibly is kept when the end behind it is trimmed. It must not be empty, for
then there would be no character to stop at. -/
theorem trimEnd_append {before : Text} (something : before ≠ []) (ends : EndsVisible before)
    (behind : Text) : trimEnd (before ++ behind) = before ++ trimEnd behind := by
  have last := List.getLast?_eq_some_getLast something
  obtain ⟨front, split⟩ := List.getLast?_eq_some_iff.mp last
  have kept := trimEnd_append_cons (ends _ last) front behind
  rw [split]
  simpa using kept

/-- The end of two texts is that of the second; where the second is blank throughout, it is that
of the first. Nothing is assumed of either. -/
theorem trimEnd_append_cases (before behind : Text) :
    trimEnd (before ++ behind) = before ++ trimEnd behind ∨
      trimEnd behind = [] ∧ trimEnd (before ++ behind) = trimEnd before := by
  simp only [trimEnd, List.reverse_append, List.dropWhile_append]
  split
  · rename_i empty
    exact .inr ⟨by simpa using empty, rfl⟩
  · exact .inl (by simp)

/-- A blank at the end of a text is trimmed away, and so changes nothing for what is left. -/
theorem trimEnd_concat {c : Char} (blank : isBlank c) (before : Text) :
    trimEnd (before ++ [c]) = trimEnd before := by
  simp [trimEnd, blank]

/-- A blank in front of a text is trimmed away whatever is trimmed first. -/
theorem trimStart_trimEnd_cons {c : Char} (blank : isBlank c) (rest : Text) :
    trimStart (trimEnd (c :: rest)) = trimStart (trimEnd rest) := by
  have spaceless (text : Text) : trimStart (c :: text) = trimStart text := by
    simp [trimStart, blank]
  have ended : trimEnd (c :: rest) = c :: trimEnd rest ∨
      trimEnd (c :: rest) = [] ∧ trimEnd rest = [] := by
    rcases trimEnd_append_cases [c] rest with kept | ⟨none, alone⟩
    · exact .inl kept
    · exact .inr ⟨by simpa [trimEnd, blank] using alone, none⟩
  rcases ended with kept | ⟨none, also⟩
  · rw [kept, spaceless]
  · rw [none, also]

/-- It makes no difference which end is trimmed first, for texts of blanks either: then nothing
is left both ways. -/
theorem trimStart_trimEnd_comm (text : Text) :
    trimStart (trimEnd text) = trimEnd (trimStart text) := by
  induction text with
  | nil => rfl
  | cons c rest inductionHypothesis =>
    cases blank : isBlank c with
    | true =>
      rw [trimStart_trimEnd_cons blank, inductionHypothesis]
      simp [trimStart, blank]
    | false =>
      have kept := trimEnd_append_cons blank [] rest
      have starts (behind : Text) : trimStart (c :: behind) = c :: behind :=
        trimStart_eq_self_iff.mpr (startsVisible_cons.mpr blank)
      rw [List.nil_append, List.nil_append] at kept
      rw [starts, kept, starts]

/-- Trimming both ends trims the end, so it need not be trimmed before. -/
theorem trim_trimEnd (text : Text) : trim (trimEnd text) = trim text := by
  rw [trim, trimStart_trimEnd_comm, trimEnd_trimEnd, trim]

/-- The characters with a property end where one without it follows, or at the end of the text.
So a cut by a property is known from the two parts alone. -/
theorem span_append {property : Char → Bool} {before behind : Text}
    (inside : ∀ c ∈ before, property c) (stops : ∀ c ∈ behind.head?, property c = false) :
    (before ++ behind).span property = (before, behind) := by
  have stopped : behind.takeWhile property = [] ∧ behind.dropWhile property = behind := by
    cases behind with
    | nil => exact ⟨rfl, rfl⟩
    | cons c rest =>
      have outside : property c = false := stops c rfl
      simp [outside]
  rw [List.span_eq_takeWhile_dropWhile, List.takeWhile_append_of_pos inside,
    List.dropWhile_append_of_pos inside, stopped.1, stopped.2, List.append_nil]

/-- A text is cut in one way only into characters with a property and a rest that starts with
none of them. Two such cuts of one text, however they were found, are the same. -/
theorem span_unique {property : Char → Bool} {one rest other behind : Text}
    (inside : ∀ c ∈ one, property c) (stops : ∀ c ∈ rest.head?, property c = false)
    (alsoInside : ∀ c ∈ other, property c) (alsoStops : ∀ c ∈ behind.head?, property c = false)
    (same : one ++ rest = other ++ behind) : one = other ∧ rest = behind := by
  have cut := span_append inside stops
  rw [same, span_append alsoInside alsoStops] at cut
  exact ⟨(Prod.mk.inj cut).1.symm, (Prod.mk.inj cut).2.symm⟩

/-- A space behind a trimmed text is trimmed away, and nothing else with it. -/
theorem trim_append_space {text : Text} (trimmed : trim text = text) :
    trim (text ++ [' ']) = text := by
  cases text with
  | nil => rfl
  | cons c rest =>
    have starts : StartsVisible (c :: rest ++ [' ']) := (trim_eq_self_iff.mp trimmed).1
    have ended : trimEnd (c :: rest ++ [' ']) = trimEnd (c :: rest) := by
      rw [trimEnd, List.reverse_append]
      rfl
    rw [trim, trimStart_eq_self_iff.mpr starts, ended,
      trimEnd_eq_self_iff.mpr (trim_eq_self_iff.mp trimmed).2]

/-- A word ends where a text begins that starts with a blank. The word may be empty, and the text
behind it too. -/
theorem span_visible {word behind : Text} (visible : Visible word) (apart : StartsBlank behind) :
    (word ++ behind).span (fun c => !isBlank c) = (word, behind) :=
  span_append (fun c member => by simp [visible c member])
    (fun c first => by simp [apart c first])

/-- A text is cut into characters with a property and a rest that starts with none of them. This
holds of every text and every property, and by the law before it tells the cut exactly. -/
theorem span_parts (property : Char → Bool) (text : Text) :
    (∀ c ∈ (text.span property).1, property c) ∧
      (∀ c ∈ (text.span property).2.head?, property c = false) ∧
      (text.span property).1 ++ (text.span property).2 = text := by
  rw [List.span_eq_takeWhile_dropWhile]
  refine ⟨fun c member => List.all_eq_true.mp List.all_takeWhile c member, ?_,
    List.takeWhile_append_dropWhile⟩
  intro c first
  have stopped := List.head?_dropWhile_not property text
  rw [Option.mem_def.mp first] at stopped
  simpa using stopped

/-- A text is cut into a visible word and what starts with a blank behind it. The word is empty
where the text starts with a blank, or is empty itself. -/
theorem span_exact (text : Text) :
    Visible (text.span fun c => !isBlank c).1 ∧ StartsBlank (text.span fun c => !isBlank c).2 ∧
      (text.span fun c => !isBlank c).1 ++ (text.span fun c => !isBlank c).2 = text := by
  obtain ⟨inside, stops, whole⟩ := span_parts (fun c => !isBlank c) text
  exact ⟨fun c member => by simpa using inside c member,
    fun c first => by simpa using stops c first, whole⟩

/-- The text behind a space, or nothing if there is no text. This is how a part that may be
missing follows another one. -/
def behindSpace (text : Text) : Text := if text = [] then [] else ' ' :: text

/-- A text that is not empty stands behind a space. -/
theorem behindSpace_of_ne_nil {text : Text} (something : text ≠ []) :
    behindSpace text = ' ' :: text := if_neg something

/-- Behind a space or missing, a part starts with a blank or not at all. -/
theorem startsBlank_behindSpace (text : Text) : StartsBlank (behindSpace text) := by
  rw [behindSpace]
  split
  · exact startsBlank_nil
  · exact startsBlank_space text

/-- Trimming takes the space away again, and no more where the text starts visibly. -/
theorem trimStart_behindSpace {text : Text} (starts : StartsVisible text) :
    trimStart (behindSpace text) = text := by
  rw [behindSpace]
  split
  · rename_i empty
    rw [empty]
    rfl
  · have spaceless : trimStart (' ' :: text) = trimStart text := rfl
    rw [spaceless, trimStart_eq_self_iff.mpr starts]

/-- A trimmed text is got back from behind its space by trimming. -/
theorem trim_behindSpace {text : Text} (trimmed : trim text = text) :
    trim (behindSpace text) = text := by
  obtain ⟨starts, ends⟩ := trim_eq_self_iff.mp trimmed
  rw [trim, trimStart_behindSpace starts, trimEnd_eq_self_iff.mpr ends]

/-! Pieces joined by spaces -/

/-- An empty piece leaves no space behind, at the front of the pieces. -/
theorem spaced_nil_cons (others : List Text) : spaced ([] :: others) = spaced others := by
  simp [spaced]

/-- Nor does an empty piece behind the first one. -/
theorem spaced_cons_nil_cons (piece : Text) (others : List Text) :
    spaced (piece :: [] :: others) = spaced (piece :: others) := by
  simp [spaced, List.filter_cons]

/-- A single piece stands by itself, also if it is empty. -/
theorem spaced_singleton (piece : Text) : spaced [piece] = piece := by
  cases piece <;> simp [spaced]

/-- A piece stands in front of the others, which follow behind a space unless all of them are
empty. A text of pieces is thus taken apart at its first piece. -/
theorem spaced_cons {piece : Text} (something : piece ≠ []) (others : List Text) :
    spaced (piece :: others) = piece ++ behindSpace (spaced others) := by
  rw [spaced, spaced, behindSpace, List.filter_cons_of_pos (by simpa using something)]
  cases kept : others.filter (· ≠ []) with
  | nil => simp
  | cons next rest =>
    have nonempty : next ≠ [] := by
      have member : next ∈ others.filter (· ≠ []) := by rw [kept]; exact List.mem_cons_self
      simpa using (List.mem_filter.mp member).2
    have joined : [' '].intercalate (next :: rest) ≠ [] := by
      cases rest with
      | nil => simpa using nonempty
      | cons => simp [List.intercalate_cons_cons, nonempty]
    rw [if_neg joined, List.intercalate_cons_cons, List.append_assoc, List.singleton_append]

/-- A text of pieces is empty only if all of them are: one piece with something in it is
enough. -/
theorem spaced_ne_nil {piece : Text} {pieces : List Text} (member : piece ∈ pieces)
    (something : piece ≠ []) : spaced pieces ≠ [] := by
  induction pieces with
  | nil => contradiction
  | cons first others inductionHypothesis =>
    by_cases empty : first = []
    · subst empty
      rw [spaced_nil_cons]
      exact inductionHypothesis ((List.mem_cons.mp member).resolve_left something)
    · rw [spaced_cons empty]
      exact List.append_ne_nil_of_left_ne_nil empty _

/-- Pieces joined by spaces stand behind a space as each of them does. Empty pieces add nothing
on either side. -/
theorem behindSpace_spaced (pieces : List Text) :
    behindSpace (spaced pieces) = pieces.flatMap behindSpace := by
  induction pieces with
  | nil => rfl
  | cons piece others inductionHypothesis =>
    by_cases empty : piece = []
    · rw [empty, spaced_nil_cons, inductionHypothesis]
      rfl
    · have whole : piece ++ behindSpace (spaced others) ≠ [] :=
        List.append_ne_nil_of_left_ne_nil empty _
      rw [spaced_cons empty, List.flatMap_cons, ← inductionHypothesis,
        behindSpace_of_ne_nil whole, behindSpace_of_ne_nil empty, List.cons_append]

/-- A text of pieces ends as the last of them that is not empty. It is enough that none of them
ends with a blank, and where all are empty so is the text. -/
theorem endsVisible_spaced {pieces : List Text} (ends : ∀ piece ∈ pieces, EndsVisible piece) :
    EndsVisible (spaced pieces) := by
  induction pieces with
  | nil => simp [spaced, EndsVisible]
  | cons piece others inductionHypothesis =>
    have later := inductionHypothesis fun other member =>
      ends other (List.mem_cons_of_mem piece member)
    by_cases empty : piece = []
    · rwa [empty, spaced_nil_cons]
    · rw [spaced_cons empty, behindSpace]
      split
      · rw [List.append_nil]
        exact ends piece List.mem_cons_self
      · rename_i something
        exact endsVisible_append _ (List.cons_ne_nil ' ' _) (endsVisible_cons something later)

/-- A text of pieces starts as the first of them that is not empty, so visibly if none of them
starts with a blank. -/
theorem startsVisible_spaced {pieces : List Text}
    (starts : ∀ piece ∈ pieces, StartsVisible piece) : StartsVisible (spaced pieces) := by
  induction pieces with
  | nil => simp [spaced, StartsVisible]
  | cons piece others inductionHypothesis =>
    by_cases empty : piece = []
    · rw [empty, spaced_nil_cons]
      exact inductionHypothesis fun other member => starts other (List.mem_cons_of_mem piece member)
    · rw [spaced_cons empty]
      exact startsVisible_append empty (starts piece List.mem_cons_self)

/-- Trimmed pieces make a trimmed text. Blanks inside the pieces do not matter. -/
theorem trim_spaced {pieces : List Text} (trimmed : ∀ piece ∈ pieces, trim piece = piece) :
    trim (spaced pieces) = spaced pieces :=
  trim_eq_self_iff.mpr
    ⟨startsVisible_spaced fun piece member => (trim_eq_self_iff.mp (trimmed piece member)).1,
      endsVisible_spaced fun piece member => (trim_eq_self_iff.mp (trimmed piece member)).2⟩

end DocComment.Text
