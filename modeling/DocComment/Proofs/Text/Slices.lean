import DocComment.Proofs.Text.Places
import DocComment.Text.Slices

/-!
# What is sliced out of a text

The end of a first part is a place in the text, and so are both ends of a part within it, so a
slice between two such places is that part. The last blank is found at its place too; the place
one octet behind it exists exactly where the step over that blank stays outside of characters,
and there the last word begins.
-/
namespace DocComment.Text

variable {text before behind : Text}

/-- The end of a first part is a place in the text, and the slice up to it is that part. -/
theorem sliceTo_octets (whole : before ++ behind = text) :
    sliceTo (octets before) text = some before := by
  rw [← whole, sliceTo, cutAt_octets]
  rfl

/-- Behind that place the slice is the rest of the text. -/
theorem sliceFrom_octets (whole : before ++ behind = text) :
    sliceFrom (octets before) text = some behind := by
  rw [← whole, sliceFrom, cutAt_octets]
  rfl

/-- The place behind a character that was found is an octet further, if the character is one
octet wide. The signs that readers look for all are. -/
theorem sliceFrom_past {c : Char} (whole : before ++ c :: behind = text)
    (narrow : c.utf8Size = 1) : sliceFrom (octets before + 1) text = some behind := by
  have split : before ++ [c] ++ behind = text := by simpa using whole
  have place : octets before + 1 = octets (before ++ [c]) := by
    rw [octets_append, octets, octets, narrow]
  rw [place]
  exact sliceFrom_octets split

/-- Both ends of a part within the text are places in it, and the slice between them is the
part. -/
theorem slice_octets {inside : Text} (whole : before ++ inside ++ behind = text) :
    slice (octets before) (octets (before ++ inside)) text = some inside := by
  rw [slice, sliceTo_octets whole]
  exact sliceFrom_octets rfl

/-- A scan that has passed one more character has come as many octets further. What was passed is
kept backwards, hence the reversal. -/
theorem octets_reverse_cons (c : Char) (passed : Text) :
    octets (c :: passed).reverse = octets passed.reverse + c.utf8Size := by
  rw [List.reverse_cons, octets_append]
  rfl

/-- There is no place inside a character, wherever it stands in the text. -/
theorem cutAt_inside {count : Nat} {c : Char} (before behind : Text) (positive : 0 < count)
    (inside : count < c.utf8Size) :
    cutAt (octets before + count) (before ++ c :: behind) = none := by
  induction before with
  | nil =>
    obtain ⟨less, rfl⟩ := Nat.exists_eq_succ_of_ne_zero (Nat.ne_of_gt positive)
    rw [octets, Nat.zero_add, List.nil_append, cutAt, if_neg (by omega)]
  | cons d rest inductionHypothesis =>
    have size := Char.utf8Size_pos d
    obtain ⟨less, whole⟩ := Nat.exists_eq_succ_of_ne_zero
      (Nat.ne_of_gt (Nat.add_pos_left (Nat.add_pos_left size (octets rest)) count))
    have left : less + 1 - d.utf8Size = octets rest + count := by omega
    rw [octets, whole, List.cons_append, cutAt, if_pos (by omega), left, inductionHypothesis]
    rfl

/-! Places found from the end -/

variable {property : Char → Bool}

/-- Nothing is found where no character has the property. -/
theorem lastPlace_eq_none {text : Text} (plain : ∀ c ∈ text, property c = false) :
    lastPlace property text = none := by
  induction text with
  | nil => rfl
  | cons c rest inductionHypothesis =>
    obtain ⟨here, later⟩ := List.forall_mem_cons.mp plain
    rw [lastPlace, inductionHypothesis later]
    simp [here]

/-- What is found is the place in front of the last character with the property. It is the last
one since none behind it has the property; those in front do not matter. -/
theorem lastPlace_append {c : Char} {behind : Text} (before : Text) (holds : property c)
    (plain : ∀ d ∈ behind, property d = false) :
    lastPlace property (before ++ c :: behind) = some (octets before) := by
  induction before with
  | nil =>
    rw [List.nil_append, lastPlace, lastPlace_eq_none plain]
    exact if_pos holds
  | cons d rest inductionHypothesis =>
    rw [List.cons_append, lastPlace, inductionHypothesis]
    rfl

/-- The text is cut at the start of its last word exactly where stepping one octet over the last
blank finds that word. Both fail behind a wide blank, and for the same reason. -/
theorem cutAt_wordStart (text : Text) : cutAt (wordStart text) text = lastWordByOctet text := by
  obtain ⟨before, word, rfl, visible, apart⟩ := exists_lastWord text
  rw [lastWordByOctet, lastWord_append visible apart]
  cases last : before.getLast? with
  | none =>
    obtain rfl := List.getLast?_eq_none_iff.mp last
    rw [wordStart, List.nil_append, lastPlace_eq_none visible, Option.elim_none, cutAt]
    rfl
  | some blank =>
    obtain ⟨front, rfl⟩ := List.getLast?_eq_some_iff.mp last
    have split : front ++ [blank] ++ word = front ++ blank :: word := by simp
    rw [wordStart, split, lastPlace_append front (apart blank last) visible, Option.elim_some]
    simp only [last]
    by_cases narrow : blank.utf8Size = 1
    · have counted : octets front + 1 = octets (front ++ [blank]) := by
        rw [octets_append, octets, octets, narrow]
      rw [if_pos narrow, counted, ← split, cutAt_octets]
    · have size := Char.utf8Size_pos blank
      rw [if_neg narrow, cutAt_inside front word Nat.one_pos (by omega)]

/-- The word at the end of a first part, sliced out of the whole text. What follows the part has
no influence on the slice. -/
theorem slice_wordStart {text before behind : Text} (whole : before ++ behind = text) :
    slice (wordStart before) (octets before) text = (lastWordByOctet before).map Prod.snd := by
  rw [slice, sliceTo_octets whole, ← cutAt_wordStart]
  rfl

/-- What precedes that word is a first part too, and the slice up to the word is that part. -/
theorem sliceTo_wordStart {text before behind start word : Text}
    (whole : before ++ behind = text) (found : lastWordByOctet before = some (start, word)) :
    sliceTo (wordStart before) text = some start := by
  rw [← cutAt_wordStart] at found
  have split : start ++ (word ++ behind) = text := by
    rw [← List.append_assoc, append_of_cutAt found, whole]
  rw [← octets_of_cutAt found, sliceTo_octets split]

end DocComment.Text
