import DocComment.Text.Blank

/-!
# Offsets in octets

An offset into a text may be counted in the octets of its UTF-8 form. Such an
offset names a place between two characters or none at all: a cut that would
fall inside a character, or behind the end, has no result.
-/
namespace DocComment.Text

/-- The length of the UTF-8 form. It is at least the number of characters, and equal to it on
ASCII. -/
def octets : Text → Nat
  | [] => 0
  | c :: rest => c.utf8Size + octets rest

/-- The text before and behind its first `count` octets, if such a cut falls between two
characters or at an end of the text. There is none inside a character and none behind the end. -/
def cutAt : Nat → Text → Option (Text × Text)
  | 0, text => some ([], text)
  | _ + 1, [] => none
  | count + 1, c :: rest =>
    if c.utf8Size ≤ count + 1 then
      (cutAt (count + 1 - c.utf8Size) rest).map fun (before, behind) => (c :: before, behind)
    else none

/-- What follows the last blank, and what precedes it with that blank. A text without blanks is
all last word; behind a blank at the end the last word is empty. -/
def lastWord (text : Text) : Text × Text :=
  let word := (text.reverse.takeWhile fun c => !isBlank c).reverse
  (text.take (text.length - word.length), word)

/-- The last word found by stepping one octet over the last blank: nothing when that blank is
wider, since the step would end inside it. Without any blank no step is made. -/
def lastWordByOctet (text : Text) : Option (Text × Text) :=
  let (before, word) := lastWord text
  match before.getLast? with
  | none => some (before, word)
  | some blank => if blank.utf8Size = 1 then some (before, word) else none

/-- A cut loses nothing: the two parts make up the text again. -/
theorem append_of_cutAt {count : Nat} {text before behind : Text}
    (cut : cutAt count text = some (before, behind)) : before ++ behind = text := by
  induction text generalizing count before behind with
  | nil =>
    cases count with
    | zero => simp_all [cutAt]
    | succ => simp [cutAt] at cut
  | cons c rest inductionHypothesis =>
    cases count with
    | zero => simp_all [cutAt]
    | succ count =>
      simp only [cutAt] at cut
      split at cut
      · obtain ⟨⟨front, back⟩, found, same⟩ := Option.map_eq_some_iff.1 cut
        simp only [Prod.mk.injEq] at same
        obtain ⟨rfl, rfl⟩ := same
        simp [inductionHypothesis found]
      · contradiction

/-- The octets of two texts behind each other are those of both, since no character of the one
reaches into the other. -/
theorem octets_append (before behind : Text) :
    octets (before ++ behind) = octets before + octets behind := by
  induction before with
  | nil => simp [octets]
  | cons c rest inductionHypothesis =>
    rw [List.cons_append, octets, octets, inductionHypothesis, Nat.add_assoc]

/-- A cut behind as many octets as a first part has falls behind that part. So every cut between
two characters is found by counting octets, whatever their widths. -/
theorem cutAt_octets (before behind : Text) :
    cutAt (octets before) (before ++ behind) = some (before, behind) := by
  induction before with
  | nil => simp [octets, cutAt]
  | cons c rest inductionHypothesis =>
    have size := Char.utf8Size_pos c
    obtain ⟨count, counted⟩ := Nat.exists_eq_succ_of_ne_zero
      (Nat.ne_of_gt (Nat.add_pos_left size (octets rest)))
    have left : count + 1 - c.utf8Size = octets rest := by omega
    have fits : c.utf8Size ≤ count + 1 := by omega
    rw [octets, counted, List.cons_append, cutAt, if_pos fits, left, inductionHypothesis]
    rfl

/-- A cut falls behind as many octets as it was asked for. With the law before, a place is a
number of octets exactly if some first part has as many. -/
theorem octets_of_cutAt {count : Nat} {text before behind : Text}
    (cut : cutAt count text = some (before, behind)) : octets before = count := by
  fun_induction cutAt count text generalizing before with
  | case1 =>
    obtain ⟨rfl, -⟩ := Prod.mk.inj (Option.some.inj cut)
    rfl
  | case2 => contradiction
  | case3 count c rest fits inductionHypothesis =>
    obtain ⟨⟨front, back⟩, found, same⟩ := Option.map_eq_some_iff.mp cut
    obtain ⟨rfl, rfl⟩ := Prod.mk.inj same
    rw [octets, inductionHypothesis found]
    omega
  | case4 => contradiction

end DocComment.Text
