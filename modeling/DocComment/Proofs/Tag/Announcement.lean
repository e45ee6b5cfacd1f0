import DocComment.Proofs.Tag.AnnouncedMethod
import DocComment.Proofs.Tag.InPlaceMethod
import Mathlib.Order.WellFounded

/-!
# The first announcement

An announcement is a name with an empty parameter list, and blanks behind it, in front of a word
with a parenthesis inside. A text may have any number of them, and of empty parameter lists that
announce nothing. Main statement: where every blank takes one octet, the scan takes out the first
announcement of the text with its blanks and leaves all else as it is, and it leaves a text without
announcements as it is.

The scan knows nothing of announcements. It stops at each empty parameter list in turn and looks
back from there for the last blank, over what it has already passed. That nothing is missed is due
to the shape of a name: it has no parenthesis in it, so that the list of an announcement which
begins earlier is also found earlier. The same holds of the loop in place, which begins anew behind
each list that it has passed.
-/
namespace DocComment.Tag

open Text Brackets

/-- An announcement with the text in front of it and the text behind its blanks. Its name begins
the text or follows a blank, and the next word has a parenthesis inside. -/
@[ext]
structure Announcement (text : Text) where
  before : Text
  name : Text
  gap : Text
  behind : Text
  whole : text = before ++ (name ++ '(' :: ')' :: (gap ++ behind))
  /-- The name begins the text or stands right behind a blank. -/
  starts : EndsBlank before
  named : name ≠ []
  word : name.all isWordCharacter
  apart : gap ≠ []
  blank : ∀ c ∈ gap, isBlank c
  visible : StartsVisible behind
  signature : ∃ next ∈ (words behind).head?, '(' ∈ next ∧ next.head? ≠ some '('

namespace Announcement

variable {text : Text}

/-- An announcement is the first one of its text if every other one begins behind it. -/
def IsFirst (first : Announcement text) : Prop :=
  ∀ other : Announcement text, other ≠ first → first.before.length < other.before.length

/-- At one place in a text there is one announcement at most: the name goes up to the
parenthesis, the gap up to the next character that is not blank. -/
theorem eq_of_length {one other : Announcement text}
    (same : one.before.length = other.before.length) : one = other := by
  have named (announcement : Announcement text) : ∀ c ∈ announcement.name, isWordCharacter c :=
    List.all_eq_true.mp announcement.word
  have stops (rest : Text) : ∀ c ∈ ('(' :: rest).head?, isWordCharacter c = false := by
    simp
    decide
  obtain ⟨before, rest⟩ := List.append_inj (one.whole.symm.trans other.whole) same
  obtain ⟨name, list⟩ := span_unique (named one) (stops _) (named other) (stops _) rest
  have spaced : one.gap ++ one.behind = other.gap ++ other.behind := by simpa using list
  obtain ⟨gap, behind⟩ := span_unique one.blank one.visible other.blank other.visible spaced
  exact Announcement.ext before name gap behind

/-- Where there are announcements, one is the first: the lengths of what stands in front of them
have a least one. -/
theorem exists_isFirst (announcement : Announcement text) :
    ∃ first : Announcement text, first.IsFirst := by
  have : Nonempty (Announcement text) := ⟨announcement⟩
  let place (other : Announcement text) : Nat := other.before.length
  refine ⟨Function.argmin place, fun other different => ?_⟩
  have least : (Function.argmin place).before.length ≤ other.before.length :=
    Function.argmin_le place other
  exact Nat.lt_of_le_of_ne least fun same => different (eq_of_length same.symm)

/-- The name of an announcement is skipped at its list; this is what the scan checks there. -/
theorem isSkippedName (announcement : Announcement text) :
    isSkippedName announcement.name (announcement.gap ++ announcement.behind) := by
  obtain ⟨next, found, shape⟩ := announcement.signature
  have startsBlank : StartsBlank (announcement.gap ++ announcement.behind) := by
    obtain ⟨c, rest, gap⟩ := List.exists_cons_of_ne_nil announcement.apart
    intro d first
    rw [gap] at first
    obtain rfl : c = d := Option.some.inj first
    exact announcement.blank c (by simp [gap])
  rw [← words_blanks_append announcement.blank] at found
  refine isSkippedName_iff.mpr ⟨startsBlank, next, found, ?_, shape⟩
  exact ⟨announcement.name, rfl, announcement.named, announcement.word⟩

/-- A name that is skipped at a list makes an announcement with that list. The text in front of
it is what precedes the last word. -/
theorem exists_of_isSkippedName {before behind : Text}
    (whole : text = before ++ '(' :: ')' :: behind)
    (skipped : Tag.isSkippedName (lastWord before).2 behind) :
    ∃ announcement : Announcement text, announcement.before ++ announcement.name = before := by
  subst whole
  obtain ⟨start, name, rfl, visible, ends⟩ := exists_lastWord before
  rw [lastWord_append visible ends] at skipped
  obtain ⟨startsBlank, next, found, ⟨_, same, named, word⟩, shape⟩ := isSkippedName_iff.mp skipped
  obtain rfl := List.append_cancel_right same
  obtain ⟨blank, stops, split⟩ := span_parts isBlank behind
  generalize (behind.span isBlank).1 = gap at *
  generalize (behind.span isBlank).2 = rest at *
  subst split
  have apart : gap ≠ [] := by
    rintro rfl
    cases rest with
    | nil => simp at found
    | cons c rest => exact absurd (startsBlank c rfl) (by simp [stops c rfl])
  exact ⟨{
    before := start
    name, gap
    behind := rest
    whole := by simp
    starts := ends
    named, word, apart, blank
    visible := stops
    signature := ⟨next, words_blanks_append blank rest ▸ found, shape⟩ }, rfl⟩

/-- A parenthesis in front of the list of an announcement stands in front of its name, as a name
has no parenthesis in it. -/
theorem length_lt_of_parenthesis (announcement : Announcement text) {front rest : Text}
    (split : announcement.before ++ announcement.name = front ++ '(' :: rest) :
    front.length < announcement.before.length := by
  have nameless : '(' ∉ announcement.name := notMem_of_all announcement.word (by decide)
  rcases List.append_eq_append_iff.mp split with ⟨more, -, name⟩ | ⟨more, before, behind⟩
  · rw [name] at nameless
    simp at nameless
  · cases more with
    | nil =>
      rw [List.nil_append] at behind
      simp [← behind] at nameless
    | cons c more => simp [before]

/-- The scan passes over what stands in front of the list of the first announcement: a name that
is skipped there would begin an earlier one. -/
theorem IsFirst.passedOver {first : Announcement text} (isFirst : first.IsFirst)
    (narrow : Narrow text) :
    PassedOver [] (first.before ++ first.name) ('(' :: ')' :: (first.gap ++ first.behind)) := by
  intro front inside split
  have whole := calc
    text = (first.before ++ first.name) ++ '(' :: ')' :: (first.gap ++ first.behind) :=
      first.whole.trans (List.append_assoc ..).symm
    _ = front ++ '(' :: ')' :: (inside ++ '(' :: ')' :: (first.gap ++ first.behind)) := by
      rw [split]
      simp
  have narrowFront : Narrow front := narrow_front (whole ▸ narrow)
  refine ⟨_, _, lastWordByOctet_of_narrow narrowFront, ?_⟩
  rw [← Bool.not_eq_true]
  intro skipped
  obtain ⟨earlier, rfl⟩ := exists_of_isSkippedName whole skipped
  have inFront : earlier.before.length < first.before.length := by
    have shorter := first.length_lt_of_parenthesis split
    rw [List.length_append] at shorter
    omega
  by_cases same : earlier = first
  · rw [same] at inFront
    exact absurd inFront (Nat.lt_irrefl _)
  · exact absurd (isFirst earlier same) (Nat.lt_asymm inFront)

/-- The scan takes the first announcement out and keeps all the rest, later announcements
included. -/
theorem IsFirst.skipName_eq {first : Announcement text} (isFirst : first.IsFirst)
    (narrow : Narrow text) : skipName [] text = .ok (first.before ++ first.behind) := by
  have parted : text = (first.before ++ first.name) ++ '(' :: ')' :: (first.gap ++ first.behind) :=
    first.whole.trans (List.append_assoc ..).symm
  have visibleName : Visible first.name := visible_of_isWordCharacter first.word
  have behindGap : trimStart (first.gap ++ first.behind) = first.behind := by
    rw [trimStart, List.dropWhile_append_of_pos first.blank]
    exact trimStart_eq_self_iff.mpr first.visible
  calc skipName [] text
      = skipName [] ((first.before ++ first.name) ++
          '(' :: ')' :: (first.gap ++ first.behind)) := congrArg _ parted
    _ = skipName (first.before ++ first.name).reverse
          ('(' :: ')' :: (first.gap ++ first.behind)) := by
        rw [skipName_passed [] (by simp) (isFirst.passedOver narrow), List.append_nil]
    _ = .ok (first.before ++ trimStart (first.gap ++ first.behind)) :=
        skipName_skipped (narrow_front (parted ▸ narrow)) visibleName first.starts
          first.isSkippedName
    _ = .ok (first.before ++ first.behind) := by rw [behindGap]

end Announcement

/-- The scan leaves a text without announcements as it is, however many empty lists it has. -/
theorem skipName_of_isEmpty {text : Text} (narrow : Narrow text)
    (none : IsEmpty (Announcement text)) : skipName [] text = .ok text := by
  refine skipName_eq fun before behind whole => ?_
  refine ⟨_, _, lastWordByOctet_of_narrow (narrow_front (whole ▸ narrow)), ?_⟩
  rw [← Bool.not_eq_true]
  intro skipped
  obtain ⟨announcement, -⟩ := Announcement.exists_of_isSkippedName whole skipped
  exact none.false announcement

/-- Where every blank takes one octet, the scan ends with a text, in place too: with the whole
text if it has no announcement, and otherwise with the text but for its first announcement and
the blanks behind that. -/
theorem skipName_takes_first {text : Text} (narrow : Narrow text) :
    ∃ kept, skipName [] text = .ok kept ∧ InPlace.skipName text 0 = .ok kept ∧
      ((IsEmpty (Announcement text) ∧ kept = text) ∨
        ∃ first : Announcement text, first.IsFirst ∧ kept = first.before ++ first.behind) := by
  have inPlace : InPlace.skipName text 0 = InPlace.stopped (skipName [] text) :=
    InPlace.skipName_eq [] text
  cases isEmpty_or_nonempty (Announcement text) with
  | inl none =>
    have kept := skipName_of_isEmpty narrow none
    exact ⟨text, kept, by rw [inPlace, kept, InPlace.stopped_ok], .inl ⟨none, rfl⟩⟩
  | inr some =>
    obtain ⟨announcement⟩ := some
    obtain ⟨first, isFirst⟩ := announcement.exists_isFirst
    have kept := isFirst.skipName_eq narrow
    exact ⟨_, kept, by rw [inPlace, kept, InPlace.stopped_ok], .inr ⟨first, isFirst, rfl⟩⟩

/-- Two names in front do not announce, one since it is qualified and one since no signature
follows it; of the two that do, the second is kept. -/
theorem skipName_takes_first_of_two :
    let text := "ns\\f() one() int get() get(int $i) old() new(int)".toList
    let kept := "ns\\f() one() int get(int $i) old() new(int)".toList
    Narrow text ∧ skipName [] text = .ok kept ∧ InPlace.skipName text 0 = .ok kept ∧
      ∃ first : Announcement text, first.IsFirst ∧ kept = first.before ++ first.behind := by
  intro text kept
  have narrow : Narrow text := by decide +kernel
  have evaluated : skipName [] text = .ok kept := by decide +kernel
  have shorter : kept ≠ text := by decide +kernel
  obtain ⟨result, done, inPlace, outcome⟩ := skipName_takes_first narrow
  obtain rfl : result = kept := Except.ok.inj (done.symm.trans evaluated)
  rcases outcome with ⟨-, same⟩ | found
  · exact absurd same shorter
  · exact ⟨narrow, done, inPlace, found⟩

end DocComment.Tag
