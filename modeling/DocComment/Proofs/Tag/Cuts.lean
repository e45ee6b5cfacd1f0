import DocComment.Proofs.Tag.InPlaceMethod
import DocComment.Proofs.TypeExpr.WellFormed

/-!
# Texts cut by their brackets

The body of a tag is cut where the depth of its brackets says so: behind the type at its start,
and a parameter list at its end and at its commas. A cut loses nothing, whatever the brackets of
the text are, for the parts make up the text again; and it is the right one, since parts with
brackets of their own in order are found again in the text that they make up. The first of these
laws holds of every cut, even one in the wrong place, and the second says nothing about brackets
that do not match, so that each needs the other. Where a parameter list ends only parentheses count,
and there one law says it all: the text in front of the closing parenthesis is balanced, and no
other parenthesis has such a text in front of it.

In place the same cuts are slices at octets, found with a depth of 32 bits. That the slices have
places and the depth stays in its range is part of each statement.
-/
namespace DocComment

namespace TypeExpr

open Text

/-- A text is cut into a type and a rest that is empty or starts with a blank, and in front of
such a rest a well-formed type is cut off whole. In a text of less than 2³¹ characters the cut is
also made in place. -/
theorem splitToken_returns_type :
    (∀ text, (splitToken text).1 ++ (splitToken text).2 = text ∧
        StartsBlank (splitToken text).2) ∧
      (∀ type behind, WellFormed type → StartsBlank behind →
        splitToken (type ++ behind) = (type, behind)) ∧
      ∀ text, text.length < 2147483648 →
        Tag.InPlace.splitToken text = .ok (splitToken text) := by
  refine ⟨fun text => ?_, fun type behind formed apart => ?_, fun text short => ?_⟩
  · exact ⟨append_splitToken text, startsBlank_splitToken text⟩
  · exact formed.isToken behind apart
  · exact Tag.InPlace.splitToken_eq short

/-- A callable with nested brackets, blanks in them, and two blanks in front of its result.
Behind it stands a variable. -/
theorem splitToken_returns_callable :
    let type := "callable(int, A<B>):  array\x7bid: int\x7d|null".toList
    let behind := " $cb".toList
    WellFormed type ∧ StartsBlank behind ∧ (type ++ behind).length < 2147483648 ∧
      splitToken (type ++ behind) = (type, behind) ∧
      Tag.InPlace.splitToken (type ++ behind) = .ok (type, behind) := by
  intro type behind
  have formed : WellFormed type := by decide +kernel
  have apart : StartsBlank behind := startsBlank_space _
  have short : (type ++ behind).length < 2147483648 := by decide +kernel
  obtain ⟨-, whole, inPlace⟩ := splitToken_returns_type
  have cut := whole type behind formed apart
  exact ⟨formed, apart, short, cut, cut ▸ inPlace _ short⟩

end TypeExpr

namespace Brackets

open Text

/-- The pieces between the commas of a text, joined by commas, are the text, and pieces that have
nested brackets and commas only inside them are the pieces of the text that they make up. In a
text of less than 2³¹ characters the cuts are also made in place. -/
theorem splitCommas_returns_pieces :
    (∀ text, [','].intercalate (splitCommas 0 text) = text) ∧
      (∀ pieces, pieces ≠ [] → (∀ piece ∈ pieces, Nested NotComma [] piece) →
        splitCommas 0 ([','].intercalate pieces) = pieces) ∧
      ∀ text, text.length < 2147483648 →
        Tag.InPlace.commaPieces text 0 0 0 text = .ok (splitCommas 0 text) := by
  refine ⟨intercalate_splitCommas, fun pieces something nested => ?_, fun text short => ?_⟩
  · have whole : ∀ piece ∈ pieces, Whole 0 piece := fun piece member => (nested piece member).whole
    have balanced : pieces.Pairwise fun piece _ => depth piece = 0 :=
      List.pairwise_of_forall_mem_list fun piece member _ _ => by
        simpa using (nested piece member).depth_eq
    exact splitCommas_eq_iff.mpr ⟨something, rfl, whole, balanced⟩
  · exact Tag.InPlace.commaPieces_start short

/-- Three parameters: one with a comma inside its brackets, one with a default, and an empty one
behind the last comma. -/
theorem splitCommas_returns_parameters :
    let pieces := ["array<string, mixed> $data".toList, " string $c = [1, \x7b2\x7d]".toList, []]
    pieces ≠ [] ∧ (∀ piece ∈ pieces, Nested NotComma [] piece) ∧
      splitCommas 0 ([','].intercalate pieces) = pieces ∧
      ([','].intercalate pieces).length < 2147483648 ∧
      Tag.InPlace.commaPieces ([','].intercalate pieces) 0 0 0 ([','].intercalate pieces) =
        .ok pieces := by
  intro pieces
  have something : pieces ≠ [] := List.cons_ne_nil _ _
  have nested : ∀ piece ∈ pieces, Nested NotComma [] piece := by decide +kernel
  have short : ([','].intercalate pieces).length < 2147483648 := by decide +kernel
  obtain ⟨-, whole, inPlace⟩ := splitCommas_returns_pieces
  have cut := whole pieces something nested
  exact ⟨something, nested, cut, short, cut ▸ inPlace _ short⟩

/-- At this place of the text, given in octets, stands a parenthesis that closes behind a
balanced text. Only parentheses count for the balance, whatever other brackets the text holds. -/
def ClosesAt (text : Text) (place : Nat) : Prop :=
  ∃ inside behind, inside ++ ')' :: behind = text ∧ Balanced inside ∧ octets inside = place

/-- The place is that of the closing parenthesis which the scan finds, counted in octets instead
of characters. -/
theorem closesAt_iff {text : Text} {place : Nat} :
    ClosesAt text place ↔
      (splitClosing 0 text).map (fun cut => octets cut.1) = some place := by
  simp only [ClosesAt, Option.map_eq_some_iff, Prod.exists, splitClosing_eq_some_iff, and_assoc]

/-- Where the scan finds nothing, no parenthesis closes: there is none at all, or each one closes
one that the text itself has opened. -/
theorem splitClosing_eq_none_iff {text : Text} :
    splitClosing 0 text = none ↔ ∀ place, ¬ ClosesAt text place := by
  simp only [closesAt_iff, ← Option.eq_none_iff_forall_ne_some, Option.map_eq_none_iff]

/-- A text is cut at a parenthesis exactly if the text in front of that is balanced, and left in
one piece exactly if there is no such parenthesis. There is never a second one. In a text of less
than 2³¹ characters the place of the parenthesis is also found in place. -/
theorem splitClosing_returns_place :
    (∀ text inside behind, splitClosing 0 text = some (inside, behind) ↔
        inside ++ ')' :: behind = text ∧ Balanced inside) ∧
      (∀ text, splitClosing 0 text = none ↔ ∀ place, ¬ ClosesAt text place) ∧
      (∀ text place other, ClosesAt text place → ClosesAt text other → place = other) ∧
      ∀ text, text.length < 2147483648 →
        (∀ place, Tag.InPlace.closePlace 0 0 text = .ok (some place) ↔ ClosesAt text place) ∧
        (Tag.InPlace.closePlace 0 0 text = .ok none ↔ ∀ place, ¬ ClosesAt text place) := by
  refine ⟨fun _ _ _ => splitClosing_eq_some_iff, fun _ => splitClosing_eq_none_iff,
    fun text place other here there => ?_, fun text short => ?_⟩
  · have found := closesAt_iff.mp here
    exact Option.some.inj (found.symm.trans (closesAt_iff.mp there))
  · have inPlace : Tag.InPlace.closePlace 0 0 text =
        .ok ((splitClosing 0 text).map fun cut => octets cut.1) := by
      simpa using Tag.InPlace.closePlace_eq 0 0 (by simpa using short)
    rw [inPlace]
    constructor
    · intro place
      rw [closesAt_iff, Except.ok.injEq]
    · rw [← splitClosing_eq_none_iff, Except.ok.injEq, Option.map_eq_none_iff]

/-- A parameter list with parentheses of its own and a character of two octets, in front of a
description with more parentheses. Without what stands behind it, the list is not closed. -/
theorem splitClosing_returns_parameters :
    let inside := "callable(A): B $é = f([(1>, <)])".toList
    let behind := " makes (the) first ) of two".toList
    let text := inside ++ ')' :: behind
    text.length < 2147483648 ∧ inside.length < 2147483648 ∧
      splitClosing 0 text = some (inside, behind) ∧ ClosesAt text 33 ∧
      (∀ place, ClosesAt text place → place = 33) ∧
      Tag.InPlace.closePlace 0 0 text = .ok (some 33) ∧
      Tag.InPlace.closePlace 0 0 inside = .ok none := by
  intro inside behind text
  have short : text.length < 2147483648 := by decide +kernel
  have shortInside : inside.length < 2147483648 := by decide +kernel
  have balanced : Balanced inside := by decide +kernel
  have closing : ClosesAt text 33 := ⟨inside, behind, rfl, balanced, by decide +kernel⟩
  have unclosed : splitClosing 0 inside = none := by decide +kernel
  obtain ⟨cut, missing, unique, inPlace⟩ := splitClosing_returns_place
  exact ⟨short, shortInside, (cut text inside behind).mpr ⟨rfl, balanced⟩, closing,
    fun place other => unique text place 33 other closing, ((inPlace text short).1 33).mpr closing,
    (inPlace inside shortInside).2.mpr ((missing inside).mp unclosed)⟩

end Brackets

end DocComment
