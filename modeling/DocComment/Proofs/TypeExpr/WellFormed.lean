import DocComment.Proofs.TypeExpr.Nested
import DocComment.Proofs.TypeExpr.Token

/-!
# Well-formed types

A type is well-formed when its brackets are nested and every blank in it has a place: within
brackets, or between the colon of a callable and the type of its result. The scan knows of a
text only its depth and what it passed last. On a well-formed type that is enough: no blank
within it stops the scan, and at its end the scan has reached depth zero and waits for no result,
so that every blank stops it there. A well-formed type is therefore cut off whole, whatever
follows it.
-/
namespace DocComment.TypeExpr

open Text Brackets

/-- The text ends in a colon directly behind a parenthesis that closes to depth zero, where a
callable goes on with the type of its result. It is told by the text alone, without the scan. -/
def ExpectsResult (text : Text) : Prop := [')', ':'] <:+ text ∧ depth text = 0

/-- Behind this text a blank may stand: within brackets, or in the run of blanks behind the colon
of a callable. Everywhere else a blank ends the type. -/
def Admits (before : Text) : Prop := 0 < depth before ∨ ExpectsResult (trimEnd before)

/-- The types that stand in front of any blank without losing or taking anything. A type that
ends where a result is expected is excluded, for it would take in the next word. -/
structure WellFormed (type : Text) : Prop where
  something : type ≠ []
  nested : Nested Anywhere [] type
  trimmed : trim type = type
  spaced : ∀ before behind, type = before ++ behind → behind.head?.any isBlank → Admits before
  complete : ¬ ExpectsResult type

/-- Whether a result is expected is settled by the last two characters and a sum. -/
instance (text : Text) : Decidable (ExpectsResult text) :=
  inferInstanceAs (Decidable (_ ∧ _))

/-- Whether a blank may stand is settled by the text in front of it. -/
instance (before : Text) : Decidable (Admits before) := inferInstanceAs (Decidable (_ ∨ _))

/-- A type has finitely many places at which a blank may stand, so its form is decided by a look
at each of them. -/
instance (type : Text) : Decidable (WellFormed type) :=
  decidable_of_iff
    (type ≠ [] ∧ Nested Anywhere [] type ∧ trim type = type ∧
      (∀ count ≤ type.length, (type.drop count).head?.any isBlank → Admits (type.take count)) ∧
      ¬ ExpectsResult type)
    ⟨fun ⟨something, nested, trimmed, places, complete⟩ =>
      ⟨something, nested, trimmed, forall_splits type _ places, complete⟩,
    fun ⟨something, nested, trimmed, spaced, complete⟩ =>
      ⟨something, nested, trimmed,
        fun count _ => spaced _ _ (List.take_append_drop count type).symm, complete⟩⟩

/-- A type is well-formed if no blank stands outside its brackets and it does not end where a
callable goes on with its result. All common types are of this kind; what they lack is a blank
behind the colon of a callable. -/
theorem wellFormed_of_nested {type : Text} (something : type ≠ [])
    (nested : Nested NotBlank [] type) (complete : ¬ ExpectsResult type) : WellFormed type := by
  have inside (before behind : Text) (c : Char) (split : type = before ++ c :: behind)
      (blank : isBlank c) : 0 < depth before := by
    rw [split] at nested
    simpa using nested.depth_pos (separates_of_isBlank blank) (by simp [blank])
  have level : depth type = 0 := by simpa using nested.depth_eq
  refine ⟨something, nested.anywhere, trim_eq_self_iff.mpr ⟨?_, ?_⟩, ?_, complete⟩
  · -- nothing is open in front of the first character
    intro c first
    obtain ⟨rest, split⟩ := List.head?_eq_some_iff.mp first
    by_contra blank
    exact absurd (inside [] rest c split (by simpa using blank)) (by decide)
  · -- nor behind the last
    intro c last
    obtain ⟨front, split⟩ := List.getLast?_eq_some_iff.mp last
    by_contra visible
    have blank : isBlank c := by simpa using visible
    have positive := inside front [] c split blank
    rw [split, depth_append, depth_cons,
      step_of_not_separates (separates_of_isBlank blank)] at level
    simp only [depth_nil] at level
    omega
  · rintro before behind split blank
    cases behind with
    | nil => contradiction
    | cons c rest => exact .inl (inside before rest c split blank)

/-- What the scan has passed last is settled by the text in front of it. This is the invariant
that carries the scan along a well-formed type. -/
structure Left (before : Text) (passed : Passed) : Prop where
  closed : passed = .closed ↔ before.getLast? = some ')' ∧ depth before = 0
  expecting : passed = .resultColon ↔ ExpectsResult (trimEnd before)

/-- At the start nothing has been passed. -/
theorem left_nil : Left [] .other := by
  constructor <;> decide

/-- A text expects a result behind a colon only, and then the colon stands behind a parenthesis
at depth zero. -/
theorem expectsResult_concat {c : Char} {before : Text} :
    ExpectsResult (before ++ [c]) ↔
      c = ':' ∧ depth before = 0 ∧ before.getLast? = some ')' := by
  have ends : [')', ':'] <:+ before ++ [c] ↔ c = ':' ∧ before.getLast? = some ')' := by
    rw [← List.reverse_prefix, List.reverse_append, ← List.head?_reverse]
    cases before.reverse <;> simp [List.cons_prefix_cons, eq_comm]
  rw [ExpectsResult, ends]
  constructor
  · rintro ⟨⟨rfl, last⟩, balanced⟩
    exact ⟨rfl, by simpa [step, opens, closes] using balanced, last⟩
  · rintro ⟨rfl, balanced, last⟩
    exact ⟨⟨rfl, last⟩, by simpa [step, opens, closes] using balanced⟩

/-- A blank behind the colon of a callable leaves the scan waiting for the result, and so do more
blanks behind it. -/
theorem Left.blank_expecting {before : Text} {c : Char} (left : Left before .resultColon)
    (blank : isBlank c) : Left (before ++ [c]) .resultColon := by
  have other : c ≠ ')' := by rintro rfl; exact absurd blank (by decide)
  refine ⟨by simp [other], ?_⟩
  rw [trimEnd_concat blank]
  exact left.expecting

/-- A blank within brackets leaves nothing of note behind. The state is the one behind any other
character. -/
theorem Left.blank {before : Text} {passed : Passed} {c : Char} (left : Left before passed)
    (blank : isBlank c) (waits : passed ≠ .resultColon) : Left (before ++ [c]) .other := by
  have other : c ≠ ')' := by rintro rfl; exact absurd blank (by decide)
  refine ⟨by simp [other], ?_⟩
  rw [trimEnd_concat blank, ← left.expecting]
  simp [waits]

/-- A visible character is a closing parenthesis, the colon of a callable or neither, and the
state behind it is the one that the scan takes. -/
theorem Left.visible {before : Text} {passed : Passed} {c : Char} (left : Left before passed)
    (visible : isBlank c = false) :
    Left (before ++ [c])
      (if c = ')' ∧ depth before + step c = 0 then .closed
        else if c = ':' ∧ depth before = 0 ∧ passed = .closed then .resultColon
        else .other) := by
  have ends : trimEnd (before ++ [c]) = before ++ [c] :=
    trimEnd_eq_self_iff.mpr (by simpa [EndsVisible] using visible)
  have closed : ((before ++ [c]).getLast? = some ')' ∧ depth (before ++ [c]) = 0) ↔
      (c = ')' ∧ depth before + step c = 0) := by simp
  have expecting : ExpectsResult (trimEnd (before ++ [c])) ↔
      (c = ':' ∧ depth before = 0 ∧ passed = .closed) := by
    rw [ends, expectsResult_concat, left.closed]
    constructor
    · rintro ⟨rfl, balanced, last⟩
      exact ⟨rfl, balanced, last, balanced⟩
    · rintro ⟨rfl, balanced, last, -⟩
      exact ⟨rfl, balanced, last⟩
  split
  · rename_i closing
    have colon : ¬ ExpectsResult (trimEnd (before ++ [c])) := by
      rw [expecting, closing.1]
      exact fun both => absurd both.1 (by decide)
    exact ⟨iff_of_true rfl (closed.mpr closing), iff_of_false (by decide) colon⟩
  · rename_i stillOpen
    have unclosed := mt closed.mp stillOpen
    split
    · rename_i colon
      exact ⟨iff_of_false (by decide) unclosed, iff_of_true rfl (expecting.mpr colon)⟩
    · rename_i other
      exact ⟨iff_of_false (by decide) unclosed, iff_of_false (by decide) (mt expecting.mp other)⟩

/-- In front of a text that starts with a blank, the scan takes what is left of a well-formed
type and nothing else. The induction is on what is left, with the state settled by what is in
front. -/
theorem WellFormed.scanToken_eq {type behind : Text} (formed : WellFormed type)
    (apart : StartsBlank behind) {before rest : Text} {passed : Passed}
    (split : type = before ++ rest) (left : Left before passed) :
    scanToken (depth before) passed (rest ++ behind) = (rest, behind) := by
  induction rest generalizing before passed with
  | nil =>
    obtain rfl : type = before := by rw [split, List.append_nil]
    have balanced : depth type = 0 := by simpa using formed.nested.depth_eq
    have ended : trimEnd type = type :=
      trimEnd_eq_self_iff.mpr (trim_eq_self_iff.mp formed.trimmed).2
    have waits : passed ≠ .resultColon := by
      rw [Ne, left.expecting, ended]
      exact formed.complete
    cases behind with
    | nil => rfl
    | cons c others =>
      have blank : isBlank c := apart c rfl
      rw [List.nil_append, scanToken, if_pos blank, if_neg waits, if_pos (by omega)]
  | cons c rest inductionHypothesis =>
    have longer : type = (before ++ [c]) ++ rest := by rw [split]; simp
    rw [List.cons_append, scanToken]
    cases blank : isBlank c with
    | true =>
      have level : depth (before ++ [c]) = depth before := by
        simp [step_of_not_separates (separates_of_isBlank blank)]
      rw [if_pos rfl]
      by_cases waits : passed = .resultColon
      · subst waits
        have onward := inductionHypothesis longer (left.blank_expecting blank)
        rw [level] at onward
        rw [if_pos rfl, onward]
      · have inside : 0 < depth before :=
          (formed.spaced before (c :: rest) split blank).resolve_right
            (mt left.expecting.mpr waits)
        have onward := inductionHypothesis longer (left.blank blank waits)
        rw [level] at onward
        rw [if_neg waits, if_neg (by omega), onward]
    | false =>
      have onward := inductionHypothesis longer (left.visible blank)
      rw [depth_append, depth_cons, depth_nil, Int.add_zero] at onward
      rw [if_neg Bool.false_ne_true]
      dsimp only
      rw [onward]

/-- A well-formed type is cut off whole in front of every blank. So well-formedness, which can be
decided, is enough wherever a type has to be read back. -/
theorem WellFormed.isToken {type : Text} (formed : WellFormed type) : IsToken type :=
  fun _ apart => formed.scanToken_eq apart (List.nil_append type).symm left_nil

/-- Blanks stand within brackets and in front of the result of a callable. -/
example : WellFormed "callable(int, A<B>):  array\x7bid: int\x7d|null".toList := by
  decide +kernel

/-- Blanks outside of brackets end a type, also around a bar. -/
example : ¬ WellFormed "A | B".toList := by decide +kernel

end DocComment.TypeExpr
