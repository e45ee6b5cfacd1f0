import DocComment.TypeExpr.Token
import DocComment.Proofs.Text.Visible

/-!
# Where a type ends

The scan for a type cuts a text in two and loses nothing of it. What is cut off behind the
type starts with a blank, and the type itself does not depend on it: in front of any other
text that starts with a blank, the scan stops at the same place again. That is so whatever
brackets are left open or closed too often, since the scan stops only in a state in which
every blank stops it.
-/
namespace DocComment.TypeExpr

open Text

/-- A text that the scan cuts off whole in front of every blank, and in front of the end. What
follows has no influence on how much is cut off. -/
def IsToken (type : Text) : Prop :=
  ∀ behind, StartsBlank behind → splitToken (type ++ behind) = (type, behind)

/-- The scan loses nothing: the type and what is left make up the text, at every depth. -/
theorem append_of_scanToken (depth : Int) (passed : Passed) (text : Text) :
    (scanToken depth passed text).1 ++ (scanToken depth passed text).2 = text := by
  fun_induction scanToken depth passed text with
  | case1 => rfl
  | case2 depth c rest blank type behind found inductionHypothesis =>
    rw [found] at inductionHypothesis
    exact congrArg (c :: ·) inductionHypothesis
  | case3 => rfl
  | case4 depth passed c rest blank notColon inside type behind found inductionHypothesis =>
    rw [found] at inductionHypothesis
    exact congrArg (c :: ·) inductionHypothesis
  | case5 depth passed c rest visible after next type behind found inductionHypothesis =>
    rw [found] at inductionHypothesis
    exact congrArg (c :: ·) inductionHypothesis

/-- What is left behind the type starts with a blank, or nothing is left. The scan stops nowhere
else. -/
theorem startsBlank_of_scanToken (depth : Int) (passed : Passed) (text : Text) :
    StartsBlank (scanToken depth passed text).2 := by
  fun_induction scanToken depth passed text with
  | case1 => exact startsBlank_nil
  | case2 depth c rest blank type behind found inductionHypothesis =>
    rwa [found] at inductionHypothesis
  | case3 depth passed c rest blank =>
    intro first same
    obtain rfl := Option.some.inj same
    exact blank
  | case4 depth passed c rest blank notColon inside type behind found inductionHypothesis =>
    rwa [found] at inductionHypothesis
  | case5 depth passed c rest visible after next type behind found inductionHypothesis =>
    rwa [found] at inductionHypothesis

/-- A text is its type and what is left behind that. -/
theorem append_splitToken (text : Text) : (splitToken text).1 ++ (splitToken text).2 = text :=
  append_of_scanToken 0 .other text

/-- What is left behind the type at the start of a text starts with a blank. -/
theorem startsBlank_splitToken (text : Text) : StartsBlank (splitToken text).2 :=
  startsBlank_of_scanToken 0 .other text

/-- Where the scan stops before the end, it stops in front of every blank. What is left may be
exchanged for any other text that starts with one. -/
theorem scanToken_append (depth : Int) (passed : Passed) (text : Text)
    (stopped : (scanToken depth passed text).2 ≠ []) (other : Text) (apart : StartsBlank other) :
    scanToken depth passed ((scanToken depth passed text).1 ++ other) =
      ((scanToken depth passed text).1, other) := by
  fun_induction scanToken depth passed text with
  | case1 => contradiction
  | case2 depth c rest blank type behind found inductionHypothesis =>
    rw [found] at inductionHypothesis
    have same := inductionHypothesis stopped
    simp only [List.cons_append, scanToken, blank, if_true, same]
  | case3 depth passed c rest blank notColon outside =>
    cases other with
    | nil => rfl
    | cons d others =>
      have blankOther : isBlank d := apart d rfl
      simp only [List.nil_append, scanToken, blankOther, if_true, if_neg notColon, if_pos outside]
  | case4 depth passed c rest blank notColon inside type behind found inductionHypothesis =>
    rw [found] at inductionHypothesis
    have same := inductionHypothesis stopped
    simp only [List.cons_append, scanToken, blank, if_true, if_neg notColon, if_neg inside, same]
  | case5 depth passed c rest visible after next type behind found inductionHypothesis =>
    rw [found] at inductionHypothesis
    have same := inductionHypothesis stopped
    simp only [List.cons_append, scanToken, if_neg visible]
    exact congrArg (fun both => (c :: both.1, both.2)) same

/-- Behind the colon of a result, or within brackets, the scan does not stop at once: it takes
the blank that it meets there. -/
theorem scanToken_ne_nil (depth : Int) (passed : Passed) (text : Text)
    (held : passed = .resultColon ∨ 0 < depth) (stopped : (scanToken depth passed text).2 ≠ []) :
    (scanToken depth passed text).1 ≠ [] := by
  cases text with
  | nil => contradiction
  | cons c rest =>
    rw [scanToken]
    split
    · split
      · exact List.cons_ne_nil _ _
      · rename_i notColon
        have inside : ¬ depth ≤ 0 := by
          rcases held with colon | inside
          · exact absurd colon notColon
          · omega
        rw [if_neg inside]
        exact List.cons_ne_nil _ _
    · exact List.cons_ne_nil _ _

/-- The last character before a stop is not blank, since a blank that is taken into the type lets
the next one pass as well. -/
theorem endsVisible_of_scanToken (depth : Int) (passed : Passed) (text : Text)
    (stopped : (scanToken depth passed text).2 ≠ []) :
    EndsVisible (scanToken depth passed text).1 := by
  fun_induction scanToken depth passed text with
  | case1 => contradiction
  | case2 depth c rest blank type behind found inductionHypothesis =>
    have something := scanToken_ne_nil depth .resultColon rest (.inl rfl) (found ▸ stopped)
    rw [found] at inductionHypothesis something
    exact endsVisible_cons something (inductionHypothesis stopped)
  | case3 => simp [EndsVisible]
  | case4 depth passed c rest blank notColon inside type behind found inductionHypothesis =>
    have something := scanToken_ne_nil depth .other rest (.inr (Int.lt_of_not_ge inside))
      (found ▸ stopped)
    rw [found] at inductionHypothesis something
    exact endsVisible_cons something (inductionHypothesis stopped)
  | case5 depth passed c rest visible after next type behind found inductionHypothesis =>
    rw [found] at inductionHypothesis
    cases type with
    | nil => simpa [EndsVisible] using visible
    | cons d others => exact endsVisible_cons (List.cons_ne_nil _ _) (inductionHypothesis stopped)

/-- A text without surrounding blanks is its type and what is left, and neither is surrounded by
blanks of its own: the type is trimmed, and it is cut off again in front of every blank unless it
is the whole text. The exception is real, for brackets that stay open take in what follows. -/
theorem splitToken_exact {text : Text} (trimmed : trim text = text) :
    (splitToken text).1 ++ (splitToken text).2 = text ∧ StartsBlank (splitToken text).2 ∧
      trim (splitToken text).1 = (splitToken text).1 ∧
      (splitToken text = (text, []) ∨ IsToken (splitToken text).1) := by
  have whole := append_splitToken text
  refine ⟨whole, startsBlank_splitToken text, ?_⟩
  by_cases ended : (splitToken text).2 = []
  · have entire : (splitToken text).1 = text := by rwa [ended, List.append_nil] at whole
    exact ⟨by rw [entire, trimmed], .inl (Prod.ext entire ended)⟩
  · have starts : StartsVisible (splitToken text).1 := by
      have startsWhole := (trim_eq_self_iff.mp trimmed).1
      rw [← whole] at startsWhole
      exact startsVisible_of_append startsWhole
    exact ⟨trim_eq_self_iff.mpr ⟨starts, endsVisible_of_scanToken 0 .other text ended⟩,
      .inr (scanToken_append 0 .other text ended)⟩

/-- Only an empty text has an empty type at its start, unless a blank starts the text. -/
theorem eq_nil_of_splitToken {text : Text} (starts : StartsVisible text)
    (empty : (splitToken text).1 = []) : text = [] := by
  have whole := append_splitToken text
  have apart := startsBlank_splitToken text
  rw [empty, List.nil_append] at whole
  rw [whole] at apart
  cases text with
  | nil => rfl
  | cons c rest =>
    have visible := startsVisible_cons.mp starts
    rw [apart c rfl] at visible
    contradiction

/-- What is left behind the type ends where the text ends, so where the text is trimmed only the
blanks in front of it need trimming. -/
theorem trimStart_splitToken {text : Text} (trimmed : trim text = text) :
    trimStart (splitToken text).2 = trim (splitToken text).2 :=
  trimStart_eq_trim (endsVisible_of_isSuffix ⟨_, append_splitToken text⟩ trimmed)

/-- The type and the trimmed rest, joined by a space, are cut apart where the space is. This
makes one space out of the blanks between them and changes nothing else. -/
theorem splitToken_spaced {text : Text} (trimmed : trim text = text) :
    splitToken (spaced [(splitToken text).1, trim (splitToken text).2]) =
      ((splitToken text).1, behindSpace (trim (splitToken text).2)) := by
  obtain ⟨-, -, -, entire | cutOff⟩ := splitToken_exact trimmed
  · have alone : spaced [text, trim []] = text := by
      cases text with
      | nil => rfl
      | cons c rest => exact (spaced_cons (List.cons_ne_nil c rest) [[]]).trans (List.append_nil _)
    rw [entire]
    change splitToken (spaced [text, trim []]) = (text, [])
    rw [alone, entire]
  · by_cases empty : (splitToken text).1 = []
    · obtain rfl := eq_nil_of_splitToken (trim_eq_self_iff.mp trimmed).1 empty
      rfl
    · rw [spaced_cons empty, spaced_singleton]
      exact cutOff _ (startsBlank_behindSpace _)

end DocComment.TypeExpr
