import DocComment.Proofs.TypeExpr.Skeleton

/-!
# Nested brackets

Brackets are nested when each one that opens is closed by its own kind, in the reverse of the
order in which they were opened. The scans of a signature do not look that closely: one counts
brackets of all kinds alike, one counts parentheses only. On nested text every one of these
counts returns to where it began, so that no scan that starts in front of such a text is
misled by it.
-/
namespace DocComment.Brackets

/-- The bracket that closes what another one opens. It is meant for opening brackets, and any
other character is given a bracket without meaning. -/
def closing (c : Char) : Char :=
  if c = '<' then '>' else if c = '\x7b' then '\x7d' else if c = '(' then ')' else ']'

/-- Brackets close in the order that is expected, each kind by its own, until none is expected
any more. Outside all brackets only those characters stand that are free to; inside, every
character may stand. -/
inductive Nested (free : Char → Prop) : List Char → Text → Prop
  | ended : Nested free [] []
  | opened {expected : List Char} {c : Char} {rest : Text} (opening : opens c)
      (inside : Nested free (closing c :: expected) rest) : Nested free expected (c :: rest)
  | closed {expected : List Char} {c : Char} {rest : Text} (closing : closes c)
      (behind : Nested free expected rest) : Nested free (c :: expected) (c :: rest)
  | other {expected : List Char} {c : Char} {rest : Text} (unopened : opens c = false)
      (unclosed : closes c = false) (allowed : expected = [] → free c)
      (behind : Nested free expected rest) : Nested free expected (c :: rest)

/-- Every character may stand outside the brackets. -/
abbrev Anywhere (_ : Char) : Prop := True

/-- Every character but a comma may stand outside the brackets, as in one argument of a list. -/
abbrev NotComma (c : Char) : Prop := c ≠ ','

/-- Every character but a blank may stand outside the brackets, as in a type that is one word. -/
abbrev NotBlank (c : Char) : Prop := Text.isBlank c = false

variable {free : Char → Prop}

/-- No character both opens and closes, so the cases of nesting exclude each other. -/
theorem closes_eq_false_of_opens {c : Char} (opening : opens c) : closes c = false := by
  simp only [opens, Bool.or_eq_true, beq_iff_eq] at opening
  rcases opening with ((rfl | rfl) | rfl) | rfl <;> rfl

/-- The same, seen from the closing bracket. -/
theorem opens_eq_false_of_closes {c : Char} (closing : closes c) : opens c = false := by
  cases opening : opens c with
  | false => rfl
  | true => simp [closes_eq_false_of_opens opening] at closing

/-- Only a parenthesis is closed by a parenthesis. The scan that counts parentheses alone thus
counts those among the expected brackets. -/
theorem closing_eq_parenthesis {c : Char} (opening : opens c) : closing c = ')' ↔ c = '(' := by
  simp only [opens, Bool.or_eq_true, beq_iff_eq] at opening
  rcases opening with ((rfl | rfl) | rfl) | rfl <;> decide

/-- Whether brackets are nested is decided by reading the text once. -/
instance decidableNested [DecidablePred free] :
    (expected : List Char) → (text : Text) → Decidable (Nested free expected text)
  | [], [] => .isTrue .ended
  | _ :: _, [] => .isFalse nofun
  | expected, c :: rest =>
    if opening : opens c then
      have := decidableNested (closing c :: expected) rest
      decidable_of_iff (Nested free (closing c :: expected) rest)
        ⟨.opened opening, fun nested => by
          cases nested with
          | opened _ inside => exact inside
          | closed closing _ => simp [closes_eq_false_of_opens opening] at closing
          | other unopened _ _ _ => simp [opening] at unopened⟩
    else if closing : closes c then
      match expected with
      | [] => .isFalse fun nested => by
          cases nested with
          | opened opens' _ => exact opening opens'
          | other _ unclosed _ _ => simp [closing] at unclosed
      | next :: outer =>
        have := decidableNested outer rest
        decidable_of_iff (next = c ∧ Nested free outer rest)
          ⟨fun ⟨same, behind⟩ => by subst same; exact .closed closing behind, fun nested => by
            cases nested with
            | opened opens' _ => exact absurd opens' opening
            | closed _ behind => exact ⟨rfl, behind⟩
            | other _ unclosed _ _ => simp [closing] at unclosed⟩
    else
      have := decidableNested expected rest
      decidable_of_iff ((expected = [] → free c) ∧ Nested free expected rest)
        ⟨fun ⟨allowed, behind⟩ => .other (by simpa using opening) (by simpa using closing)
          allowed behind, fun nested => by
          cases nested with
          | opened opens' _ => exact absurd opens' opening
          | closed closing' _ => exact absurd closing' closing
          | other _ _ allowed behind => exact ⟨allowed, behind⟩⟩

/-- Nested texts join to a nested text. The second one expects nothing, so it stands outside of
all brackets of the first. -/
theorem Nested.append {expected : List Char} {text behind : Text}
    (nested : Nested free expected text) (follows : Nested free [] behind) :
    Nested free expected (text ++ behind) := by
  induction nested with
  | ended => exact follows
  | opened opening _ inductionHypothesis => exact .opened opening inductionHypothesis
  | closed closing _ inductionHypothesis => exact .closed closing inductionHypothesis
  | other unopened unclosed allowed _ inductionHypothesis =>
    exact .other unopened unclosed allowed inductionHypothesis

/-- A text without brackets is nested if its characters are free to stand. -/
theorem nested_of_plain {text : Text}
    (plain : ∀ c ∈ text, opens c = false ∧ closes c = false ∧ free c) : Nested free [] text := by
  induction text with
  | nil => exact .ended
  | cons c rest inductionHypothesis =>
    obtain ⟨unopened, unclosed, allowed⟩ := plain c List.mem_cons_self
    exact .other unopened unclosed (fun _ => allowed)
      (inductionHypothesis fun d member => plain d (List.mem_cons_of_mem c member))

/-- What may stand outside the brackets may also stand where everything may. So each of the
stricter kinds of nesting gives the plain one. -/
theorem Nested.anywhere {expected : List Char} {text : Text}
    (nested : Nested free expected text) : Nested Anywhere expected text := by
  induction nested with
  | ended => exact .ended
  | opened opening _ inductionHypothesis => exact .opened opening inductionHypothesis
  | closed closing _ inductionHypothesis => exact .closed closing inductionHypothesis
  | other unopened unclosed _ _ inductionHypothesis =>
    exact .other unopened unclosed (fun _ => trivial) inductionHypothesis

/-- The signed depth that is counted over all kinds of brackets is the number of brackets that
are expected. A bracket that opens adds one to both. -/
theorem step_of_opens {c : Char} (opening : opens c) (expected : List Char) :
    (expected.length : Int) + step c = ((closing c :: expected).length : Nat) := by
  simp [step, opening]

/-- A bracket that closes takes one from both. -/
theorem step_of_closes {c : Char} (closing : closes c) (expected : List Char) :
    ((c :: expected).length : Int) + step c = (expected.length : Nat) := by
  simp only [step, opens_eq_false_of_closes closing, Bool.false_eq_true, if_false, closing,
    if_true, List.length_cons]
  omega

/-- Any other character leaves both as they are. -/
theorem step_of_other {c : Char} (unopened : opens c = false) (unclosed : closes c = false)
    (depth : Int) : depth + step c = depth := by
  simp [step, unopened, unclosed]

/-- Where as many brackets are closed as are expected and were opened, the text before that place
is nested by itself. A nested text can be cut there, at every place of depth zero. -/
theorem Nested.front {expected : List Char} {text behind : Text}
    (nested : Nested free expected (text ++ behind))
    (balanced : (expected.length : Int) + depth text = 0) : Nested free expected text := by
  induction text generalizing expected with
  | nil =>
    obtain rfl : expected = [] := by simpa using balanced
    exact .ended
  | cons c rest inductionHypothesis =>
    rw [depth_cons, ← Int.add_assoc] at balanced
    cases nested with
    | opened opening inside =>
      rw [step_of_opens opening] at balanced
      exact .opened opening (inductionHypothesis inside balanced)
    | closed closing behind =>
      rw [step_of_closes closing] at balanced
      exact .closed closing (inductionHypothesis behind balanced)
    | other unopened unclosed allowed behind =>
      rw [step_of_other unopened unclosed] at balanced
      exact .other unopened unclosed allowed (inductionHypothesis behind balanced)

/-- Nested brackets lead back to the depth in front of what they were expected to close. For a
text that expects nothing, the depth is the same on both sides of it. -/
theorem Nested.depth_eq {expected : List Char} {text : Text}
    (nested : Nested free expected text) : (expected.length : Int) + depth text = 0 := by
  induction nested with
  | ended => rfl
  | opened opening _ inductionHypothesis =>
    rwa [depth_cons, ← Int.add_assoc, step_of_opens opening]
  | closed closing _ inductionHypothesis =>
    rwa [depth_cons, ← Int.add_assoc, step_of_closes closing]
  | other unopened unclosed _ _ inductionHypothesis =>
    rwa [depth_cons, ← Int.add_assoc, step_of_other unopened unclosed]

/-- A character that is not free to stand outside the brackets stands within some. So each of the
scans that count the depth passes it by. -/
theorem Nested.depth_pos {expected : List Char} {before behind : Text} {c : Char}
    (nested : Nested free expected (before ++ c :: behind)) (plain : separates c = false)
    (bound : ¬ free c) : 0 < (expected.length : Int) + depth before := by
  simp only [separates, Bool.or_eq_false_iff] at plain
  induction before generalizing expected with
  | nil =>
    cases nested with
    | opened opening _ => simp [plain.1.1] at opening
    | closed closing _ => simp [plain.1.2] at closing
    | other _ _ allowed _ =>
      have expects := List.length_pos_iff.mpr (mt allowed bound)
      rw [depth_nil]
      omega
  | cons d rest inductionHypothesis =>
    rw [depth_cons, ← Int.add_assoc]
    cases nested with
    | opened opening inside =>
      rw [step_of_opens opening]
      exact inductionHypothesis inside
    | closed closing behind =>
      rw [step_of_closes closing]
      exact inductionHypothesis behind
    | other unopened unclosed _ behind =>
      rw [step_of_other unopened unclosed]
      exact inductionHypothesis behind

/-- Without a comma outside its brackets a nested text is whole. The depth in front of it is the
number of brackets that are expected. -/
theorem Nested.whole {expected : List Char} {text : Text}
    (nested : Nested NotComma expected text) : Whole expected.length text := by
  induction nested with
  | ended => trivial
  | @opened expected c rest opening _ inductionHypothesis =>
    have comma : c ≠ ',' := by rintro rfl; contradiction
    exact ⟨by simp [comma], by rwa [step_of_opens opening]⟩
  | @closed expected c rest closing _ inductionHypothesis =>
    have comma : c ≠ ',' := by rintro rfl; contradiction
    exact ⟨by simp [comma], by rwa [step_of_closes closing]⟩
  | @other expected c rest unopened unclosed allowed _ inductionHypothesis =>
    refine ⟨?_, by rwa [step_of_other unopened unclosed]⟩
    rintro ⟨comma, outside⟩
    exact allowed (by simpa using outside) comma

/-- A nested text closes the parentheses that it opens. Other brackets between them are expected
in order, and this keeps the parentheses in order too. -/
theorem Nested.closes {expected : List Char} {text : Text} (nested : Nested free expected text) :
    Closes (expected.count ')') text := by
  induction nested with
  | ended => rfl
  | @opened expected c rest opening _ inductionHypothesis =>
    have unclosed : c ≠ ')' := by rintro rfl; contradiction
    have counted : (closing c :: expected).count ')' =
        if c = '(' then expected.count ')' + 1 else expected.count ')' := by
      by_cases parenthesis : c = '('
      · subst parenthesis
        simp [closing]
      · have kind := mt (closing_eq_parenthesis opening).mp parenthesis
        simp [parenthesis, kind]
    refine ⟨by simp [unclosed], ?_⟩
    rwa [if_neg unclosed, ← counted]
  | @closed expected c rest closing _ inductionHypothesis =>
    have unopened : c ≠ '(' := by rintro rfl; contradiction
    by_cases parenthesis : c = ')'
    · subst parenthesis
      exact ⟨by simp, by simpa using inductionHypothesis⟩
    · exact ⟨by simp [parenthesis],
        by simpa [unopened, parenthesis, List.count_cons_of_ne parenthesis] using
          inductionHypothesis⟩
  | @other expected c rest unopened unclosed allowed _ inductionHypothesis =>
    have opening : c ≠ '(' := by rintro rfl; contradiction
    have closing : c ≠ ')' := by rintro rfl; contradiction
    exact ⟨by simp [closing], by simpa [opening, closing] using inductionHypothesis⟩

end DocComment.Brackets
