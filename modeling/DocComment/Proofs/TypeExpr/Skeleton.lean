import DocComment.Proofs.Text.Places
import DocComment.TypeExpr.Brackets

/-!
# Brackets and commas alone

The scans that cut a parameter list look at nothing but brackets and commas: one counts the
brackets to find the commas outside of them, one counts parentheses to find where the list
closes. What stands in between may be written otherwise, with other blanks or without marks,
and every cut stays where it was. Brackets need not match for that.
-/
namespace DocComment.Brackets

open Text

/-- The brackets and commas: the characters that the scans of a parameter list look at. -/
def separates (c : Char) : Bool := opens c || closes c || c == ','

/-- What is left of a text when all but its brackets and commas is taken out. Two texts with one
skeleton are cut alike by every scan for commas or for the closing parenthesis. -/
def skeleton (text : Text) : Text := text.filter separates

/-- What the brackets of a text add to the depth, which may be less than nothing. It is a sum,
and says nothing of the order of the brackets. -/
def depth : Text → Int
  | [] => 0
  | c :: rest => step c + depth rest

/-- An empty text adds nothing to the depth. -/
@[simp]
theorem depth_nil : depth [] = 0 := rfl

/-- The first character adds its step, and the rest adds the rest. -/
@[simp]
theorem depth_cons (c : Char) (rest : Text) : depth (c :: rest) = step c + depth rest := rfl

/-- Two texts behind each other add what each of them adds. -/
@[simp]
theorem depth_append (text behind : Text) : depth (text ++ behind) = depth text + depth behind := by
  induction text with
  | nil => rw [List.nil_append, depth_nil, Int.zero_add]
  | cons c rest inductionHypothesis =>
    rw [List.cons_append, depth_cons, depth_cons, inductionHypothesis, Int.add_assoc]

/-- The skeleton of two texts is made of theirs. -/
@[simp]
theorem skeleton_append (text behind : Text) :
    skeleton (text ++ behind) = skeleton text ++ skeleton behind :=
  List.filter_append text behind

/-- Only brackets change the depth, and a comma does not. -/
theorem step_of_not_separates {c : Char} (plain : separates c = false) : step c = 0 := by
  simp only [separates, Bool.or_eq_false_iff] at plain
  simp [step, plain.1.1, plain.1.2]

/-- A bracket or a comma is kept in the skeleton. -/
theorem skeleton_cons {c : Char} (kept : separates c) (rest : Text) :
    skeleton (c :: rest) = c :: skeleton rest :=
  List.filter_cons_of_pos kept

/-- Any other character is taken out. -/
theorem skeleton_cons_plain {c : Char} (plain : separates c = false) (rest : Text) :
    skeleton (c :: rest) = skeleton rest :=
  List.filter_cons_of_neg (by simp [plain])

/-- A text is as deep as its skeleton, for what is taken out adds nothing. -/
@[simp]
theorem depth_skeleton (text : Text) : depth (skeleton text) = depth text := by
  induction text with
  | nil => rfl
  | cons c rest inductionHypothesis =>
    cases kept : separates c with
    | true => rw [skeleton_cons kept, depth_cons, depth_cons, inductionHypothesis]
    | false =>
      rw [skeleton_cons_plain kept, depth_cons, step_of_not_separates kept, Int.zero_add,
        inductionHypothesis]

/-- Neither bracket nor comma is blank, so blanks can be trimmed without a change of the
skeleton. -/
theorem separates_of_isBlank {c : Char} (blank : isBlank c) : separates c = false := by
  by_contra kept
  simp only [separates, opens, closes, Bool.not_eq_false, Bool.or_eq_true, beq_iff_eq] at kept
  rcases kept with ((((rfl | rfl) | rfl) | rfl) | ((rfl | rfl) | rfl) | rfl) | rfl <;>
    exact absurd blank (by decide)

/-- A text of other characters has no skeleton, however long it is. -/
theorem skeleton_eq_nil {text : Text} (plain : ∀ c ∈ text, separates c = false) :
    skeleton text = [] :=
  List.filter_eq_nil_iff.mpr fun c member => by simp [plain c member]

/-- Blanks at the start of a text separate nothing. -/
@[simp]
theorem skeleton_trimStart (text : Text) : skeleton (trimStart text) = skeleton text := by
  have blanks : skeleton (text.takeWhile isBlank) = [] := skeleton_eq_nil fun c member =>
    separates_of_isBlank (List.all_eq_true.mp List.all_takeWhile c member)
  conv_rhs => rw [← List.takeWhile_append_dropWhile (p := isBlank) (l := text), skeleton_append,
    blanks, List.nil_append]
  rfl

/-- Nor do blanks at its end. -/
@[simp]
theorem skeleton_trimEnd (text : Text) : skeleton (trimEnd text) = skeleton text := by
  obtain ⟨blanks, blank, whole⟩ := trimEnd_append_blanks text
  have none : skeleton blanks = [] := skeleton_eq_nil fun c member =>
    separates_of_isBlank (blank c member)
  conv_rhs => rw [← whole, skeleton_append, none, List.append_nil]

/-- Blanks at the ends of a text separate nothing, so a piece may be trimmed before it is
scanned. -/
@[simp]
theorem skeleton_trim (text : Text) : skeleton (trim text) = skeleton text := by
  rw [trim, skeleton_trimEnd, skeleton_trimStart]

/-- Blanks add nothing to the depth, wherever they stand. -/
theorem depth_filter_visible (text : Text) :
    depth (text.filter fun c => !isBlank c) = depth text := by
  induction text with
  | nil => rfl
  | cons c rest inductionHypothesis =>
    cases blank : isBlank c with
    | false => simp [blank, inductionHypothesis]
    | true =>
      simp [blank, inductionHypothesis, step_of_not_separates (separates_of_isBlank blank)]

/-- Texts with the same words are equally deep. They may differ in any way in their blanks. -/
theorem depth_eq_of_words {text other : Text} (same : words text = words other) :
    depth text = depth other := by
  rw [← depth_filter_visible text, ← depth_filter_visible other, ← flatten_words, same,
    flatten_words]

/-! Commas -/

/-- No comma of a text stands at depth zero, counted from the depth in front of the text. A text
whose brackets go below that depth may be whole too, for there a comma separates nothing. -/
def Whole (outer : Int) : Text → Prop
  | [] => True
  | c :: rest => ¬ (c = ',' ∧ outer = 0) ∧ Whole (outer + step c) rest

/-- A text is whole exactly when its skeleton is. The depth in front may be any. -/
theorem whole_skeleton {outer : Int} {text : Text} :
    Whole outer (skeleton text) ↔ Whole outer text := by
  induction text generalizing outer with
  | nil => rfl
  | cons c rest inductionHypothesis =>
    cases kept : separates c with
    | true => rw [skeleton_cons kept, Whole, Whole, inductionHypothesis]
    | false =>
      have other : c ≠ ',' := by
        rintro rfl
        exact absurd kept (by decide)
      rw [skeleton_cons_plain kept, Whole, step_of_not_separates kept, Int.add_zero,
        inductionHypothesis]
      simp [other]

/-- Commas are split only behind a text that is whole: it becomes the front of the first piece,
and the scan goes on with the depth that it leaves. -/
theorem splitCommas_append_of_whole {outer : Int} {text : Text} (behind : Text)
    (whole : Whole outer text) :
    splitCommas outer (text ++ behind) =
      (splitCommas (outer + depth text) behind).modifyHead (text ++ ·) := by
  induction text generalizing outer with
  | nil => cases same : splitCommas outer behind <;> simp [same]
  | cons c rest inductionHypothesis =>
    rw [List.cons_append, splitCommas, if_neg whole.1, inductionHypothesis whole.2,
      List.modifyHead_modifyHead, depth_cons, Int.add_assoc]
    rfl

/-- The pieces between the commas are whole, and depth zero is reached again behind each of them
that is not the last. Nothing is assumed of the brackets; where they do not match, the pieces
tell so. -/
theorem splitCommas_pieces (outer : Int) (text : Text) :
    ∃ first others, splitCommas outer text = first :: others ∧
      [','].intercalate (first :: others) = text ∧
      Whole outer first ∧ (others ≠ [] → outer + depth first = 0) ∧
      (∀ piece ∈ others, Whole 0 piece) ∧ others.Pairwise fun piece _ => depth piece = 0 := by
  induction text generalizing outer with
  | nil => exact ⟨[], [], rfl, rfl, trivial, by simp, by simp, .nil⟩
  | cons c rest inductionHypothesis =>
    rw [splitCommas]
    split
    · rename_i comma
      obtain ⟨rfl, rfl⟩ := comma
      obtain ⟨first, others, same, joined, whole, closed, wholes, closes⟩ := inductionHypothesis 0
      refine ⟨[], first :: others, by rw [same], ?_, trivial, by simp, ?_, ?_⟩
      · rw [List.intercalate_cons_cons, joined]
        rfl
      · simpa using ⟨whole, wholes⟩
      · refine List.pairwise_cons.mpr ⟨fun next member => ?_, closes⟩
        simpa using closed (List.ne_nil_of_mem member)
    · rename_i inside
      obtain ⟨first, others, same, joined, whole, closed, wholes, closes⟩ :=
        inductionHypothesis (outer + step c)
      refine ⟨c :: first, others, by rw [same]; rfl, ?_, ⟨inside, whole⟩, ?_, wholes, closes⟩
      · rw [← joined]
        cases others <;> simp [List.intercalate_cons_cons]
      · intro more
        rw [depth_cons, ← Int.add_assoc]
        exact closed more

/-- The pieces of a text are those that commas join to it, if no piece has a comma at depth zero
of its own and every one but the last leads back to depth zero. So the cut is characterised
without the scan, and there is one such cut of every text. -/
theorem splitCommas_eq_iff {text : Text} {pieces : List Text} :
    splitCommas 0 text = pieces ↔
      pieces ≠ [] ∧ [','].intercalate pieces = text ∧ (∀ piece ∈ pieces, Whole 0 piece) ∧
        pieces.Pairwise fun piece _ => depth piece = 0 := by
  constructor
  · rintro rfl
    obtain ⟨first, others, same, joined, whole, closed, wholes, closes⟩ := splitCommas_pieces 0 text
    rw [same]
    refine ⟨List.cons_ne_nil first others, joined, List.forall_mem_cons.mpr ⟨whole, wholes⟩,
      List.pairwise_cons.mpr ⟨fun next member => ?_, closes⟩⟩
    simpa using closed (List.ne_nil_of_mem member)
  · rintro ⟨something, rfl, whole, closed⟩
    induction pieces with
    | nil => contradiction
    | cons piece others inductionHypothesis =>
      obtain ⟨first, wholes⟩ := List.forall_mem_cons.mp whole
      obtain ⟨balanced, later⟩ := List.pairwise_cons.mp closed
      cases others with
      | nil => simpa [splitCommas] using splitCommas_append_of_whole [] first
      | cons next rest =>
        have behind := inductionHypothesis (List.cons_ne_nil next rest) wholes later
        rw [List.intercalate_cons_cons, List.append_assoc, splitCommas_append_of_whole _ first,
          balanced next List.mem_cons_self, Int.zero_add, List.singleton_append, splitCommas,
          if_pos ⟨rfl, rfl⟩, behind, List.modifyHead_cons, List.append_nil]

/-- Joined by commas again, the pieces of a text are the text. No character is lost but the
commas between the pieces. -/
theorem intercalate_splitCommas (text : Text) : [','].intercalate (splitCommas 0 text) = text :=
  (splitCommas_eq_iff.mp rfl).2.1

/-! The closing parenthesis -/

/-- The parentheses of a text alone, which is all that the scan for the closing one looks at. -/
def parentheses (text : Text) : Text := text.filter fun c => c == '(' || c == ')'

/-- No parenthesis of a text closes one that was opened before it, apart from `outer` others,
which it closes all. The parentheses that it opens itself it closes too. -/
def Closes (outer : Nat) : Text → Prop
  | [] => outer = 0
  | c :: rest =>
    ¬ (c = ')' ∧ outer = 0) ∧
      Closes (if c = '(' then outer + 1 else if c = ')' then outer - 1 else outer) rest

/-- Whether a text closes what it opens is settled by its parentheses. Other brackets do not
count here, so they need not match. -/
theorem closes_parentheses {outer : Nat} {text : Text} :
    Closes outer (parentheses text) ↔ Closes outer text := by
  induction text generalizing outer with
  | nil => rfl
  | cons c rest inductionHypothesis =>
    by_cases kept : c = '(' ∨ c = ')'
    · rw [parentheses, List.filter_cons_of_pos (by simpa using kept), Closes, Closes,
        ← inductionHypothesis]
      rfl
    · obtain ⟨unopened, unclosed⟩ := not_or.mp kept
      rw [parentheses, List.filter_cons_of_neg (by simpa using kept), Closes,
        ← inductionHypothesis]
      simp [unopened, unclosed, parentheses]

/-- What stands in front of the closing parenthesis closes what it opens. With parentheses open
outside, it closes these as well. -/
theorem closes_of_splitClosing {outer : Nat} {text inside behind : Text}
    (found : splitClosing outer text = some (inside, behind)) : Closes outer inside := by
  induction text generalizing outer inside with
  | nil => contradiction
  | cons c rest inductionHypothesis =>
    rw [splitClosing] at found
    split at found
    · rename_i closing
      obtain ⟨rfl, rfl⟩ := Prod.mk.inj (Option.some.inj found)
      exact closing.2
    · rename_i other
      obtain ⟨⟨before, after⟩, cut, same⟩ := Option.map_eq_some_iff.mp found
      obtain ⟨rfl, rfl⟩ := Prod.mk.inj same
      exact ⟨other, inductionHypothesis cut⟩

/-- The closing parenthesis stands between what it is cut into, and nothing else is lost. -/
theorem append_of_splitClosing {outer : Nat} {text inside behind : Text}
    (found : splitClosing outer text = some (inside, behind)) : inside ++ ')' :: behind = text := by
  induction text generalizing outer inside with
  | nil => contradiction
  | cons c rest inductionHypothesis =>
    rw [splitClosing] at found
    split at found
    · rename_i closing
      obtain ⟨rfl, rfl⟩ := Prod.mk.inj (Option.some.inj found)
      rw [closing.1]
      rfl
    · obtain ⟨⟨before, after⟩, cut, same⟩ := Option.map_eq_some_iff.mp found
      obtain ⟨rfl, rfl⟩ := Prod.mk.inj same
      rw [List.cons_append, inductionHypothesis cut]

/-- The parenthesis behind a text that closes what it opens is the closing one, whatever follows
it. -/
theorem splitClosing_of_closes {outer : Nat} {inside : Text} (behind : Text)
    (closes : Closes outer inside) :
    splitClosing outer (inside ++ ')' :: behind) = some (inside, behind) := by
  induction inside generalizing outer with
  | nil =>
    obtain rfl : outer = 0 := closes
    rfl
  | cons c rest inductionHypothesis =>
    rw [List.cons_append, splitClosing, if_neg closes.1]
    dsimp only
    rw [inductionHypothesis closes.2]
    rfl

/-- The parentheses of a text match one another: as many close as open, and no first part of the
text closes more than it opens. Only counts are compared, and no scan is mentioned. -/
structure Balanced (text : Text) : Prop where
  even : text.count ')' = text.count '('
  opened : ∀ front, front <+: text → front.count ')' ≤ front.count '('

/-- A text has finitely many first parts, one for each length, so that its balance is decided by
counting in each of them. -/
instance (text : Text) : Decidable (Balanced text) :=
  decidable_of_iff
    (text.count ')' = text.count '(' ∧
      ∀ length ≤ text.length, (text.take length).count ')' ≤ (text.take length).count '(')
    ⟨fun ⟨even, every⟩ => ⟨even, fun front part => by
        have here := every front.length part.length_le
        rwa [← List.prefix_iff_eq_take.mp part] at here⟩,
      fun ⟨even, opened⟩ => ⟨even, fun length _ => opened _ (List.take_prefix length text)⟩⟩

/-- A first part is empty or begins with the first character. This is the step for statements
about all first parts of a text. -/
theorem forall_isPrefix_cons {property : Text → Prop} {c : Char} {rest : Text} :
    (∀ front, front <+: c :: rest → property front) ↔
      property [] ∧ ∀ front, front <+: rest → property (c :: front) := by
  constructor
  · intro every
    exact ⟨every [] List.nil_prefix,
      fun front part => every (c :: front) ((List.prefix_cons_inj c).mpr part)⟩
  · rintro ⟨none, every⟩ front part
    rcases List.prefix_cons_iff.mp part with rfl | ⟨behind, rfl, later⟩
    · exact none
    · exact every behind later

/-- The parentheses open behind a character make up for what it adds to the counts. A parenthesis
that closes what is not open is excluded, for there the number of open ones cannot go down. -/
theorem add_count_cons {outer : Nat} {c : Char} (opened : ¬ (c = ')' ∧ outer = 0)) (text : Text) :
    (if c = '(' then outer + 1 else if c = ')' then outer - 1 else outer) + text.count '(' +
        (c :: text).count ')' =
      outer + (c :: text).count '(' + text.count ')' := by
  by_cases opening : c = '('
  · subst opening
    simp
    omega
  · by_cases closing : c = ')'
    · subst closing
      have positive : outer ≠ 0 := fun none => opened ⟨rfl, none⟩
      simp
      omega
    · simp [opening, closing]

/-- Whether every parenthesis finds one to close is settled by counting the two kinds in the
first parts of the text. The induction leaves the number of open parentheses free. -/
theorem closes_iff {outer : Nat} {text : Text} :
    Closes outer text ↔
      text.count ')' = outer + text.count '(' ∧
        ∀ front, front <+: text → front.count ')' ≤ outer + front.count '(' := by
  induction text generalizing outer with
  | nil => simp [Closes, eq_comm]
  | cons c rest inductionHypothesis =>
    rw [Closes, inductionHypothesis, forall_isPrefix_cons]
    by_cases unopened : c = ')' ∧ outer = 0
    · -- the parenthesis by itself is a first part that closes more than it opens
      obtain ⟨rfl, rfl⟩ := unopened
      refine iff_of_false (fun both => both.1 ⟨rfl, rfl⟩) fun both => ?_
      exact absurd (both.2.2 [] List.nil_prefix) (by decide)
    · have none : List.count ')' [] ≤ outer + List.count '(' [] := Nat.zero_le _
      rw [and_iff_right unopened, and_iff_right none]
      refine and_congr ?_ (forall₂_congr fun front _ => ?_)
      · have counts := add_count_cons unopened rest
        omega
      · have counts := add_count_cons unopened front
        omega

/-- A text closes what it opens, and nothing else, exactly if it is balanced. So the state of the
scan and the counts say the same. -/
theorem closes_zero_iff {text : Text} : Closes 0 text ↔ Balanced text := by
  simp only [closes_iff, Nat.zero_add]
  exact ⟨fun ⟨even, opened⟩ => ⟨even, opened⟩, fun ⟨even, opened⟩ => ⟨even, opened⟩⟩

/-- The closing parenthesis is the one behind a balanced text. There is at most one such place,
and the scan finds it wherever there is one. -/
theorem splitClosing_eq_some_iff {text inside behind : Text} :
    splitClosing 0 text = some (inside, behind) ↔
      inside ++ ')' :: behind = text ∧ Balanced inside := by
  constructor
  · intro found
    exact ⟨append_of_splitClosing found, closes_zero_iff.mp (closes_of_splitClosing found)⟩
  · rintro ⟨rfl, balanced⟩
    exact splitClosing_of_closes behind (closes_zero_iff.mpr balanced)

/-- Between pieces, what joins them adds no parenthesis. The commas between arguments are such,
with or without spaces. -/
theorem parentheses_intercalate {separator : Text} (plain : parentheses separator = [])
    (pieces : List Text) :
    parentheses (separator.intercalate pieces) = pieces.flatMap parentheses := by
  induction pieces with
  | nil => rfl
  | cons piece others inductionHypothesis =>
    cases others with
    | nil => simp
    | cons next rest =>
      rw [List.intercalate_cons_cons, List.flatMap_cons, ← inductionHypothesis]
      simp only [parentheses, List.filter_append] at plain ⊢
      rw [plain, List.append_nil]

/-- The skeleton of a text has all of its parentheses, since they are brackets. What is settled
by the parentheses is thus settled by the skeleton. -/
theorem parentheses_skeleton (text : Text) : parentheses (skeleton text) = parentheses text := by
  rw [parentheses, skeleton, List.filter_filter]
  refine List.filter_congr fun c _ => ?_
  by_cases kept : c = '(' ∨ c = ')'
  · rcases kept with rfl | rfl <;> rfl
  · simp [not_or.mp kept]

end DocComment.Brackets
