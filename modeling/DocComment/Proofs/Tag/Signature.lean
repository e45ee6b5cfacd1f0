import DocComment.Proofs.Text.Classes
import DocComment.Proofs.Text.Places
import DocComment.Proofs.TypeExpr.Nested
import DocComment.Tag.Signature
import Mathlib.Data.List.Basic

/-!
# The scans of a signature

Four scans find their way through the body of a method before its parts are read: one takes
`static` off the front, one drops a name that only announces the signature, one looks for the
parenthesis that opens the parameter list, one for the parenthesis that closes it. Each law
below names what a scan passes over; that of the last scan is a law of brackets. The second
and the third scan step over blanks by one octet, so that they are exact only where every
blank is that narrow.
-/
namespace DocComment.Tag

open Text Brackets

/-- Every blank takes one octet. The scan for the last word steps over a blank by one octet, so
this is what keeps it between characters. -/
def Narrow (text : Text) : Prop := ∀ c ∈ text, isBlank c → c.utf8Size = 1

/-- The blanks of a text are gone through one by one. -/
instance (text : Text) : Decidable (Narrow text) :=
  List.decidableBAll (fun c => isBlank c → c.utf8Size = 1) text

/-- Narrow blanks stay narrow in what is left of a text, in whatever order it stands there. -/
theorem Narrow.of_subset {text part : Text} (narrow : Narrow text) (inside : part ⊆ text) :
    Narrow part :=
  fun c member => narrow c (inside member)

/-- Narrow blanks stay narrow in a first part of a text, such as the part that a scan has
passed. -/
theorem narrow_front {before behind : Text} (narrow : Narrow (before ++ behind)) : Narrow before :=
  narrow.of_subset (List.subset_append_left before behind)

/-- Narrow blanks stay narrow while a scan moves on by a character: it goes from the rest to what
was passed, and the text is still the same. -/
theorem narrow_cons {passed rest : Text} {c : Char}
    (narrow : Narrow (passed.reverse ++ c :: rest)) : Narrow ((c :: passed).reverse ++ rest) := by
  rwa [List.reverse_cons, List.append_assoc, List.singleton_append]

/-- A space and a visible word add no wide blank, as a space is a blank of one octet. -/
theorem narrow_spaced {text word : Text} (narrow : Narrow text) (visible : Visible word) :
    Narrow (text ++ ' ' :: word) := by
  intro c member blank
  rcases List.mem_append.mp member with front | behind
  · exact narrow c front blank
  · rcases List.mem_cons.mp behind with rfl | inside
    · rfl
    · rw [visible c inside] at blank
      contradiction

/-- Words joined by spaces have no wide blank between them, and none within. -/
theorem narrow_intercalate {texts : List Text} (given : AreWords texts) :
    Narrow ([' '].intercalate texts) := by
  induction texts with
  | nil => exact fun c member => absurd member List.not_mem_nil
  | cons word others inductionHypothesis =>
    have plain : Narrow word := fun c member blank => by
      rw [(given word List.mem_cons_self).1 c member] at blank
      contradiction
    cases others with
    | nil => simpa using plain
    | cons next rest =>
      intro c member
      rw [List.intercalate_cons_cons] at member
      rcases List.mem_append.mp member with front | behind
      · rcases List.mem_append.mp front with inside | space
        · exact plain c inside
        · obtain rfl := List.mem_singleton.mp space
          exact fun _ => rfl
      · exact inductionHypothesis given.tail c behind

/-- Where all blanks are narrow, stepping over one of them by an octet is exact. The cut then
falls between two characters and is the cut in front of the last word. -/
theorem lastWordByOctet_of_narrow {text : Text} (narrow : Narrow text) :
    lastWordByOctet text = some (lastWord text) := by
  obtain ⟨before, word, rfl, visible, apart⟩ := exists_lastWord text
  rw [lastWordByOctet, lastWord_append visible apart]
  dsimp only
  split
  · rfl
  · rename_i blank last
    have inside : blank ∈ before ++ word := List.mem_append_left word (List.mem_of_getLast? last)
    rw [if_pos (narrow blank inside (apart blank last))]

/-! The static mark -/

/-- The mark is taken off with the blanks behind it. The text that follows must start visibly, or
its blanks would go too. -/
theorem splitStatic_static {text : Text} (starts : StartsVisible text) :
    splitStatic ("static ".toList ++ text) = (true, text) := by
  have cut : splitStatic ("static ".toList ++ text) = (true, trimStart (' ' :: text)) := rfl
  have spaceless : trimStart (' ' :: text) = trimStart text := rfl
  rw [cut, spaceless, trimStart_eq_self_iff.mpr starts]

/-- A text whose first word is another one is left as it is; a longer word that begins like the
mark is another word. -/
theorem splitStatic_of_words {text : Text} (other : (words text).head? ≠ some "static".toList) :
    splitStatic text = (false, text) := by
  rw [splitStatic]
  split
  · rename_i behind found
    split
    · rename_i blank
      have whole := List.append_eq_of_isPrefixOf?_eq_some found
      have visible : Visible "static".toList := fun c member =>
        isBlank_of_isWordCharacter (List.all_eq_true.mp (by decide) c member)
      have apart : StartsBlank behind := by
        intro c first
        rw [Option.mem_def.mp first] at blank
        exact blank
      have first := words_visible_append visible (by decide) apart
      rw [whole] at first
      exact absurd first other
    · rfl
  · rfl

/-! Announced names -/

/-- No signature follows behind an empty parameter list: there is no blank behind it, or the next
word has no parenthesis inside it. -/
def NoSignature (behind : Text) : Prop :=
  behind.head?.any isBlank → ∀ word ∈ (words behind).head?, '(' ∉ word ∨ word.head? = some '('

/-- A name is skipped only in front of a signature, whatever the name is. -/
theorem isSkippedName_eq_false {behind : Text} (unannounced : NoSignature behind) (name : Text) :
    isSkippedName name behind = false := by
  cases skipped : isSkippedName name behind with
  | false => rfl
  | true =>
    simp only [isSkippedName, Bool.and_eq_true, List.contains_iff_mem, decide_eq_true_eq] at skipped
    obtain ⟨⟨⟨-, blank⟩, inside⟩, first⟩ := skipped
    have something : trimStart behind ≠ [] := by
      intro empty
      simp [empty] at inside
    have starts := trimStart_eq_self_iff.mp (trimStart_trimStart behind)
    have next := head?_words starts something
    rw [words_trimStart] at next
    rcases unannounced blank _ next with outside | opening
    · exact absurd inside outside
    · exact absurd opening first

/-- No empty parameter list of a text announces a signature: in front of each stands a word that
is not skipped. `front` precedes the text. -/
def Unannounced (front text : Text) : Prop :=
  ∀ before behind, text = before ++ '(' :: ')' :: behind →
    ∃ start name, lastWordByOctet (front ++ before) = some (start, name) ∧
      isSkippedName name behind = false

/-- Where all blanks are narrow, a name is announced by what stands behind it. So it is enough to
know that no signature follows behind any empty list. -/
theorem unannounced_of_narrow {text : Text} (narrow : Narrow text)
    (unannounced : ∀ before behind, text = before ++ '(' :: ')' :: behind → NoSignature behind) :
    Unannounced [] text := by
  rintro before behind rfl
  exact ⟨_, _, lastWordByOctet_of_narrow (narrow_front narrow),
    isSkippedName_eq_false (unannounced before behind rfl) _⟩

/-- The empty parameter lists of a text announce no signature, neither within the text nor in
what stands behind it. `front` precedes the text. -/
def PassedOver (front text behind : Text) : Prop :=
  ∀ before inside, text = before ++ '(' :: ')' :: inside →
    ∃ start name, lastWordByOctet (front ++ before) = some (start, name) ∧
      isSkippedName name (inside ++ behind) = false

/-- The scan moves on by a character that begins no empty parameter list, or one behind a name
that is not skipped. In the second case the list is passed in two steps. -/
theorem skipName_cons {c : Char} {passed rest : Text}
    (kept : ∀ behind, c = '(' → rest = ')' :: behind →
      ∃ start name, lastWordByOctet passed.reverse = some (start, name) ∧
        isSkippedName name behind = false) :
    skipName passed (c :: rest) = skipName (c :: passed) rest := by
  by_cases list : ∃ behind, c = '(' ∧ rest = ')' :: behind
  · obtain ⟨behind, rfl, rfl⟩ := list
    obtain ⟨start, name, found, unskipped⟩ := kept behind rfl rfl
    have closing : skipName ('(' :: passed) (')' :: behind) =
        skipName (')' :: '(' :: passed) behind := by
      rw [skipName]
      exact fun _ parenthesis => absurd parenthesis (by decide)
    rw [closing, skipName, found]
    exact if_neg (by simp [unskipped])
  · rw [skipName]
    exact fun behind parenthesis closing => list ⟨behind, parenthesis, closing⟩

/-- The scan passes over a text whose empty parameter lists announce no signature. A parenthesis
at its end must not become a list with what follows. -/
theorem skipName_passed {text behind : Text} (passed : Text) (apart : behind.head? ≠ some ')')
    (kept : PassedOver passed.reverse text behind) :
    skipName passed (text ++ behind) = skipName (text.reverse ++ passed) behind := by
  induction text generalizing passed with
  | nil => rfl
  | cons c rest inductionHypothesis =>
    have here : ∀ inside, c = '(' → rest ++ behind = ')' :: inside →
        ∃ start name, lastWordByOctet passed.reverse = some (start, name) ∧
          isSkippedName name inside = false := by
      rintro inside rfl closing
      cases rest with
      | nil => exact absurd (congrArg List.head? closing) apart
      | cons d others =>
        obtain ⟨rfl, rfl⟩ := List.cons.inj closing
        simpa using kept [] others rfl
    have later : PassedOver (c :: passed).reverse rest behind := by
      intro before inside same
      simpa using kept (c :: before) inside (by rw [same]; rfl)
    rw [List.cons_append, skipName_cons here, inductionHypothesis (c :: passed) later,
      List.reverse_cons, List.append_assoc]
    rfl

/-- No name is skipped in a text in which no empty parameter list announces a signature: the scan
gives back what it has passed and the whole of the text. -/
theorem skipName_eq {passed text : Text} (unannounced : Unannounced passed.reverse text) :
    skipName passed text = .ok (passed.reverse ++ text) := by
  have kept : PassedOver passed.reverse text [] := by
    intro before inside same
    rw [List.append_nil]
    exact unannounced before inside same
  have whole := skipName_passed passed (by simp) kept
  rw [List.append_nil, skipName, List.reverse_append, List.reverse_reverse] at whole
  exact whole

/-! The parameter list -/

/-- A parenthesis behind this text belongs to a type: nothing stands in front of it, or the
keyword of a callable does, which may be qualified and followed by blanks. -/
def TakesParenthesis (before : Text) : Prop :=
  before = [] ∨ isCallableWord ((lastWord (trimEnd before)).2.dropWhile (· == '\\'))

/-- The last word of the text decides it. -/
instance (before : Text) : Decidable (TakesParenthesis before) :=
  inferInstanceAs (Decidable (before = [] ∨
    isCallableWord ((lastWord (trimEnd before)).2.dropWhile (· == '\\'))))

/-- A parenthesis behind this word opens a parameter list: the word is more than backslashes and
no keyword of a callable. Backslashes in front of a keyword are passed over. -/
def OpensParameters (word : Text) : Prop :=
  word.dropWhile (· == '\\') ≠ [] ∧ isCallableWord (word.dropWhile (· == '\\')) = false

/-- What the word is behind its backslashes decides it. -/
instance (word : Text) : Decidable (OpensParameters word) :=
  inferInstanceAs (Decidable (_ ∧ _))

/-- A word of word characters opens a parameter list if it is no keyword of a callable. It has no
backslash in front that could be passed over. -/
theorem opensParameters_of_word {word : Text} (allowed : word.all isWordCharacter)
    (something : word ≠ []) (ordinary : isCallableWord word = false) : OpensParameters word := by
  have unqualified : word.dropWhile (· == '\\') = word := by
    cases word with
    | nil => rfl
    | cons c rest =>
      have part := List.all_eq_true.mp allowed c List.mem_cons_self
      simp [ne_of_isWordCharacter part '\\' (by decide)]
  rw [OpensParameters, unqualified]
  exact ⟨something, ordinary⟩

/-- A parenthesis that belongs to a type opens no parameter list; the two conditions exclude each
other. -/
theorem TakesParenthesis.not_opensParameters {before : Text} (taken : TakesParenthesis before) :
    ¬ OpensParameters (wordBefore before) := by
  rintro ⟨something, ordinary⟩
  rcases taken with rfl | callable
  · exact something rfl
  · rw [wordBefore, callable] at ordinary
    contradiction

/-- No parenthesis of a text that stands at depth zero opens a parameter list; `outer` brackets
are open in front of the text, and `front` is what precedes it. -/
def Unopened (outer : Int) (front text : Text) : Prop :=
  ∀ before after, text = before ++ '(' :: after → outer + depth before = 0 →
    ¬ OpensParameters (wordBefore (front ++ before))

/-- A text without characters has no parenthesis, at whatever depth it stands. -/
theorem unopened_nil (outer : Int) (front : Text) : Unopened outer front [] := by
  intro before after split
  simp at split

/-- One step of the scan for the parameter list: a character opens none here, and the rest opens
none at the depth behind that character. -/
theorem unopened_cons {outer : Int} {passed rest : Text} {c : Char} :
    Unopened outer passed.reverse (c :: rest) ↔
      (c = '(' → outer = 0 → ¬ OpensParameters (wordBefore passed.reverse)) ∧
        Unopened (outer + step c) (c :: passed).reverse rest := by
  have moved (before : Text) :
      passed.reverse ++ c :: before = (c :: passed).reverse ++ before := by simp
  constructor
  · intro unopened
    refine ⟨fun parenthesis outside => ?_, fun before after split balanced => ?_⟩
    · have here := unopened [] rest (by rw [parenthesis]; rfl) (by simpa using outside)
      rwa [List.append_nil] at here
    · rw [← moved]
      exact unopened (c :: before) after (by rw [split]; rfl)
        (by simpa [Int.add_assoc] using balanced)
  · rintro ⟨here, later⟩ before after split balanced
    cases before with
    | nil =>
      rw [List.append_nil]
      exact here (List.cons.inj split).1 (by simpa using balanced)
    | cons d before =>
      obtain ⟨rfl, rest⟩ := List.cons.inj split
      rw [moved]
      exact later before after rest (by simpa [Int.add_assoc] using balanced)

/-- A first part of a text opens no parameter list if the text opens none. What precedes the part
is the same. -/
theorem Unopened.front {outer : Int} {front text behind : Text}
    (unopened : Unopened outer front (text ++ behind)) : Unopened outer front text := by
  intro before after split
  exact unopened before (after ++ behind) (by rw [split]; simp)

/-- Texts with the same words agree on whether they open a parameter list. Blanks change neither
the depth of a parenthesis nor the word in front of it. -/
theorem Unopened.of_words {text other : Text} (unopened : Unopened 0 [] text)
    (same : words text = words other) : Unopened 0 [] other := by
  rintro before after rfl balanced
  obtain ⟨front, rest, rfl, found⟩ := exists_split_of_words (by decide) same
  have here := unopened front rest rfl (by rwa [depth_eq_of_words found])
  rwa [List.nil_append, wordBefore_eq, found, ← wordBefore_eq] at here

/-- One step of the scan for the parameter list, over a character that does not open it. The
blanks passed so far must be narrow, as the word in front of a parenthesis is looked at by
octets. -/
theorem openParameters_cons {outer : Int} {passed : Text} {c : Char} (rest : Text)
    (narrow : Narrow passed.reverse)
    (unopened : c = '(' → outer = 0 → ¬ OpensParameters (wordBefore passed.reverse)) :
    openParameters outer passed (c :: rest) =
      openParameters (outer + step c) (c :: passed) rest := by
  rw [openParameters]
  split
  · rename_i parenthesis
    have narrowEnd : Narrow (trimEnd passed.reverse) :=
      narrow.of_subset (trimEnd_isPrefix passed.reverse).subset
    have type := unopened parenthesis.1 parenthesis.2
    rw [OpensParameters, wordBefore, ← Bool.not_eq_true] at type
    rw [lastWordByOctet_of_narrow narrowEnd]
    exact if_neg type
  · rfl

/-- The scan for the parameter list passes over a text that opens none, and goes on behind it at
the depth that the text leaves. The induction is on the text. -/
theorem openParameters_append {outer : Int} {text : Text} (passed behind : Text)
    (narrow : Narrow (passed.reverse ++ text)) (unopened : Unopened outer passed.reverse text) :
    openParameters outer passed (text ++ behind) =
      openParameters (outer + depth text) (text.reverse ++ passed) behind := by
  induction text generalizing outer passed with
  | nil => simp
  | cons c rest inductionHypothesis =>
    obtain ⟨here, later⟩ := unopened_cons.mp unopened
    have next := inductionHypothesis (c :: passed) (narrow_cons narrow) later
    rw [List.cons_append, openParameters_cons _ (narrow_front narrow) here, next, depth_cons,
      Int.add_assoc, List.reverse_cons, List.append_assoc]
    rfl

/-- The parameter list opens behind a head whose brackets are balanced and whose last word opens
it, if no other word does. -/
theorem openParameters_head {head : Text} (behind : Text) (narrow : Narrow head)
    (unopened : Unopened 0 [] head) (balanced : depth head = 0)
    (opens : OpensParameters (wordBefore head)) :
    openParameters 0 [] (head ++ '(' :: behind) = .ok (some (head, behind)) := by
  have narrowEnd : Narrow (trimEnd head) := narrow.of_subset (trimEnd_isPrefix head).subset
  rw [openParameters_append [] _ narrow unopened, balanced, List.append_nil, Int.add_zero,
    openParameters, if_pos ⟨rfl, rfl⟩, List.reverse_reverse, lastWordByOctet_of_narrow narrowEnd]
  rw [OpensParameters, wordBefore, ← Bool.not_eq_true] at opens
  exact if_pos opens

end DocComment.Tag
