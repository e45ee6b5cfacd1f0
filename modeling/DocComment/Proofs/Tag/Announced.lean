import DocComment.Proofs.Tag.ReadSignature
import Mathlib.Data.List.Chain

/-!
# Announced names

A name with an empty parameter list may stand in front of a signature and only announce it. The
scan that takes such a name out of a text knows no signatures, however. It goes by two words that
follow each other: the first is a name with an empty parameter list, and the second has a
parenthesis inside it. Main statement: a text is left as it is exactly if no word of it announces
the next one in this way.

The scan looks back no further than to the last blank. What it does behind a blank is therefore
the same whatever stands in front of that blank, provided that no empty parameter list does.
-/
namespace DocComment.Tag

open Text Brackets

/-- A word announces the next one: it is a name with an empty parameter list, and the next word
has a parenthesis inside it. A next word that begins with the parenthesis is not announced, since
no name precedes that. -/
def Announces (word next : Text) : Prop :=
  (∃ name, word = name ++ ['(', ')'] ∧ name ≠ [] ∧ name.all isWordCharacter) ∧
    '(' ∈ next ∧ next.head? ≠ some '('

/-- Whether a word announces the next one is decided by what stands in front of its list: the
name can only be the word without its last two characters. -/
instance (word next : Text) : Decidable (Announces word next) :=
  let name := word.take (word.length - 2)
  decidable_of_iff ((word = name ++ ['(', ')'] ∧ name ≠ [] ∧ name.all isWordCharacter) ∧
      '(' ∈ next ∧ next.head? ≠ some '(') <| by
    refine and_congr_left fun _ => ⟨fun parts => ⟨name, parts⟩, ?_⟩
    rintro ⟨_, rfl, parts⟩
    simpa [name] using parts

/-- No word of a text announces the next one. Only neighbours are compared, so a name with its
list may stand anywhere as long as no call follows it at once. -/
def AnnouncesNothing (text : Text) : Prop :=
  (words text).IsChain fun word next => ¬ Announces word next

/-- The words of a text are finitely many, and each is compared with the next one. -/
instance (text : Text) : Decidable (AnnouncesNothing text) :=
  inferInstanceAs (Decidable ((words text).IsChain _))

/-! One name -/

/-- A name is skipped exactly if the word that it makes with its empty parameter list announces
the next word. The test of the scan, which looks at the text behind the list, becomes one on
words. -/
theorem isSkippedName_iff {name behind : Text} :
    isSkippedName name behind ↔
      StartsBlank behind ∧ ∃ next ∈ (words behind).head?, Announces (name ++ ['(', ')']) next := by
  have starts := trimStart_eq_self_iff.mp (trimStart_trimStart behind)
  simp only [isSkippedName, Bool.and_eq_true, List.contains_iff_mem, decide_eq_true_eq, ne_eq]
  constructor
  · rintro ⟨⟨⟨⟨named, word⟩, blank⟩, inside⟩, first⟩
    have something : trimStart behind ≠ [] := by
      intro empty
      simp [empty] at inside
    have next := head?_words starts something
    rw [words_trimStart] at next
    refine ⟨fun c here => ?_, _, next, ⟨name, rfl, named, word⟩, inside, first⟩
    rw [Option.mem_def.mp here] at blank
    exact blank
  · rintro ⟨apart, next, found, ⟨_, same, named, word⟩, inside, first⟩
    obtain rfl := List.append_cancel_right same
    have something : trimStart behind ≠ [] := by
      intro empty
      rw [← words_trimStart, empty] at found
      simp at found
    obtain rfl : (trimStart behind).takeWhile (fun c => !isBlank c) = next := by
      have firstWord := head?_words starts something
      rw [words_trimStart, Option.mem_def.mp found] at firstWord
      exact (Option.some.inj firstWord).symm
    have blank : behind.head?.any isBlank := by
      cases behind with
      | nil => contradiction
      | cons c rest => exact apart c rfl
    exact ⟨⟨⟨⟨named, word⟩, blank⟩, inside⟩, first⟩

/-- A visible name makes one word with its empty parameter list: no blank stands between the
two. -/
theorem visible_list {name : Text} (visible : Visible name) : Visible (name ++ ['(', ')']) := by
  intro c member
  rcases List.mem_append.mp member with inside | parenthesis
  · exact visible c inside
  · rcases List.mem_pair.mp parenthesis with rfl | rfl <;> rfl

/-! The scan, step by step -/

/-- The scan passes over a text without an empty parameter list. The seam matters as well: a `(`
at the end of that text must not meet a `)` at the start of the next. -/
theorem skipName_append {front behind : Text} (passed : Text)
    (listless : ¬ ['(', ')'] <:+: front) (apart : behind.head? ≠ some ')') :
    skipName passed (front ++ behind) = skipName (front.reverse ++ passed) behind := by
  refine skipName_passed passed apart fun before inside split => ?_
  exact absurd ⟨before, inside, by rw [split]; simp⟩ listless

/-- Behind a blank the last word is the same whatever stands in front of that blank. The cut by
octets moves by what has been put in front, failures included. -/
theorem lastWordByOctet_append {c : Char} (blank : isBlank c) (front rest : Text) :
    lastWordByOctet (front ++ c :: rest) =
      (lastWordByOctet (c :: rest)).map fun cut => (front ++ cut.1, cut.2) := by
  obtain ⟨before, word, split, visible, ends⟩ := exists_lastWord (c :: rest)
  have something : before ≠ [] := by
    rintro rfl
    have inside : c ∈ word := by
      rw [← List.nil_append word, ← split]
      exact List.mem_cons_self
    rw [visible c inside] at blank
    contradiction
  have last : (front ++ before).getLast? = before.getLast? := by
    rw [List.getLast?_append, List.getLast?_eq_some_getLast something]
    rfl
  rw [split, ← List.append_assoc, lastWordByOctet, lastWordByOctet, lastWord_append visible ends,
    lastWord_append visible (endsBlank_append front something ends)]
  dsimp only
  rw [last]
  split
  · rfl
  · split <;> rfl

/-- Behind a blank the scan does the same whatever it has passed in front of that blank. A name
that it takes out never reaches back over a blank. -/
theorem skipName_blank {c : Char} (blank : isBlank c) (passed inside text : Text) :
    skipName (inside ++ c :: passed) text =
      (skipName (inside ++ [c]) text).map (passed.reverse ++ ·) := by
  have turned (inside : Text) : (inside ++ c :: passed).reverse =
      passed.reverse ++ (inside ++ [c]).reverse := by simp
  have found (inside : Text) : lastWordByOctet (inside ++ c :: passed).reverse =
      (lastWordByOctet (inside ++ [c]).reverse).map
        fun cut => (passed.reverse ++ cut.1, cut.2) := by
    rw [turned, List.reverse_append]
    exact lastWordByOctet_append blank passed.reverse inside.reverse
  generalize begun : inside ++ [c] = start
  fun_induction skipName start text generalizing inside with
  | case1 start behind wide =>
    subst begun
    rw [skipName, found, wide]
    rfl
  | case2 start behind before name last skipped =>
    subst begun
    rw [skipName, found, last]
    simp [skipped, Except.map]
  | case3 start behind before name last kept inductionHypothesis =>
    subst begun
    rw [skipName, found, last]
    simp only [Option.map_some, if_neg kept]
    exact inductionHypothesis (')' :: '(' :: inside) rfl
  | case4 start d rest other inductionHypothesis =>
    subst begun
    rw [skipName]
    · exact inductionHypothesis (d :: inside) rfl
    · exact other
  | case5 start =>
    subst begun
    rw [skipName, turned]
    rfl

/-- What the scan does to a text that starts with a blank has nothing to do with what it has
passed, so a text and a description behind it can be scanned one by one. -/
theorem skipName_startsBlank {behind : Text} (starts : StartsBlank behind) (passed : Text) :
    skipName passed behind = (skipName [] behind).map (passed.reverse ++ ·) := by
  cases behind with
  | nil => simp [skipName, Except.map]
  | cons c rest =>
    have blank : isBlank c := starts c rfl
    have moved (passed : Text) : skipName passed (c :: rest) = skipName (c :: passed) rest := by
      refine skipName_cons fun behind parenthesis => ?_
      rw [parenthesis] at blank
      contradiction
    rw [moved passed, moved []]
    exact skipName_blank blank passed [] rest

/-- Where all blanks are narrow, the scan has a result. Only a wide blank in front of a name
makes it cut inside a character. -/
theorem exists_skipName {passed text : Text} (narrow : Narrow (passed.reverse ++ text)) :
    ∃ kept, skipName passed text = .ok kept := by
  fun_induction skipName passed text with
  | case1 passed behind wide =>
    rw [lastWordByOctet_of_narrow (narrow_front narrow)] at wide
    contradiction
  | case2 => exact ⟨_, rfl⟩
  | case3 passed behind before name last kept inductionHypothesis =>
    exact inductionHypothesis (narrow_cons (narrow_cons narrow))
  | case4 passed c rest other inductionHypothesis => exact inductionHypothesis (narrow_cons narrow)
  | case5 => exact ⟨_, rfl⟩

/-! Texts that are left alone -/

/-- The scan leaves a text as it is only if no empty parameter list of it announces a signature:
the first list that does would be taken out with its name, and the text would be shorter. -/
theorem unannounced_of_skipName {passed text : Text}
    (done : skipName passed text = .ok (passed.reverse ++ text)) :
    Unannounced passed.reverse text := by
  fun_induction skipName passed text with
  | case1 => contradiction
  | case2 passed behind before name last skipped =>
    -- the name that is taken out makes the text shorter
    obtain ⟨split, -⟩ := append_of_lastWord (lastWord_of_lastWordByOctet last)
    have lengths := congrArg List.length (Except.ok.inj done)
    have shorter := (List.dropWhile_suffix isBlank (l := behind)).length_le
    rw [split] at lengths
    simp only [trimStart, List.length_append, List.length_cons] at lengths
    omega
  | case3 passed behind before name last kept inductionHypothesis =>
    have later := inductionHypothesis (by rw [done]; simp)
    intro front rest split
    -- the list stands right here or behind it; it cannot begin at the closing parenthesis
    rcases front with _ | ⟨c, _ | ⟨d, others⟩⟩
    · obtain rfl : behind = rest := by simpa using split
      exact ⟨before, name, by rwa [List.append_nil], by simpa using kept⟩
    · simp at split
    · obtain ⟨rfl, rfl, within⟩ : '(' = c ∧ ')' = d ∧ behind = others ++ '(' :: ')' :: rest := by
        simpa using split
      simpa using later others rest within
  | case4 passed c text other inductionHypothesis =>
    have later := inductionHypothesis (by rw [done]; simp)
    intro front rest split
    cases front with
    | nil =>
      obtain ⟨parenthesis, closing⟩ := List.cons.inj split
      exact absurd closing (other rest parenthesis)
    | cons d others =>
      obtain ⟨rfl, within⟩ := List.cons.inj split
      simpa using later others rest within
  | case5 passed =>
    intro front rest split
    simp at split

/-- Where all blanks are narrow, no empty parameter list of a text announces a signature exactly
if no word announces the next one. The left side speaks of places in the text, the right side of
its words alone. -/
theorem unannounced_iff {text : Text} (narrow : Narrow text) :
    Unannounced [] text ↔ AnnouncesNothing text := by
  rw [AnnouncesNothing, List.isChain_iff_forall_rel_of_append_cons_cons]
  constructor
  · rintro unannounced word next passed others found announces
    obtain ⟨front, rest, rfl, ends, apart, -, behind⟩ := exists_of_words_append_cons found
    obtain ⟨⟨name, rfl, -, plain⟩, -⟩ := id announces
    obtain ⟨start, other, last, kept⟩ := unannounced (front ++ name) rest (by simp)
    have cut := lastWord_append (visible_of_isWordCharacter plain) ends
    obtain ⟨-, rfl⟩ := Prod.mk.inj ((lastWord_of_lastWordByOctet last).symm.trans cut)
    have skipped : isSkippedName other rest :=
      isSkippedName_iff.mpr ⟨apart, next, by rw [behind]; rfl, announces⟩
    rw [kept] at skipped
    contradiction
  · rintro nothing before behind rfl
    refine ⟨_, _, lastWordByOctet_of_narrow (narrow_front narrow), ?_⟩
    obtain ⟨start, name, rfl, visible, ends⟩ := exists_lastWord before
    change isSkippedName (lastWord (start ++ name)).2 behind = false
    rw [lastWord_append visible ends, ← Bool.not_eq_true, isSkippedName_iff]
    rintro ⟨apart, next, found, announces⟩
    obtain ⟨others, following⟩ := List.head?_eq_some_iff.mp found
    have joined : start ++ name ++ '(' :: ')' :: behind =
        start ++ ((name ++ ['(', ')']) ++ behind) := by simp
    have adjacent : words (start ++ name ++ '(' :: ')' :: behind) =
        words start ++ (name ++ ['(', ')']) :: next :: others := by
      rw [joined, words_append_of_endsBlank ends, words_append apart,
        words_of_visible (visible_list visible) (by simp), following]
      rfl
    exact nothing adjacent announces

/-- A text that keeps its words keeps everything, since a name that is taken out takes visible
characters with it. -/
theorem eq_of_skipName {text kept : Text} (done : skipName [] text = .ok kept)
    (same : words kept = words text) : kept = text := by
  obtain rfl | ⟨before, name, behind, whole, -, rfl, -⟩ := skipName_exact done
  · rfl
  · rw [List.reverse_nil, List.nil_append] at whole
    have characters : (before ++ trimStart behind).filter (fun c => !isBlank c) =
        text.filter fun c => !isBlank c := by
      rw [← flatten_words, same, flatten_words]
    have trimmed : (trimStart behind).filter (fun c => !isBlank c) =
        behind.filter fun c => !isBlank c := by
      rw [← flatten_words, words_trimStart, flatten_words]
    have parentheses : isBlank '(' = false ∧ isBlank ')' = false := by decide
    have lengths := congrArg List.length characters
    rw [whole] at lengths
    simp [trimmed, parentheses] at lengths
    omega

/-- Apart from blanks at its ends the scan leaves a text as it is exactly if no word of the text
announces the next one. This is the condition under which a description is stored unharmed. -/
theorem trim_of_skipName_iff {text kept : Text} (narrow : Narrow text)
    (done : skipName [] text = .ok kept) : trim kept = trim text ↔ AnnouncesNothing text := by
  rw [← unannounced_iff narrow]
  constructor
  · intro same
    have words' : words kept = words text := by rw [← words_trim kept, same, words_trim]
    obtain rfl := eq_of_skipName done words'
    exact unannounced_of_skipName done
  · intro unannounced
    have whole : skipName [] text = .ok text := skipName_eq unannounced
    rw [done] at whole
    exact congrArg trim (Except.ok.inj whole)

end DocComment.Tag
