import DocComment.Proofs.Text.Words
import DocComment.Text.Octets

/-!
# The words in front of a place

A scan that looks back from a place in a text at the words in front of it sees the same from
the corresponding place in every text with the same words, however these are set apart: each
visible character belongs to a word, and what precedes it is the words before that one and the
beginning of its own.
-/
namespace DocComment.Text

/-- What holds of the two sides of every place in a text holds however the text is split. A text
has finitely many places, so a condition on all of its splits can be decided through this law. -/
theorem forall_splits (text : Text) (property : Text → Text → Prop)
    (everywhere : ∀ count ≤ text.length, property (text.take count) (text.drop count)) :
    ∀ before behind, text = before ++ behind → property before behind := by
  rintro before behind rfl
  have here := everywhere before.length (by simp)
  rwa [List.take_left, List.drop_left] at here

/-- The last character is blank, if there is one. This is how a text may stand in front of a
word: with a blank at its end, or empty. -/
def EndsBlank (text : Text) : Prop := ∀ c ∈ text.getLast?, isBlank c

/-- Blanks end with a blank, or are none. -/
theorem endsBlank_of_blanks {blanks : Text} (blank : ∀ c ∈ blanks, isBlank c) :
    EndsBlank blanks :=
  fun c last => blank c (List.mem_of_getLast? last)

/-- A text ends where its last part ends, if that part is not empty. -/
theorem endsBlank_append (before : Text) {behind : Text} (something : behind ≠ [])
    (ends : EndsBlank behind) : EndsBlank (before ++ behind) := by
  have last := List.getLast?_eq_some_getLast something
  intro c final
  rw [List.getLast?_append, last] at final
  obtain rfl : behind.getLast something = c := by simpa using final
  exact ends _ last

/-- A text ends with the space behind it. -/
theorem endsBlank_space (text : Text) : EndsBlank (text ++ [' ']) :=
  endsBlank_append text (by simp) (endsBlank_of_blanks fun c member => by
    obtain rfl := List.mem_singleton.mp member
    decide)

/-- Every text ends in a last word, which may be empty. In front of it the text ends with a blank
or is empty, so that the word is as long as it can be. -/
theorem exists_lastWord (text : Text) :
    ∃ before word, text = before ++ word ∧ Visible word ∧ EndsBlank before := by
  obtain ⟨visible, starts, whole⟩ := span_exact text.reverse
  refine ⟨(text.reverse.span fun c => !isBlank c).2.reverse,
    (text.reverse.span fun c => !isBlank c).1.reverse, ?_, ?_, ?_⟩
  · rw [← List.reverse_append, whole, List.reverse_reverse]
  · intro c member
    exact visible c (List.mem_reverse.mp member)
  · rwa [EndsBlank, List.getLast?_reverse]

/-- Words behind a text that ends with a blank stay as they are. It is the law for a text that
starts with a blank, seen from the other side. -/
theorem words_append_of_endsBlank {before : Text} (apart : EndsBlank before) (behind : Text) :
    words (before ++ behind) = words before ++ words behind := by
  cases last : before.getLast? with
  | none =>
    rw [List.getLast?_eq_none_iff.mp last]
    simp
  | some c =>
    obtain ⟨front, rfl⟩ := List.getLast?_eq_some_iff.mp last
    have blank := apart c last
    rw [List.append_assoc, List.singleton_append, words_append_cons blank,
      words_append_cons blank, words_nil, List.append_nil]

/-- Blanks in front of a text belong to no word, however many there are. -/
theorem words_blanks_append {blanks : Text} (blank : ∀ c ∈ blanks, isBlank c) (text : Text) :
    words (blanks ++ text) = words text := by
  rw [words_append_of_endsBlank (endsBlank_of_blanks blank), words_blanks blank, List.nil_append]

/-- A text begins with its first word, behind blanks, and has the others behind that. So a
statement about words becomes one about the text itself. -/
theorem exists_of_words_cons {text word : Text} {others : List Text}
    (found : words text = word :: others) :
    ∃ blanks rest, text = blanks ++ (word ++ rest) ∧ (∀ c ∈ blanks, isBlank c) ∧
      StartsBlank rest ∧ words rest = others := by
  have something : trimStart text ≠ [] := by
    intro empty
    rw [← words_trimStart, empty] at found
    simp at found
  have starts := trimStart_eq_self_iff.mp (trimStart_trimStart text)
  obtain ⟨visible, apart, whole⟩ := span_exact (trimStart text)
  rw [List.span_eq_takeWhile_dropWhile] at visible apart whole
  have first := head?_words starts something
  have separated := words_append apart ((trimStart text).takeWhile fun c => !isBlank c)
  rw [words_trimStart, found] at first
  obtain rfl := Option.some.inj first
  have nonempty : ((trimStart text).takeWhile fun c => !isBlank c) ≠ [] :=
    (areWords_words text _ (by rw [found]; exact List.mem_cons_self)).2
  rw [whole, words_trimStart, found, words_of_visible visible nonempty] at separated
  refine ⟨text.takeWhile isBlank, _, ?_, fun c member => ?_, apart, ?_⟩
  · rw [whole]
    exact List.takeWhile_append_dropWhile.symm
  · exact List.all_eq_true.mp List.all_takeWhile c member
  · exact (List.cons.inj separated).2.symm

/-- Each word of a text stands in it between blanks, with the words before it in front and the
others behind. -/
theorem exists_of_words_append_cons {text word : Text} {passed others : List Text}
    (found : words text = passed ++ word :: others) :
    ∃ front rest, text = front ++ (word ++ rest) ∧ EndsBlank front ∧ StartsBlank rest ∧
      words front = passed ∧ words rest = others := by
  induction passed generalizing text with
  | nil =>
    obtain ⟨blanks, rest, whole, blank, apart, behind⟩ := exists_of_words_cons found
    exact ⟨blanks, rest, whole, endsBlank_of_blanks blank, apart, words_blanks blank, behind⟩
  | cons first passed inductionHypothesis =>
    have given : AreWords (first :: (passed ++ word :: others)) := by
      rw [← List.cons_append, ← found]
      exact areWords_words text
    obtain ⟨visible, something⟩ := given first List.mem_cons_self
    obtain ⟨visibleWord, nonempty⟩ := given word (by simp)
    obtain ⟨blanks, later, rfl, blank, apart, behind⟩ := exists_of_words_cons found
    obtain ⟨front, rest, rfl, ends, apartRest, before, after⟩ := inductionHypothesis behind
    -- what stands between the two words starts with a blank, which the second one does not
    have between : front ≠ [] ∧ StartsBlank front := by
      cases front with
      | nil =>
        obtain ⟨c, others, rfl⟩ := List.exists_cons_of_ne_nil nonempty
        have blankStart : isBlank c := apart c rfl
        rw [visibleWord c List.mem_cons_self] at blankStart
        contradiction
      | cons c inside => exact ⟨List.cons_ne_nil c inside, apart⟩
    refine ⟨blanks ++ (first ++ front), rest, by simp, ?_, apartRest, ?_, after⟩
    · rw [← List.append_assoc]
      exact endsBlank_append _ between.1 ends
    · rw [words_blanks_append blank, words_append between.2, words_of_visible visible something,
        before]
      rfl

/-- The words in front of a visible character are whole words, and the beginning of the word that
the character belongs to. That beginning may be empty, where the character starts its word. -/
theorem words_split {c : Char} (visible : isBlank c = false) (before behind : Text) :
    ∃ passed start rest others, words before = passed ++ words start ∧
      words (before ++ c :: behind) = passed ++ (start ++ c :: rest) :: others := by
  obtain ⟨front, start, rfl, visibleStart, apartFront⟩ := exists_lastWord before
  obtain ⟨visibleRest, apart, whole⟩ := span_exact behind
  generalize (behind.span fun c => !isBlank c).1 = rest at *
  generalize (behind.span fun c => !isBlank c).2 = tail at *
  have word : Visible (start ++ c :: rest) := by
    intro d member
    rcases List.mem_append.mp member with inside | later
    · exact visibleStart d inside
    · exact visibleRest.cons visible d later
  refine ⟨words front, start, rest, words tail, words_append_of_endsBlank apartFront start, ?_⟩
  have joined : front ++ start ++ c :: behind = front ++ ((start ++ c :: rest) ++ tail) := by
    simp [← whole]
  rw [joined, words_append_of_endsBlank apartFront, words_append apart,
    words_of_visible word (by simp), List.singleton_append]

/-- A character within a word has a place in the text. What is in front of it there has the words
in front of that word, and the beginning of the word itself. -/
theorem exists_of_words_split {text start rest : Text} {c : Char} {passed others : List Text}
    (same : words text = passed ++ (start ++ c :: rest) :: others) :
    ∃ before behind, text = before ++ c :: behind ∧ words before = passed ++ words start := by
  induction passed generalizing text with
  | nil =>
    obtain ⟨blanks, behind, rfl, blank, -, -⟩ := exists_of_words_cons same
    refine ⟨blanks ++ start, rest ++ behind, by simp, ?_⟩
    exact words_blanks_append blank start
  | cons word passed inductionHypothesis =>
    obtain ⟨blanks, behind, rfl, blank, apart, later⟩ := exists_of_words_cons same
    obtain ⟨before, after, rfl, found⟩ := inductionHypothesis later
    have apartBefore : StartsBlank before := by
      cases before with
      | nil => exact startsBlank_nil
      | cons d others => exact apart
    have given := areWords_words (blanks ++ (word ++ (before ++ c :: after)))
    rw [same, List.cons_append] at given
    obtain ⟨visible, something⟩ := given word List.mem_cons_self
    refine ⟨blanks ++ (word ++ before), after, by simp, ?_⟩
    rw [words_blanks_append blank, words_append apartBefore, words_of_visible visible something,
      found]
    rfl

/-- Where texts have the same words, a visible character of the one has the same words in front
of it in the other. A scan that stops at a visible character and looks at words only thus stops
there in both. -/
theorem exists_split_of_words {text before behind : Text} {c : Char} (visible : isBlank c = false)
    (same : words text = words (before ++ c :: behind)) :
    ∃ front rest, text = front ++ c :: rest ∧ words front = words before := by
  obtain ⟨passed, start, rest, others, found, split⟩ := words_split visible before behind
  rw [split] at same
  rw [found]
  exact exists_of_words_split same

/-- A text that goes on behind a word and the next one has that word in the same place. The next
one may become longer, the word itself cannot. -/
theorem exists_words_of_isPrefix {head text word next : Text} {passed others : List Text}
    (front : head <+: text) (found : words head = passed ++ word :: next :: others) :
    ∃ behind, words text = passed ++ word :: behind := by
  obtain ⟨more, rfl⟩ := front
  obtain ⟨before, rest, rfl, ends, apart, passedWords, later⟩ := exists_of_words_append_cons found
  have apartRest : StartsBlank (rest ++ more) := by
    cases rest with
    | nil => simp at later
    | cons c rest => exact apart
  obtain ⟨visible, something⟩ := areWords_words (before ++ (word ++ rest)) word
    (by rw [found]; simp)
  refine ⟨words (rest ++ more), ?_⟩
  rw [List.append_assoc, List.append_assoc, words_append_of_endsBlank ends, words_append apartRest,
    words_of_visible visible something, passedWords]
  rfl

/-- A text that goes on behind two words begins with the first of them. -/
theorem head?_words_of_isPrefix {head text first second : Text} {others : List Text}
    (front : head <+: text) (found : words head = first :: second :: others) :
    (words text).head? = some first := by
  obtain ⟨behind, whole⟩ := exists_words_of_isPrefix front
    (show words head = [] ++ first :: second :: others from found)
  rw [whole]
  rfl

/-- A part of one word has not two, for a blank between them would be in the word. -/
theorem words_ne_of_isPrefix {head word first second : Text} {others : List Text}
    (visible : Visible word) (front : head <+: word) : words head ≠ first :: second :: others := by
  intro found
  have something : head ≠ [] := by
    rintro rfl
    simp at found
  have inside : Visible head := fun c member => visible c (front.mem member)
  rw [words_of_visible inside something] at found
  simp at found

/-! The last word -/

/-- A visible word behind a blank, or alone, is the last one. The word may be empty, where the
text ends with a blank. -/
theorem lastWord_append {before word : Text} (visible : Visible word)
    (apart : EndsBlank before) : lastWord (before ++ word) = (before, word) := by
  have turned : (before ++ word).reverse = word.reverse ++ before.reverse := List.reverse_append
  have starts : StartsBlank before.reverse := by rwa [StartsBlank, List.head?_reverse]
  have visibleTurned : Visible word.reverse := fun c member =>
    visible c (List.mem_reverse.mp member)
  have cut := span_visible visibleTurned starts
  rw [List.span_eq_takeWhile_dropWhile, Prod.mk.injEq] at cut
  simp only [lastWord, turned, cut.1, List.reverse_reverse, List.length_append,
    Nat.add_sub_cancel, List.take_left]

/-- The word that a text ends with, apart from blanks. It is what a scan sees in front of a
parenthesis. -/
def wordBefore (text : Text) : Text := (lastWord (trimEnd text)).2

/-- A text that ends visibly has a last word at its end, which is not empty, and its words are
those in front of it and this one. -/
theorem exists_lastWord_of_endsVisible {text : Text} (something : text ≠ [])
    (ends : EndsVisible text) :
    ∃ before word, text = before ++ word ∧ Visible word ∧ word ≠ [] ∧ EndsBlank before ∧
      words text = words before ++ [word] := by
  obtain ⟨before, word, rfl, visible, apart⟩ := exists_lastWord text
  have nonempty : word ≠ [] := by
    rintro rfl
    rw [List.append_nil] at something ends
    -- what ends with a blank and with none is empty
    have last := List.getLast?_eq_some_getLast something
    have blank := apart _ last
    rw [ends _ last] at blank
    contradiction
  refine ⟨before, word, rfl, visible, nonempty, apart, ?_⟩
  rw [words_append_of_endsBlank apart, words_of_visible visible nonempty]

/-- The word at the end of a text is the last one of its words, and empty if it has none. So
blanks around words change nothing for a scan that looks back at one. -/
theorem wordBefore_eq (text : Text) : wordBefore text = (words text).getLast?.getD [] := by
  rw [wordBefore, ← words_trimEnd]
  by_cases empty : trimEnd text = []
  · rw [empty]
    rfl
  · obtain ⟨before, word, split, visible, -, apart, found⟩ :=
      exists_lastWord_of_endsVisible empty (trimEnd_eq_self_iff.mp (trimEnd_trimEnd text))
    rw [found, split, lastWord_append visible apart, List.getLast?_concat]
    rfl

end DocComment.Text
