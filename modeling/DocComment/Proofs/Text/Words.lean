import DocComment.Proofs.Text.Visible
import DocComment.Text.Fill
import DocComment.Text.Lines

/-!
# The words of a text

Words are cut at blanks, so that a text with a blank in it has the words before the blank
and the words behind it. Everything here follows from that one law: trimming, breaking
into lines, filling and joining by blanks keep the words of a text and their order.
-/
namespace DocComment.Text

/-- The words of several texts, one text after another. A word never runs on from one text to the
next. -/
def wordsOfAll (texts : List Text) : List Text := texts.flatMap words

/-- Without texts there are no words. -/
@[simp]
theorem wordsOfAll_nil : wordsOfAll [] = [] := rfl

/-- The words of a first text come before those of the others. -/
@[simp]
theorem wordsOfAll_cons (text : Text) (others : List Text) :
    wordsOfAll (text :: others) = words text ++ wordsOfAll others := rfl

/-- The words of the first texts come before those of the last ones. -/
@[simp]
theorem wordsOfAll_append (texts others : List Text) :
    wordsOfAll (texts ++ others) = wordsOfAll texts ++ wordsOfAll others :=
  List.flatMap_append

/-- An empty text has no words. -/
@[simp]
theorem words_nil : words [] = [] := by simp [words]

/-- A blank separates the words before it from those behind it, whichever blank it is and
whatever stands around it. All other laws of words rest on this one. -/
theorem words_append_cons {c : Char} (blank : isBlank c) (before behind : Text) :
    words (before ++ c :: behind) = words before ++ words behind := by
  rw [words, List.splitOnP_append_cons before behind blank, List.filter_append]
  rfl

/-- A blank at the start belongs to no word. -/
theorem words_cons {c : Char} (blank : isBlank c) (text : Text) :
    words (c :: text) = words text := by
  have separated := words_append_cons blank [] text
  rwa [words_nil, List.nil_append, List.nil_append] at separated

/-- Words in front of a text that starts with a blank stay as they are, and so do those behind.
Without a blank between, the last word of the one and the first of the other would be one. -/
theorem words_append {behind : Text} (apart : StartsBlank behind) (before : Text) :
    words (before ++ behind) = words before ++ words behind := by
  cases behind with
  | nil => simp
  | cons c rest =>
    have blank : isBlank c := apart c rfl
    rw [words_append_cons blank, words_cons blank]

/-- Blanks at the end of a text belong to no word, however many there are. -/
theorem words_append_blanks {blanks : Text} (blank : ∀ c ∈ blanks, isBlank c) (text : Text) :
    words (text ++ blanks) = words text := by
  induction blanks generalizing text with
  | nil => rw [List.append_nil]
  | cons c rest inductionHypothesis =>
    rw [words_append_cons (blank c List.mem_cons_self)]
    have none := inductionHypothesis (fun d member => blank d (List.mem_cons_of_mem c member)) []
    rw [List.nil_append, words_nil] at none
    rw [none, List.append_nil]

/-- Blanks have no words. -/
theorem words_blanks {blanks : Text} (blank : ∀ c ∈ blanks, isBlank c) : words blanks = [] := by
  simpa using words_append_blanks blank []

/-- A text without blanks is one word, unless it is empty. -/
theorem words_of_visible {text : Text} (visible : Visible text) (something : text ≠ []) :
    words text = [text] := by
  rw [words, List.splitOnP_eq_singleton visible]
  simp [something]

/-- A visible text in front of a blank is the first word. The end of the text serves as well as a
blank. -/
theorem words_visible_append {word behind : Text} (visible : Visible word) (something : word ≠ [])
    (apart : StartsBlank behind) : (words (word ++ behind)).head? = some word := by
  rw [words_append apart, words_of_visible visible something]
  rfl

/-- The first word of a text that starts visibly is what the text has in front of its first
blank. With blanks in front of it, these would have to be trimmed first. -/
theorem head?_words {text : Text} (starts : StartsVisible text) (something : text ≠ []) :
    (words text).head? = some (text.takeWhile fun c => !isBlank c) := by
  obtain ⟨visible, apart, whole⟩ := span_exact text
  rw [List.span_eq_takeWhile_dropWhile] at visible apart whole
  have nonempty : (text.takeWhile fun c => !isBlank c) ≠ [] := by
    cases text with
    | nil => contradiction
    | cons c rest => simp [startsVisible_cons.mp starts]
  have first := words_visible_append visible nonempty apart
  rwa [whole] at first

/-- Trimming the start of a text keeps its words. -/
@[simp]
theorem words_trimStart (text : Text) : words (trimStart text) = words text := by
  induction text with
  | nil => rfl
  | cons c rest inductionHypothesis =>
    cases blank : isBlank c with
    | false => simp [trimStart, blank]
    | true =>
      rw [words_cons blank, ← inductionHypothesis]
      simp [trimStart, blank]

/-- A text is what is left of it by trimming its end, and blanks. These may be none. -/
theorem trimEnd_append_blanks (text : Text) :
    ∃ blanks, (∀ c ∈ blanks, isBlank c) ∧ trimEnd text ++ blanks = text := by
  refine ⟨(text.reverse.takeWhile isBlank).reverse, ?_, ?_⟩
  · intro c member
    exact List.all_eq_true.mp List.all_takeWhile c (List.mem_reverse.mp member)
  · rw [trimEnd, ← List.reverse_append, List.takeWhile_append_dropWhile, List.reverse_reverse]

/-- Trimming the end of a text keeps its words. -/
@[simp]
theorem words_trimEnd (text : Text) : words (trimEnd text) = words text := by
  obtain ⟨blanks, blank, whole⟩ := trimEnd_append_blanks text
  have kept := words_append_blanks blank (trimEnd text)
  rw [whole] at kept
  exact kept.symm

/-- Trimming keeps the words, since it takes away nothing but blanks. -/
@[simp]
theorem words_trim (text : Text) : words (trim text) = words text := by
  rw [trim, words_trimEnd, words_trimStart]

/-- Texts joined by a blank keep their words. Any blank will do: spaces join pieces, and line
feeds join lines. -/
theorem words_intercalate {c : Char} (blank : isBlank c) (texts : List Text) :
    words ([c].intercalate texts) = wordsOfAll texts := by
  induction texts with
  | nil => rfl
  | cons text others inductionHypothesis =>
    cases others with
    | nil => simp
    | cons next rest =>
      rw [List.intercalate_cons_cons, List.append_assoc, List.singleton_append,
        words_append_cons blank, inductionHypothesis, wordsOfAll_cons text]

/-- Cutting a text at a blank keeps its words. Pieces between two such blanks may be empty, and
have no words then. -/
theorem wordsOfAll_splitOn {c : Char} (blank : isBlank c) (text : Text) :
    wordsOfAll (text.splitOn c) = words text := by
  rw [← words_intercalate blank, List.intercalate_splitOn]

/-- A space in front of a text belongs to no word. -/
theorem words_behindSpace (text : Text) : words (behindSpace text) = words text := by
  rw [behindSpace]
  split
  · rename_i empty
    rw [empty]
  · exact words_cons (by decide) text

/-- The words of a text hold its visible characters in order: nothing but blanks is lost by
taking words. -/
theorem flatten_words (text : Text) : (words text).flatten = text.filter fun c => !isBlank c := by
  rw [words, List.flatten_filter_ne_nil]
  induction text with
  | nil => simp
  | cons c rest inductionHypothesis =>
    rw [List.splitOnP_cons_eq_if_modifyHead]
    obtain ⟨first, others, same⟩ := List.exists_cons_of_ne_nil (List.splitOnP_ne_nil isBlank rest)
    rw [same] at inductionHypothesis ⊢
    cases blank : isBlank c <;> simpa [blank] using inductionHypothesis

/-- A visible character belongs to a word, so a text with one has a word. -/
theorem words_ne_nil {text : Text} {c : Char} (member : c ∈ text) (visible : isBlank c = false) :
    words text ≠ [] := by
  intro wordless
  have kept := flatten_words text
  rw [wordless, List.flatten_nil, eq_comm, List.filter_eq_nil_iff] at kept
  exact kept c member (by rw [visible]; rfl)

/-- Every text of a list is a word: it is visible and not empty. The words of a text are such,
and so are the pieces that a writer puts spaces between. -/
def AreWords (texts : List Text) : Prop := ∀ word ∈ texts, Visible word ∧ word ≠ []

/-- The words of a text are words, whatever the text. -/
theorem areWords_words (text : Text) : AreWords (words text) := by
  intro word member
  obtain ⟨piece, something⟩ := List.mem_filter.mp member
  refine ⟨fun c inside => ?_, by simpa using something⟩
  have kept := List.mem_flatten_of_mem member inside
  rw [flatten_words] at kept
  simpa using (List.mem_filter.mp kept).2

/-- The first ones of several words are words. -/
theorem AreWords.front {texts others : List Text} (given : AreWords (texts ++ others)) :
    AreWords texts :=
  fun word member => given word (List.mem_append_left others member)

/-- The words behind the first one are words. -/
theorem AreWords.tail {word : Text} {others : List Text} (given : AreWords (word :: others)) :
    AreWords others :=
  fun other member => given other (List.mem_cons_of_mem word member)

/-- Words joined by spaces are these words again. Other texts need not come back: an empty one
would be lost, and one with a blank inside would come apart. -/
theorem words_intercalate_words {texts : List Text} (given : AreWords texts) :
    words ([' '].intercalate texts) = texts := by
  rw [words_intercalate (by decide), wordsOfAll]
  induction texts with
  | nil => rfl
  | cons word others inductionHypothesis =>
    obtain ⟨visible, something⟩ := given word List.mem_cons_self
    rw [List.flatMap_cons, words_of_visible visible something, inductionHypothesis given.tail]
    rfl

/-- The first of several words that are joined by spaces ends at a blank, or at the end of the
text if it is alone. -/
theorem exists_intercalate_cons (word : Text) (others : List Text) :
    ∃ rest, [' '].intercalate (word :: others) = word ++ rest ∧ StartsBlank rest := by
  cases others with
  | nil => exact ⟨[], by simp, startsBlank_nil⟩
  | cons next others =>
    exact ⟨' ' :: [' '].intercalate (next :: others), by simp [List.intercalate_cons_cons],
      startsBlank_space _⟩

/-- Words joined by spaces are trimmed, since the first one starts and the last one ends
visibly. -/
theorem trim_intercalate_words {texts : List Text} (given : AreWords texts) :
    trim ([' '].intercalate texts) = [' '].intercalate texts := by
  have kept : texts.filter (· ≠ []) = texts :=
    List.filter_eq_self.mpr fun word member => by simpa using (given word member).2
  have trimmed := trim_spaced fun word member => (given word member).1.trim_eq
  rwa [spaced, kept] at trimmed

/-! Lines -/

/-- The lines of a text are its pieces between line feeds, apart from an empty last one. Whether
that piece is there depends on how the text ends, and no law of words needs to know. -/
theorem splitOn_eq_lines (text : Text) :
    text.splitOn '\n' = lines text ∨ text.splitOn '\n' = lines text ++ [[]] := by
  induction text with
  | nil => exact Or.inr rfl
  | cons c rest inductionHypothesis =>
    rw [List.splitOn_cons_eq_if_modifyHead, lines]
    by_cases feed : c = '\n'
    · subst c
      rcases inductionHypothesis with same | oneMore
      · exact Or.inl (by simp [same])
      · exact Or.inr (by simp [oneMore])
    · simp only [beq_iff_eq, if_neg feed]
      rcases inductionHypothesis with same | oneMore
      · have something : lines rest ≠ [] := same ▸ List.splitOn_ne_nil '\n' rest
        obtain ⟨line, others, found⟩ := List.exists_cons_of_ne_nil something
        exact Or.inl (by rw [same, found]; rfl)
      · cases found : lines rest with
        | nil => exact Or.inl (by rw [oneMore, found]; rfl)
        | cons line others => exact Or.inr (by rw [oneMore, found]; rfl)

/-- The lines of a text have its words, for a line feed is a blank. -/
@[simp]
theorem wordsOfAll_lines (text : Text) : wordsOfAll (lines text) = words text := by
  rw [← wordsOfAll_splitOn (c := '\n') (by decide)]
  rcases splitOn_eq_lines text with same | oneMore
  · rw [same]
  · rw [oneMore]
    simp

/-- So have the lines without their trailing blanks. -/
@[simp]
theorem wordsOfAll_trimmedLines (text : Text) : wordsOfAll (trimmedLines text) = words text := by
  rw [← wordsOfAll_lines, trimmedLines, wordsOfAll, wordsOfAll, List.flatMap_map]
  simp

/-- No line has a line feed in it. Together with the law before, lines are pieces of the text and
no more. -/
theorem notMem_lines (text : Text) : ∀ line ∈ lines text, '\n' ∉ line := by
  induction text with
  | nil => simp [lines]
  | cons c rest inductionHypothesis =>
    intro line member
    rw [lines] at member
    split at member
    · rcases List.mem_cons.mp member with rfl | later
      · exact List.not_mem_nil
      · exact inductionHypothesis line later
    · rename_i other
      have apart : '\n' ≠ c := fun feed => other feed.symm
      cases found : lines rest with
      | nil =>
        rw [found] at member
        simp [List.mem_singleton.mp member, apart]
      | cons first others =>
        rw [found] at member inductionHypothesis
        rcases List.mem_cons.mp member with rfl | later
        · simp [apart, inductionHypothesis first List.mem_cons_self]
        · exact inductionHypothesis line (List.mem_cons_of_mem first later)

/-- Trimming a line puts no line feed into it. -/
theorem notMem_trimmedLines (text : Text) : ∀ line ∈ trimmedLines text, '\n' ∉ line := by
  intro line member feed
  obtain ⟨whole, broken, rfl⟩ := List.mem_map.mp member
  exact notMem_lines text whole broken ((trimEnd_isPrefix whole).mem feed)

/-! Filling -/

/-- Filling replaces blanks by blanks, so the words behind a first part are those of the pieces
that were set. The column, and so the breaks, do not matter. -/
theorem words_append_fillFrom (width column : Nat) (before : Text) (rest : List Text) :
    words (before ++ fillFrom width column rest) = words before ++ wordsOfAll rest := by
  induction rest generalizing before column with
  | nil => simp [fillFrom]
  | cons word others inductionHypothesis =>
    rw [fillFrom]
    split
    · rw [words_append_cons (by decide), inductionHypothesis, wordsOfAll_cons]
    · rw [words_append_cons (by decide), inductionHypothesis, wordsOfAll_cons]

/-- A filled line keeps its words, whatever the width. -/
theorem words_filledLine (width : Nat) (line : Text) :
    words (filledLine width line) = words line := by
  rw [← wordsOfAll_splitOn (c := ' ') (by decide) line, filledLine]
  cases line.splitOn ' ' with
  | nil => rfl
  | cons word rest => exact words_append_fillFrom width word.length word rest

/-- A carriage return at the end of a line belongs to no word. -/
theorem words_dropReturn (line : Text) : words (dropReturn line) = words line := by
  rw [dropReturn]
  split
  · rename_i returned
    obtain ⟨before, rfl⟩ := List.getLast?_eq_some_iff.mp returned
    rw [List.dropLast_concat, words_append_blanks (by simp; decide)]
  · rfl

/-- A filled text keeps its words. The width decides where they are separated by line feeds, not
what they are. -/
@[simp]
theorem words_filled (text : Text) (width : Nat) : words (filled text width) = words text := by
  rw [filled, words_intercalate (by decide), ← wordsOfAll_splitOn (c := '\n') (by decide) text]
  simp only [wordsOfAll, List.flatMap_map, words_filledLine, words_dropReturn]

end DocComment.Text
