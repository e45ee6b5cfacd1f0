import DocComment.Proofs.Tag.ReadMethod

/-!
# Methods without a parameter list

A body without a parenthesis holds no parameter list to find the name by. It is cut by its words
instead: behind the mark of a static method stand a return type and a name, or the name alone, and
a description may follow. The first two words are told apart by a single blank. Where more than
one blank stands between them, the first word alone is taken for the name, and nothing of what
stands behind it is kept. Main statement: apart from such a gap every word of the body is found
again in the method, in the same order.
-/
namespace DocComment.Tag

open Text Brackets

/-- More than one blank stands behind the first word. The first blank is passed over, and the
character behind it is looked at; a text of one word is not set wide. -/
def SetWide (text : Text) : Prop :=
  ((text.dropWhile fun c => !isBlank c).drop 1).head?.any isBlank

/-- Only the character behind the first blank is looked at. -/
instance (text : Text) : Decidable (SetWide text) := inferInstanceAs (Decidable (_ = true))

/-! The words of a body -/

/-- What stands behind a visible word decides whether that word is set wide: the word itself has
no blank that could be counted. -/
theorem setWide_append {first behind : Text} (visible : Visible first)
    (apart : StartsBlank behind) :
    SetWide (first ++ behind) ↔ (behind.drop 1).head?.any isBlank := by
  have cut := span_visible visible apart
  rw [List.span_eq_takeWhile_dropWhile] at cut
  rw [SetWide, (Prod.mk.inj cut).2]

/-- A trimmed text is one word, or one blank sets its first two words apart, or the first word is
set wide. These are the three ways in which a method without parameters can be cut. -/
theorem exists_first_word {text : Text} (trimmed : trim text = text) (something : text ≠ []) :
    ∃ first behind, text = first ++ behind ∧ Visible first ∧ first ≠ [] ∧ StartsBlank behind ∧
      (behind = [] ∨
        (∃ c second rest, behind = c :: (second ++ rest) ∧ isBlank c ∧ Visible second ∧
          second ≠ [] ∧ StartsBlank rest) ∨
        ∃ c d rest, behind = c :: d :: rest ∧ isBlank c ∧ isBlank d) := by
  obtain ⟨starts, ends⟩ := trim_eq_self_iff.mp trimmed
  obtain ⟨visible, apart, whole⟩ := span_exact text
  generalize (text.span fun c => !isBlank c).1 = first at *
  generalize (text.span fun c => !isBlank c).2 = behind at *
  subst whole
  have nonempty : first ≠ [] := by
    rintro rfl
    obtain ⟨c, rest, rfl⟩ := List.exists_cons_of_ne_nil something
    have blank : isBlank c := apart c rfl
    rw [startsVisible_cons.mp starts] at blank
    contradiction
  refine ⟨first, behind, rfl, visible, nonempty, apart, ?_⟩
  rcases behind with _ | ⟨c, _ | ⟨d, rest⟩⟩
  · exact .inl rfl
  · -- a blank does not end a trimmed text
    have blank : isBlank c := apart c rfl
    rw [ends c (by simp)] at blank
    contradiction
  · have blank : isBlank c := apart c rfl
    cases next : isBlank d with
    | true => exact .inr (.inr ⟨c, d, rest, rfl, blank, next⟩)
    | false =>
      obtain ⟨visibleRest, apartRest, whole⟩ := span_exact rest
      refine .inr (.inl ⟨c, d :: (rest.span fun c => !isBlank c).1,
        (rest.span fun c => !isBlank c).2, ?_, blank, visibleRest.cons next,
        List.cons_ne_nil _ _, apartRest⟩)
      rw [List.cons_append, whole]

/-- Behind the mark stand all words but the mark itself, so the mark is a word of its own. -/
theorem words_splitStatic (text : Text) :
    words text = (if (splitStatic text).1 then ["static".toList] else []) ++
      words (splitStatic text).2 := by
  rw [splitStatic]
  split
  · rename_i behind found
    split
    · rename_i blank
      have apart : StartsBlank behind := by
        intro c first
        rw [Option.mem_def.mp first] at blank
        exact blank
      have mark : words "static".toList = ["static".toList] := by decide
      rw [← List.append_eq_of_isPrefixOf?_eq_some found, words_append apart, mark,
        words_trimStart]
      rfl
    · rfl
  · rfl

/-- What stands behind the mark of a trimmed text is trimmed: the blanks in front of it go with
the mark, and it ends as the text does. -/
theorem trim_splitStatic {text : Text} (trimmed : trim text = text) :
    trim (splitStatic text).2 = (splitStatic text).2 := by
  have starts := (trim_eq_self_iff.mp trimmed).1
  have ends := endsVisible_of_isSuffix (splitStatic_isSuffix text) trimmed
  refine trim_eq_self_iff.mpr ⟨?_, ends⟩
  rw [splitStatic]
  split
  · split
    · exact trimStart_eq_self_iff.mp (trimStart_trimStart _)
    · exact starts
  · exact starts

/-! The cut -/

/-- A word alone, or set wide, is the whole head, and nothing is left for a description. So the
words behind a wide gap are neither in the head nor anywhere else. -/
theorem Signature.withoutParameters_one {first behind : Text} (visible : Visible first)
    (apart : StartsBlank behind) (wide : StartsBlank (behind.drop 1)) :
    Signature.withoutParameters (first ++ behind) = .ok ⟨first, none, []⟩ := by
  have next : ((behind.drop 1).takeWhile fun c => !isBlank c) = [] := by
    cases same : behind.drop 1 with
    | nil => rfl
    | cons c rest =>
      have blank : isBlank c := wide c (by rw [same]; rfl)
      simp [blank]
  rw [Signature.withoutParameters, span_visible visible apart]
  dsimp only
  rw [if_pos next]

/-- A text without a parenthesis is cut by its words: no name can be announced and no parameter
list can open. -/
theorem Signature.ofText_of_notMem {body text : Text} (narrow : Narrow text)
    (listless : '(' ∉ text) : Signature.ofText body text = Signature.withoutParameters text := by
  have unopened : Unopened 0 [] text := by
    rintro before after rfl
    exact absurd (by simp) listless
  have opened := openParameters_append [] [] narrow unopened
  rw [List.append_nil] at opened
  rw [Signature.ofText, opened]
  rfl

/-- A method is read from a body without a parenthesis by the words behind the mark. The two
scans for parentheses do nothing, and the building of the method is the rest. -/
theorem steps_of_read_listless {body : Text} {tag : Tag} (narrow : Narrow body)
    (listless : '(' ∉ body) (done : readMethod body = .ok tag) :
    ∃ signature method, Signature.withoutParameters (splitStatic body).2 = .ok signature ∧
      Method.ofSignature body (splitStatic body).1 signature = .ok method ∧
      tag = ofMethod method := by
  obtain ⟨kept, signature, method, skipped, cutOff, made, rfl⟩ := steps_of_readMethod done
  have last := splitStatic_isSuffix body
  have unlisted : '(' ∉ (splitStatic body).2 := mt last.mem listless
  have unannounced : Unannounced ([] : Text).reverse (splitStatic body).2 := by
    intro before behind split
    exact absurd (by rw [split]; simp) unlisted
  obtain rfl : (splitStatic body).2 = kept :=
    Except.ok.inj ((skipName_eq unannounced).symm.trans skipped)
  rw [Signature.ofText_of_notMem (narrow.of_subset last.subset) unlisted] at cutOff
  exact ⟨signature, method, cutOff, made, rfl⟩

/-! The words of the method -/

/-- The words of a text that is cut behind its second word are those of the method: the return
type, the name and the words of the description, in this order. -/
theorem words_of_two {body first second rest : Text} {isStatic : Bool} {c : Char} {method : Method}
    (visible : Visible first) (nonempty : first ≠ []) (blank : isBlank c)
    (visibleSecond : Visible second) (something : second ≠ []) (apart : StartsBlank rest)
    (made : Method.ofSignature body isStatic ⟨first ++ c :: second, none, trim rest⟩ =
      .ok method) :
    method.returnType.text = first ∧
      words (first ++ c :: (second ++ rest)) =
        first :: method.name :: words method.description := by
  obtain ⟨-, described, typeWords, parts⟩ := madeOf_of_ofSignature made
  have firstWords := words_of_visible visible nonempty
  have secondWords := words_of_visible visibleSecond something
  have headWords : words (first ++ c :: second) = [first, second] := by
    rw [words_append_cons blank, firstWords, secondWords]
    rfl
  obtain ⟨typed, rfl⟩ := parts.two headWords
  have returned : first = method.returnType.text := by
    have joined := parts.words_returnType.2.1
    rw [typed] at joined
    simpa using joined
  refine ⟨returned.symm, ?_⟩
  rw [words_append_cons blank, words_append apart, firstWords, secondWords, described, words_trim,
    words_trim]
  rfl

/-- A head of one word is the name of a method without a return type. Its description is empty,
since nothing is left for it. -/
theorem parts_of_one {body first : Text} {isStatic : Bool} {method : Method}
    (visible : Visible first) (nonempty : first ≠ [])
    (made : Method.ofSignature body isStatic ⟨first, none, []⟩ = .ok method) :
    method.name = first ∧ method.returnType = .void ∧ method.description = [] := by
  obtain ⟨-, described, typeWords, parts⟩ := madeOf_of_ofSignature made
  have headWords := parts.words_head
  rw [words_of_visible visible nonempty, ← List.nil_append [first]] at headWords
  obtain ⟨rfl, named⟩ := List.append_inj' headWords.symm rfl
  exact ⟨(List.cons.inj named).1, parts.returnType, described⟩

/-- A method that is read from a body without a parenthesis has all words of that body in their
order, if its first word is not set wide: `static` if it applies, a return type of one word if
there is one, the name and the words of the description. If it is set wide, that word is the
name, and all words behind it are lost. -/
theorem words_of_read_listless {body : Text} {tag : Tag} (narrow : Narrow body)
    (listless : '(' ∉ body) (done : read TagName.method.text body = .ok tag) :
    ∃ method, tag = ofMethod method ∧
      (¬ SetWide (splitStatic (trim body)).2 →
        ∃ given : Option Text, method.returnType.text = given.getD TypeExpr.void.text ∧
          words body = (if method.isStatic then ["static".toList] else []) ++
            (given.toList ++ method.name :: words method.description)) ∧
      (SetWide (splitStatic (trim body)).2 →
        method.returnType = .void ∧ method.description = [] ∧
          ∃ lost, lost ≠ [] ∧
            words body = (if method.isStatic then ["static".toList] else []) ++
              method.name :: lost) := by
  rw [read_method] at done
  obtain ⟨signature, method, cut, made, rfl⟩ := steps_of_read_listless
    (fun c member => narrow c (mem_of_mem_trim member)) (mt mem_of_mem_trim listless) done
  obtain ⟨mark, -, typeWords, parts⟩ := madeOf_of_ofSignature made
  have trimmed := trim_splitStatic (trim_trim body)
  have bodyWords := words_splitStatic (trim body)
  have narrowText : Narrow (splitStatic (trim body)).2 := fun c member =>
    narrow c (mem_of_mem_trim ((splitStatic_isSuffix _).mem member))
  rw [words_trim, ← mark] at bodyWords
  rw [bodyWords]
  refine ⟨method, rfl, ?_⟩
  generalize (splitStatic (trim body)).2 = text at *
  have something : text ≠ [] := by
    rintro rfl
    obtain rfl := Except.ok.inj cut
    exact absurd parts.words_head (by simp)
  obtain ⟨first, behind, rfl, visible, nonempty, apart, shape⟩ :=
    exists_first_word trimmed something
  rw [setWide_append visible apart]
  rcases shape with rfl | ⟨c, second, rest, rfl, blank, visibleSecond, nonemptySecond, apartRest⟩ |
    ⟨c, d, rest, rfl, blank, blankNext⟩
  · -- one word: the name
    rw [Signature.withoutParameters_one visible apart startsBlank_nil] at cut
    obtain rfl := Except.ok.inj cut
    obtain ⟨rfl, returned, described⟩ := parts_of_one visible nonempty made
    refine ⟨fun _ => ⟨none, by rw [returned]; rfl, ?_⟩, nofun⟩
    rw [List.append_nil, words_of_visible visible nonempty, described, words_nil]
    rfl
  · -- two words and a description
    have narrowBlank : c.utf8Size = 1 := narrowText c (by simp) blank
    rw [Signature.withoutParameters_two visible blank narrowBlank visibleSecond nonemptySecond
      apartRest] at cut
    obtain rfl := Except.ok.inj cut
    obtain ⟨returned, split⟩ :=
      words_of_two visible nonempty blank visibleSecond nonemptySecond apartRest made
    refine ⟨fun _ => ⟨some first, returned, by rw [split]; rfl⟩, fun wide => ?_⟩
    obtain ⟨d, others, rfl⟩ := List.exists_cons_of_ne_nil nonemptySecond
    have blankNext : isBlank d := by simpa using wide
    rw [visibleSecond d List.mem_cons_self] at blankNext
    contradiction
  · -- a word that is set wide
    have startsNext : StartsBlank (d :: rest) := by simpa [StartsBlank] using blankNext
    rw [Signature.withoutParameters_one visible apart startsNext] at cut
    obtain rfl := Except.ok.inj cut
    obtain ⟨rfl, returned, described⟩ := parts_of_one visible nonempty made
    refine ⟨fun single => absurd (by simpa using blankNext) single, fun _ =>
      ⟨returned, described, words (c :: d :: rest), fun wordless => ?_, ?_⟩⟩
    · have ends := endsVisible_of_append method.name (trim_eq_self_iff.mp trimmed).2
      have last := List.getLast?_eq_some_getLast (List.cons_ne_nil c (d :: rest))
      exact words_ne_nil (List.mem_of_getLast? last) (ends _ last) wordless
    · rw [words_append apart, words_of_visible visible nonempty]
      rfl

/-- A static method with a return type, and blanks of several kinds and lengths elsewhere: behind
the mark, behind the name and inside the description. -/
theorem words_of_read_listless_static :
    let body := " static \t array<int>\nfirst  the  first one".toList
    Narrow body ∧ '(' ∉ body ∧ ¬ SetWide (splitStatic (trim body)).2 ∧
      ∃ method, read TagName.method.text body = .ok (ofMethod method) ∧
        ∃ given : Option Text, method.returnType.text = given.getD TypeExpr.void.text ∧
          words body = (if method.isStatic then ["static".toList] else []) ++
            (given.toList ++ method.name :: words method.description) := by
  intro body
  have narrow : Narrow body := by decide +kernel
  have listless : '(' ∉ body := by decide +kernel
  have single : ¬ SetWide (splitStatic (trim body)).2 := by decide +kernel
  obtain ⟨tag, done⟩ : ∃ tag, read TagName.method.text body = .ok tag := ⟨_, rfl⟩
  obtain ⟨method, rfl, kept, -⟩ := words_of_read_listless narrow listless done
  exact ⟨narrow, listless, single, method, done, kept single⟩

/-- A method of which nothing but the name is known: it returns `void` and has no arguments. -/
def nameAlone : Method where
  name := "int".toList
  arguments := []
  returnType := .void
  isStatic := false
  description := []
  named := by decide
  typed := by decide
  trimmed := trim_nil

/-- Two spaces behind the first word make it the name, and the words behind it are lost. With one
space it would be the return type. -/
theorem wide_gap_loses_words :
    let body := "int  count of all".toList
    Narrow body ∧ '(' ∉ body ∧ read TagName.method.text body = .ok (ofMethod nameAlone) ∧
      ∀ given : Option Text,
        words body ≠ (if nameAlone.isStatic then ["static".toList] else []) ++
          (given.toList ++ nameAlone.name :: words nameAlone.description) := by
  intro body
  refine ⟨by decide +kernel, by decide +kernel, by decide +kernel, fun given same => ?_⟩
  have four : (words body).length = 4 := by decide +kernel
  rw [same] at four
  cases given <;> simp [nameAlone] at four

end DocComment.Tag
