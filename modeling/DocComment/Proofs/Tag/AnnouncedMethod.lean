import DocComment.Proofs.Tag.Announced
import DocComment.Proofs.Tag.ReadMethod

/-!
# Announced methods

In front of its own name a method may be announced by another name with an empty parameter list. The
scan that takes such a name out goes through the return type first, where an empty parameter list
belongs to a callable. Main statement: an announced method is read as if it were not announced,
unless the return type ends in a callable without parameters. The scan takes that one for the
announcing name, since the word behind it has a parenthesis inside; the method is then read with its
own return type only if the announcing name makes the very word that was taken out.
-/
namespace DocComment.Tag

open Text Brackets

/-- The name of the method and all that follows it: its parameter list and its description. -/
def Method.namedPart (method : Method) : Text :=
  method.name ++ '(' :: (argumentsPart method.arguments ++ ')' :: behindSpace method.description)

/-- What a method is written as, from the return type on, with a name directly in front of its
own that announces it. -/
def Method.announced (method : Method) (announcer : Text) : Text :=
  method.returnType.text ++ ' ' :: (announcer ++ '(' :: ')' :: ' ' :: method.namedPart)

/-- What a method is written as with a name that announces it. The mark of a static method stands
in front as usual. -/
def Method.writtenBehind (method : Method) (announcer : Text) : Text :=
  method.staticPart ++ method.announced announcer

variable {method : Method} {announcer : Text}

/-- Without the announcing name it is the signature and what follows it. -/
theorem Method.unmarked_eq (method : Method) :
    method.unmarked = method.returnType.text ++ ' ' :: method.namedPart := by
  rw [Method.unmarked, Method.headPart, List.append_assoc, List.cons_append, Method.namedPart]

/-- The announcing name, its list and a space stand directly in front of the method's own name,
and nothing else is different from the method's body. -/
theorem Method.exists_writtenBehind (method : Method) (announcer : Text) :
    ∃ front, (ofMethod method).body = front ++ method.namedPart ∧
      method.writtenBehind announcer =
        front ++ (announcer ++ "() ".toList ++ method.namedPart) := by
  refine ⟨method.staticPart ++ method.returnType.text ++ [' '], ?_, ?_⟩
  · change method.written = _
    rw [Method.written_eq, Method.unmarked_eq]
    simp only [List.append_assoc, List.cons_append, List.nil_append]
  · simp [Method.writtenBehind, Method.announced]

/-- A method that may be announced: its parts nest their brackets, and its return type has no
blank behind an empty list that would announce something there. -/
structure Method.Announceable (method : Method) : Prop where
  /-- The name is one word, and it does not make a type of the parameters behind it. -/
  word : method.name.all isWordCharacter
  ordinary : isCallableWord method.name = false
  /-- The return type is made of words with one space between any two. -/
  spaced : [' '].intercalate (words method.returnType.text) = method.returnType.text
  nested : Nested Anywhere [] method.returnType.text
  /-- Every parenthesis outside the brackets of the return type belongs to a callable. -/
  onlyTypes : ∀ before after, method.returnType.text = before ++ '(' :: after →
    Nested Anywhere [] before → TakesParenthesis before
  /-- No empty parameter list within the return type stands in front of a blank. -/
  listed : ∀ before after, method.returnType.text = before ++ '(' :: ')' :: after →
    ¬ after.head?.any isBlank
  unmarked : method.isStatic = false →
    (words method.returnType.text).head? ≠ some "static".toList
  arguments : ∀ argument ∈ method.arguments, argument.WellFormed

/-- Whether a method may be announced is decided by going through the places of its return
type. -/
instance (method : Method) : Decidable method.Announceable :=
  let type := method.returnType.text
  decidable_of_iff
    (method.name.all isWordCharacter ∧ isCallableWord method.name = false ∧
      [' '].intercalate (words type) = type ∧ Nested Anywhere [] type ∧
      (∀ count ≤ type.length, (type.drop count).head? = some '(' →
        Nested Anywhere [] (type.take count) → TakesParenthesis (type.take count)) ∧
      (∀ count ≤ type.length, ['(', ')'].isPrefixOf (type.drop count) →
        ¬ ((type.drop count).drop 2).head?.any isBlank) ∧
      (method.isStatic = false → (words type).head? ≠ some "static".toList) ∧
      ∀ argument ∈ method.arguments, argument.WellFormed) <| by
    constructor
    · rintro ⟨word, ordinary, spaced, nested, types, lists, unmarked, arguments⟩
      have onlyTypes := forall_splits type (fun before behind =>
        behind.head? = some '(' → Nested Anywhere [] before → TakesParenthesis before) types
      have listed := forall_splits type (fun _ behind =>
        ['(', ')'].isPrefixOf behind → ¬ (behind.drop 2).head?.any isBlank) lists
      exact ⟨word, ordinary, spaced, nested,
        fun before after same => onlyTypes before _ same rfl,
        fun before after same => listed before _ same rfl, unmarked, arguments⟩
    · rintro ⟨word, ordinary, spaced, nested, onlyTypes, listed, unmarked, arguments⟩
      refine ⟨word, ordinary, spaced, nested, fun count _ first => ?_, fun count _ list => ?_,
        unmarked, arguments⟩
      · obtain ⟨after, here⟩ := List.head?_eq_some_iff.mp first
        exact onlyTypes _ after (by rw [← here, List.take_append_drop])
      · obtain ⟨after, here⟩ := List.isPrefixOf_iff_prefix.mp list
        have split : type = type.take count ++ '(' :: ')' :: after :=
          (List.take_append_drop count type).symm.trans (by rw [← here]; rfl)
        rw [← here]
        exact listed (type.take count) after split

/-! The scan -/

/-- A name with an empty parameter list announces every word that goes on behind another name
with a parenthesis. It must be a name of word characters, and that is all that is asked of it. -/
theorem announces_iff {name next : Text} (behind : Text) (something : next ≠ [])
    (allowed : next.all isWordCharacter) :
    Announces (name ++ ['(', ')']) (next ++ '(' :: behind) ↔
      name ≠ [] ∧ name.all isWordCharacter := by
  have first : (next ++ '(' :: behind).head? ≠ some '(' := by
    rw [List.head?_append_of_ne_nil _ something]
    intro parenthesis
    exact notMem_of_all allowed (by decide) (List.mem_of_mem_head? parenthesis)
  constructor
  · rintro ⟨⟨_, same, parts⟩, -⟩
    obtain rfl := List.append_cancel_right same
    exact parts
  · exact fun parts => ⟨⟨name, rfl, parts⟩, by simp, first⟩

/-- Such a word behind a space lets every name be skipped. This is the same fact as the scan sees
it. -/
theorem isSkippedName_space {name next : Text} (behind : Text) (something : next ≠ [])
    (allowed : next.all isWordCharacter) :
    isSkippedName name (' ' :: (next ++ '(' :: behind)) ↔
      name ≠ [] ∧ name.all isWordCharacter := by
  obtain ⟨visible, apart, whole⟩ := span_exact behind
  generalize (behind.span fun c => !isBlank c).1 = inside at *
  generalize (behind.span fun c => !isBlank c).2 = rest at *
  have visibleWord : Visible (next ++ '(' :: inside) := by
    intro c member
    rcases List.mem_append.mp member with named | later
    · exact visible_of_isWordCharacter allowed c named
    · exact visible.cons (by decide) c later
  have found : (words (' ' :: (next ++ '(' :: behind))).head? = some (next ++ '(' :: inside) := by
    have joined : next ++ '(' :: behind = (next ++ '(' :: inside) ++ rest := by simp [← whole]
    rw [words_cons (by decide), joined]
    exact words_visible_append visibleWord (by simp) apart
  rw [isSkippedName_iff, ← announces_iff inside something allowed, found]
  exact ⟨fun ⟨_, _, same, announces⟩ => Option.some.inj same ▸ announces,
    fun announces => ⟨startsBlank_space _, _, rfl, announces⟩⟩

/-- A name that is skipped is taken out with its list and the blanks behind it. The scan stands
in front of the list, with the name passed already. -/
theorem skipName_skipped {before name behind : Text} (narrow : Narrow (before ++ name))
    (visible : Visible name) (ends : EndsBlank before) (skipped : isSkippedName name behind) :
    skipName (before ++ name).reverse ('(' :: ')' :: behind) =
      .ok (before ++ trimStart behind) := by
  rw [skipName, List.reverse_reverse, lastWordByOctet_of_narrow narrow,
    lastWord_append visible ends]
  exact if_pos skipped

/-- A text without blanks behind its empty parameter lists is passed over, unless it ends in one
that announces what stands behind the text. -/
theorem passedOver_of_listed {text behind : Text} (narrow : Narrow text)
    (listed : ∀ before after, text = before ++ '(' :: ')' :: after → ¬ after.head?.any isBlank)
    (ended : ∀ before, text = before ++ ['(', ')'] →
      isSkippedName (lastWord before).2 behind = false) : PassedOver [] text behind := by
  rintro before inside rfl
  refine ⟨_, _, lastWordByOctet_of_narrow (narrow_front narrow), ?_⟩
  cases inside with
  | nil => exact ended before rfl
  | cons c rest =>
    have visible : ¬ (c :: rest ++ behind).head?.any isBlank := listed before (c :: rest) rfl
    exact isSkippedName_eq_false (fun blank => absurd blank visible) _

namespace Method.Announceable

/-- Its words are set apart by spaces, so every blank of the return type takes one octet. -/
theorem narrow (announceable : method.Announceable) : Narrow method.returnType.text := by
  rw [← announceable.spaced]
  exact narrow_intercalate (areWords_words method.returnType.text)

/-- The mark is read as it is written: the announcing name stands behind the return type and so
never comes first. -/
theorem splitStatic_writtenBehind (announceable : method.Announceable) (announcer : Text) :
    splitStatic (method.writtenBehind announcer) = (method.isStatic, method.announced announcer) :=
  splitStatic_staticPart announceable.unmarked _

/-- The name starts visibly, so the space in front of it is all that is trimmed. -/
theorem trimStart_namedPart (announceable : method.Announceable) :
    trimStart (' ' :: method.namedPart) = method.namedPart :=
  trimStart_eq_self_iff.mpr (startsVisible_append method.named.1
    (visible_of_isWordCharacter announceable.word).startsVisible)

/-- The announcing name is taken out, if the return type does not end in a list that announces
it. What is left is the signature without that name. -/
theorem skipName_announced (announceable : method.Announceable) (named : announcer ≠ [])
    (word : announcer.all isWordCharacter)
    (ended : ∀ before, method.returnType.text = before ++ ['(', ')'] →
      ¬ ((lastWord before).2 ≠ [] ∧ (lastWord before).2.all isWordCharacter)) :
    skipName [] (method.announced announcer) = .ok method.unmarked := by
  have passed : PassedOver [] method.returnType.text
      (' ' :: (announcer ++ '(' :: ')' :: ' ' :: method.namedPart)) := by
    refine passedOver_of_listed announceable.narrow announceable.listed fun before same => ?_
    rw [← Bool.not_eq_true, isSkippedName_space _ named word]
    exact ended before same
  have listless : ¬ ['(', ')'] <:+: ' ' :: announcer := by
    intro inside
    have member : '(' ∈ ' ' :: announcer := inside.mem List.mem_cons_self
    exact notMem_of_all word (by decide) (List.mem_of_ne_of_mem (by decide) member)
  have visible := visible_of_isWordCharacter word
  have narrow : Narrow (method.returnType.text ++ [' '] ++ announcer) := by
    rw [List.append_assoc]
    exact narrow_spaced announceable.narrow visible
  have turned : (' ' :: announcer).reverse ++ (method.returnType.text.reverse ++ []) =
      (method.returnType.text ++ [' '] ++ announcer).reverse := by simp
  have skipped : isSkippedName announcer (' ' :: method.namedPart) :=
    (isSkippedName_space _ method.named.1 announceable.word).mpr ⟨named, word⟩
  calc skipName [] (method.announced announcer)
      = skipName (method.returnType.text.reverse ++ [])
          ((' ' :: announcer) ++ '(' :: ')' :: ' ' :: method.namedPart) :=
        skipName_passed [] (by simp) passed
    _ = skipName (method.returnType.text ++ [' '] ++ announcer).reverse
          ('(' :: ')' :: ' ' :: method.namedPart) := by
        rw [skipName_append _ listless (by simp), turned]
    _ = .ok method.unmarked := by
        rw [skipName_skipped narrow visible (endsBlank_space _) skipped,
          announceable.trimStart_namedPart, Method.unmarked_eq, List.append_assoc]
        rfl

/-- A list at the end of the return type that announces the announcing name is taken out in its
place, together with the name in front of it. -/
theorem skipName_announced_twice (announceable : method.Announceable) {before name : Text}
    (ends : EndsBlank before) (typed : method.returnType.text = before ++ name ++ ['(', ')'])
    (something : name ≠ []) (allowed : name.all isWordCharacter) (named : announcer ≠ [])
    (word : announcer.all isWordCharacter) :
    skipName [] (method.announced announcer) =
      .ok (before ++ (announcer ++ '(' :: ')' :: ' ' :: method.namedPart)) := by
  have narrow : Narrow (before ++ name) := narrow_front (typed ▸ announceable.narrow)
  have passed : PassedOver [] (before ++ name)
      ('(' :: ')' :: ' ' :: (announcer ++ '(' :: ')' :: ' ' :: method.namedPart)) := by
    refine passedOver_of_listed narrow (fun front after split => ?_) fun _ _ =>
      isSkippedName_eq_false (fun blank => absurd blank (by simp; decide)) _
    have within := announceable.listed front (after ++ ['(', ')']) (by rw [typed, split]; simp)
    cases after with
    | nil => simp
    | cons c rest => exact within
  have skipped : isSkippedName name
      (' ' :: (announcer ++ '(' :: ')' :: ' ' :: method.namedPart)) :=
    (isSkippedName_space _ named word).mpr ⟨something, allowed⟩
  have visible := visible_of_isWordCharacter word
  have starts : trimStart (' ' :: (announcer ++ '(' :: ')' :: ' ' :: method.namedPart)) =
      announcer ++ '(' :: ')' :: ' ' :: method.namedPart :=
    trimStart_eq_self_iff.mpr (startsVisible_append named visible.startsVisible)
  calc skipName [] (method.announced announcer)
      = skipName [] ((before ++ name) ++
          '(' :: ')' :: ' ' :: (announcer ++ '(' :: ')' :: ' ' :: method.namedPart)) := by
        rw [Method.announced, typed]
        simp
    _ = skipName (before ++ name).reverse
          ('(' :: ')' :: ' ' :: (announcer ++ '(' :: ')' :: ' ' :: method.namedPart)) := by
        rw [skipName_passed [] (by simp) passed, List.append_nil]
    _ = .ok (before ++ (announcer ++ '(' :: ')' :: ' ' :: method.namedPart)) := by
        rw [skipName_skipped narrow (visible_of_isWordCharacter allowed) ends skipped, starts]

/-! What is read -/

/-- The method is read where the announcing name has been taken out, with all its parts. -/
theorem readMethod_of_announced (announceable : method.Announceable)
    (skipped : skipName [] (method.announced announcer) = .ok method.unmarked) :
    readMethod (method.writtenBehind announcer) = .ok (ofMethod method) := by
  have something : method.writtenBehind announcer ≠ [] := by
    simp [Method.writtenBehind, Method.announced]
  have allowed := isMethodNameCharacter_of_word announceable.word
  have balanced : depth method.headPart = 0 := by
    rw [depth_headPart allowed]
    simpa using announceable.nested.depth_eq
  have opened := openParameters_headPart allowed (narrow_headPart allowed announceable.narrow)
    (unopened_headPart allowed announceable.nested announceable.onlyTypes) balanced
    (opensParameters_of_word announceable.word method.named.1 announceable.ordinary)
  exact readMethod_of_skipName something (announceable.splitStatic_writtenBehind announcer)
    skipped opened
    (nested_argumentsPart announceable.arguments).closes allowed announceable.spaced
    (separable_of_wellFormed announceable.arguments)

/-- Where a name of the return type was taken out instead, the method is read only if the
announcing name is the same. Then the two lists cannot be told apart in what is left. -/
theorem eq_of_announced_twice (announceable : method.Announceable) {before name : Text}
    (ends : EndsBlank before) (typed : method.returnType.text = before ++ name ++ ['(', ')'])
    (something : name ≠ []) (allowed : name.all isWordCharacter) (named : announcer ≠ [])
    (word : announcer.all isWordCharacter)
    (done : readMethod (method.writtenBehind announcer) = .ok (ofMethod method)) :
    name = announcer := by
  obtain ⟨kept, signature, result, skipped, cutOff, built, same⟩ := steps_of_readMethod done
  obtain rfl : method = result := Content.method.inj (Tag.mk.inj same).1
  rw [announceable.splitStatic_writtenBehind,
    announceable.skipName_announced_twice ends typed something allowed named word] at skipped
  obtain rfl := Except.ok.inj skipped
  obtain ⟨-, -, typeWords, made⟩ := madeOf_of_ofSignature built
  have cut := Signature.cutFrom_ofText cutOff
  have visible := visible_list (visible_of_isWordCharacter allowed)
  have visibleAnnouncer := visible_list (visible_of_isWordCharacter word)
  have returned : words method.returnType.text = words before ++ [name ++ ['(', ')']] := by
    rw [typed, List.append_assoc, words_append_of_endsBlank ends,
      words_of_visible visible (by simp)]
  have substantial : words method.returnType.text ≠ ["void".toList] := by
    rw [returned]
    intro same
    have inside : name ++ ['(', ')'] ∈ ["void".toList] := by
      rw [← same]
      simp
    have member : '(' ∈ "void".toList := by
      rw [← List.mem_singleton.mp inside]
      simp
    exact absurd member (by decide)
  have headWords : words signature.head =
      words before ++ (name ++ ['(', ')']) :: method.name :: [] := by
    rw [made.words_head_of_ne substantial, returned, List.append_assoc]
    rfl
  obtain ⟨behind, whole⟩ := exists_words_of_isPrefix cut.front headWords
  have joined : announcer ++ '(' :: ')' :: ' ' :: method.namedPart =
      (announcer ++ ['(', ')']) ++ ' ' :: method.namedPart := by simp
  rw [words_append_of_endsBlank ends, joined, words_append (startsBlank_space _),
    words_of_visible visibleAnnouncer (by simp)] at whole
  have first := List.append_cancel_left whole
  exact (List.append_cancel_right (List.cons.inj first).1).symm

end Method.Announceable

/-- With a name that announces it the written form of a method is trimmed, as it is without. -/
theorem Method.trim_writtenBehind (method : Method) (announcer : Text) :
    trim (method.writtenBehind announcer) = method.writtenBehind announcer := by
  have starts : StartsVisible (method.writtenBehind announcer) :=
    startsVisible_staticPart method
      (startsVisible_append method.typed (trim_eq_self_iff.mp method.returnType.trimmed).1)
  have parts : ∃ front, method.writtenBehind announcer =
      front ++ ')' :: behindSpace method.description := by
    obtain ⟨front, -, whole⟩ := method.exists_writtenBehind announcer
    refine ⟨front ++ (announcer ++ "() ".toList ++ method.name ++
      '(' :: argumentsPart method.arguments), ?_⟩
    rw [whole, Method.namedPart]
    simp only [List.append_assoc, List.cons_append]
  obtain ⟨front, whole⟩ := parts
  refine trim_eq_self_iff.mpr ⟨starts, ?_⟩
  rw [whole]
  exact endsVisible_append _ (List.cons_ne_nil _ _) (endsVisible_closing method)

/-- A method that is announced by another name is read as if it were not exactly if the return
type does not end in a word that announces that name, or ends in the very word that announces the
method. -/
theorem read_announced (announceable : method.Announceable) (named : announcer ≠ [])
    (word : announcer.all isWordCharacter) :
    read TagName.method.text (method.writtenBehind announcer) = .ok (ofMethod method) ↔
      ∀ last ∈ (words method.returnType.text).getLast?,
        Announces last (announcer ++ ['(', ')']) → last = announcer ++ ['(', ')'] := by
  rw [read_method, Method.trim_writtenBehind]
  obtain ⟨before, last, typed, visible, -, ends, found⟩ :=
    exists_lastWord_of_endsVisible method.typed (trim_eq_self_iff.mp method.returnType.trimmed).2
  rw [found, List.getLast?_concat]
  constructor
  · rintro done _ ⟨⟩ ⟨⟨name, rfl, something, allowed⟩, -⟩
    rw [announceable.eq_of_announced_twice ends (by rw [typed, List.append_assoc]) something allowed
      named word done]
  · intro only
    refine announceable.readMethod_of_announced ?_
    by_cases announces : Announces last (announcer ++ ['(', ')'])
    · obtain rfl := only last rfl announces
      rw [announceable.skipName_announced_twice ends (by rw [typed, List.append_assoc]) named word
        named word, Method.unmarked_eq, typed]
      simp
    · refine announceable.skipName_announced named word fun front split parts => announces ?_
      obtain ⟨start, name, rfl, visibleName, apart⟩ := exists_lastWord front
      rw [lastWord_append visibleName apart] at parts
      have same := lastWord_append visible ends
      rw [← typed, split, List.append_assoc, lastWord_append (visible_list visibleName) apart]
        at same
      rw [← (Prod.mk.inj same).2]
      exact (announces_iff [')'] named word).mpr parts

/-- A static method that returns a callable, which takes one without parameters. Its argument,
its default value and its description have empty lists as well. -/
def wrapping : Method where
  name := "wrap".toList
  arguments := [
    ⟨"inner".toList, ⟨"callable()".toList, by decide⟩, some "f()".toList, by decide, by decide⟩]
  returnType := ⟨"callable(Closure(): A): array<B, C>".toList, by decide⟩
  isStatic := true
  description := "as old() wrap(int) did".toList
  named := by decide
  typed := by decide
  trimmed := by decide

/-- Only the list of the announcing name is taken out among many empty ones. -/
theorem read_announced_wrapping :
    let announcer := "legacy_1".toList
    wrapping.Announceable ∧ announcer ≠ [] ∧ announcer.all isWordCharacter ∧
      read TagName.method.text (wrapping.writtenBehind announcer) = .ok (ofMethod wrapping) := by
  intro announcer
  have announceable : wrapping.Announceable := by decide +kernel
  have word : announcer.all isWordCharacter := by decide
  refine ⟨announceable, by decide, word, (read_announced announceable (by decide) word).mpr ?_⟩
  decide +kernel

/-- A method that returns a callable without parameters. Its return type ends in an empty list
with a name in front of it. -/
def deferring : Method where
  name := "run".toList
  arguments := [⟨"a".toList, ⟨"int".toList, by decide⟩, none, by decide, substantial_none⟩]
  returnType := ⟨"callable()".toList, by decide⟩
  isStatic := false
  description := []
  named := by decide
  typed := by decide
  trimmed := trim_nil

/-- Its return type is taken for the name that announces it, and the announcing name for its
own. -/
theorem callable_taken_for_announcer :
    deferring.Announceable ∧
      deferring.writtenBehind "old".toList = "callable() old() run(int $a)".toList ∧
      ∃ other, read TagName.method.text (deferring.writtenBehind "old".toList) =
          .ok (ofMethod other) ∧
        other.name = "old".toList ∧ other.returnType = .void ∧ other ≠ deferring := by
  refine ⟨by decide +kernel, by decide, _, rfl, ?_, ?_, ?_⟩ <;> decide +kernel

end DocComment.Tag
