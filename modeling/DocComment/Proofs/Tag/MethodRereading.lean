import DocComment.Proofs.Tag.ReadSignature

/-!
# Methods read back

The written form of a method is read by scans that count brackets each in their own way and
that guess, from the words around a parenthesis, what it opens. A method is well formed when
none of them is misled: its brackets are nested, a parenthesis outside the brackets of its
return type belongs to a callable, its name is no such keyword, and no empty parameter list
but its own stands in front of a blank. Such a method reads back as itself, whether it is
static or not, whatever its arguments, default values and description hold besides.
-/
namespace DocComment.Tag

open Text Brackets

/-- The mark of a static method as it stands in front of the return type, with the space behind
it; of another method, nothing. -/
def Method.staticPart (method : Method) : Text :=
  if method.isStatic then "static ".toList else []

/-- The return type and the name as they stand in front of the parameter list, with one space
between them. -/
def Method.headPart (method : Method) : Text := method.returnType.text ++ ' ' :: method.name

/-- The signature and what follows it, from the return type on. It is the written form of the
method if that is not static. -/
def Method.unmarked (method : Method) : Text :=
  method.headPart ++ '(' :: (argumentsPart method.arguments ++ ')' ::
    behindSpace method.description)

/-- The written form of a method is the mark, if it has one, and the signature behind it. -/
theorem Method.written_eq (method : Method) :
    method.written = method.staticPart ++ method.unmarked := by
  simp only [Method.written, Method.staticPart, Method.unmarked, Method.headPart, argumentsPart,
    behindSpace, List.append_assoc, List.cons_append, List.nil_append]

/-- A method that its written form shows as it is: its parts nest their brackets, its name opens
the parameter list, and no part looks like a mark or a signature of its own. -/
structure Method.WellFormed (method : Method) : Prop where
  /-- The name is one word, and it does not make a type of the parameters behind it. -/
  word : method.name.all isWordCharacter
  ordinary : isCallableWord method.name = false
  /-- The return type is made of words with one space between any two. -/
  spaced : [' '].intercalate (words method.returnType.text) = method.returnType.text
  nested : Nested Anywhere [] method.returnType.text
  /-- Every parenthesis outside the brackets of the return type belongs to a callable. -/
  onlyTypes : ∀ before after, method.returnType.text = before ++ '(' :: after →
    Nested Anywhere [] before → TakesParenthesis before
  unmarked : method.isStatic = false →
    (words method.returnType.text).head? ≠ some "static".toList
  arguments : ∀ argument ∈ method.arguments, argument.WellFormed
  narrow : Narrow method.written
  /-- Only the method's own empty parameter list stands in front of a blank, and then the
  description does not begin with a word that has a parenthesis inside it. -/
  unannounced : ∀ before behind, method.written = before ++ '(' :: ')' :: behind →
    behind.head?.any isBlank →
      before = method.staticPart ++ method.headPart ∧ method.arguments = [] ∧
        ∀ word ∈ (words method.description).head?, '(' ∉ word ∨ word.head? = some '('

variable {method : Method}

/-- A method's return type is not empty and starts visibly, so nothing is trimmed off in front of
it. -/
theorem startsVisible_unmarked (method : Method) : StartsVisible method.unmarked := by
  rw [Method.unmarked, Method.headPart, List.append_assoc]
  exact startsVisible_append method.typed (trim_eq_self_iff.mp method.returnType.trimmed).1

/-- The mark is read as it is written, whatever follows the return type, if that does not begin
with it. A static method may return `static`, since only the first mark is taken off. -/
theorem splitStatic_staticPart
    (other : method.isStatic = false →
      (words method.returnType.text).head? ≠ some "static".toList) (behind : Text) :
    splitStatic (method.staticPart ++ (method.returnType.text ++ ' ' :: behind)) =
      (method.isStatic, method.returnType.text ++ ' ' :: behind) := by
  have starts := (trim_eq_self_iff.mp method.returnType.trimmed).1
  rw [Method.staticPart]
  cases mark : method.isStatic with
  | true => exact splitStatic_static (startsVisible_append method.typed starts)
  | false =>
    refine splitStatic_of_words ?_
    -- the return type has a word, and the blank behind it keeps that word the first
    have first := head?_words starts method.typed
    rw [if_neg Bool.false_ne_true, List.nil_append, words_append (startsBlank_space _),
      List.head?_append, first, Option.some_or, ← first]
    exact other mark

/-- The mark of a method is read as it is written. Only a method that is not static must have
another first word in its return type. -/
theorem splitStatic_of_other
    (other : method.isStatic = false →
      (words method.returnType.text).head? ≠ some "static".toList) :
    splitStatic method.written = (method.isStatic, method.unmarked) := by
  have parts : method.unmarked = method.returnType.text ++ ' ' :: (method.name ++
      '(' :: (argumentsPart method.arguments ++ ')' :: behindSpace method.description)) := by
    simp only [Method.unmarked, Method.headPart, List.append_assoc, List.cons_append]
  rw [Method.written_eq, parts]
  exact splitStatic_staticPart other _

/-- The mark of a well-formed method is read as it is written, and the rest is left whole. -/
theorem splitStatic_written (wellFormed : method.WellFormed) :
    splitStatic method.written = (method.isStatic, method.unmarked) :=
  splitStatic_of_other wellFormed.unmarked

/-- An empty parameter list of a well-formed method announces no signature, wherever in the
written form it stands: in a type, in a default value, in the description or behind the name. -/
theorem noSignature_of_wellFormed (wellFormed : method.WellFormed) {before behind : Text}
    (split : method.written = before ++ '(' :: ')' :: behind) : NoSignature behind := by
  intro blank
  obtain ⟨rfl, empty, unannounced⟩ := wellFormed.unannounced before behind split blank
  have described : behindSpace method.description = behind := by
    rw [Method.written_eq, Method.unmarked, empty, List.append_assoc] at split
    simpa [argumentsPart] using split
  rw [← described, words_behindSpace]
  exact unannounced

/-- No name is taken from in front of the signature, and none from inside of it either. -/
theorem skipName_unmarked (wellFormed : method.WellFormed) :
    skipName [] method.unmarked = .ok method.unmarked := by
  have narrow : Narrow method.unmarked := fun c member =>
    wellFormed.narrow c (by rw [Method.written_eq]; exact List.mem_append_right _ member)
  refine skipName_eq (unannounced_of_narrow narrow fun before behind split => ?_)
  have whole : method.written = (method.staticPart ++ before) ++ '(' :: ')' :: behind := by
    rw [Method.written_eq, split, List.append_assoc]
  exact noSignature_of_wellFormed wellFormed whole

/-- A name has no parenthesis in it, and neither has the space in front of it. -/
theorem notMem_name (word : method.name.all isMethodNameCharacter) : '(' ∉ ' ' :: method.name := by
  intro member
  rcases List.mem_cons.mp member with space | inside
  · exact absurd space (by decide)
  · exact notMem_of_all word (by decide) inside

/-- A name has no blank in it, as every character that is allowed in one is visible. -/
theorem visible_of_isMethodNameCharacter {name : Text} (word : name.all isMethodNameCharacter) :
    Visible name := by
  intro c member
  have allowed := List.all_eq_true.mp word c member
  simp only [isMethodNameCharacter, Bool.or_eq_true, beq_iff_eq] at allowed
  rcases allowed with (part | rfl) | rfl
  · exact isBlank_of_isWordCharacter part
  all_goals decide

/-- In front of the parameter list all blanks are narrow if those of the return type are. The
name has none, and the one between the two is a space. -/
theorem narrow_headPart (word : method.name.all isMethodNameCharacter)
    (narrow : Narrow method.returnType.text) : Narrow method.headPart :=
  narrow_spaced narrow (visible_of_isMethodNameCharacter word)

/-- The name is the word in front of the parameter list, since a space sets it apart from the
type. -/
theorem wordBefore_headPart (word : method.name.all isMethodNameCharacter) :
    wordBefore method.headPart = method.name := by
  have visible := visible_of_isMethodNameCharacter word
  have split : method.headPart = (method.returnType.text ++ [' ']) ++ method.name := by
    simp [Method.headPart]
  have ended : trimEnd method.headPart = method.headPart := by
    rw [split, trimEnd_eq_self_iff]
    exact endsVisible_append _ method.named.1 visible.endsVisible
  rw [wordBefore, ended, split, lastWord_append visible (endsBlank_space method.returnType.text)]

/-- The parameter list opens behind the name, if nothing in front of it does. The brackets of the
return type must be balanced, as the list opens at depth zero only. -/
theorem openParameters_headPart (word : method.name.all isMethodNameCharacter)
    (narrow : Narrow method.headPart) (unopened : Unopened 0 [] method.headPart)
    (balanced : depth method.headPart = 0) (opens : OpensParameters method.name) :
    openParameters 0 [] method.unmarked =
      .ok (some (method.headPart,
        argumentsPart method.arguments ++ ')' :: behindSpace method.description)) :=
  openParameters_head _ narrow unopened balanced (by rwa [wordBefore_headPart word])

/-- Word characters are allowed in the name of a method. The backslash and the bar are allowed
besides. -/
theorem isMethodNameCharacter_of_word {name : Text} (word : name.all isWordCharacter) :
    name.all isMethodNameCharacter := by
  refine List.all_eq_true.mpr fun c member => ?_
  rw [isMethodNameCharacter, List.all_eq_true.mp word c member]
  rfl

/-- No parenthesis in front of the parameter list opens it, if those of the return type belong to
callables or stand at its start. -/
theorem unopened_headPart (word : method.name.all isMethodNameCharacter)
    (typed : Nested Anywhere [] method.returnType.text)
    (onlyTypes : ∀ before after, method.returnType.text = before ++ '(' :: after →
      Nested Anywhere [] before → TakesParenthesis before) : Unopened 0 [] method.headPart := by
  intro before after split outside
  -- the parenthesis stands within the return type
  obtain ⟨inside, front, rest⟩ | ⟨inside, -, named⟩ := List.append_eq_append_iff.mp split.symm
  · cases inside with
    | nil => exact absurd (List.cons.inj rest).1 (by decide)
    | cons c others =>
      obtain ⟨rfl, -⟩ := List.cons.inj rest
      have nested : Nested Anywhere [] before :=
        (front ▸ typed : Nested Anywhere [] (before ++ '(' :: others)).front
          (by simpa using outside)
      exact (onlyTypes before others front nested).not_opensParameters
  · exact absurd (by rw [named]; simp) (notMem_name word)

/-- The parameter list opens behind the name of a well-formed method, and what follows is the
list with all that stands behind it. -/
theorem openParameters_unmarked (wellFormed : method.WellFormed) :
    openParameters 0 [] method.unmarked =
      .ok (some (method.headPart,
        argumentsPart method.arguments ++ ')' :: behindSpace method.description)) := by
  have narrow : Narrow method.headPart := fun c member =>
    wellFormed.narrow c (by
      rw [Method.written_eq, Method.unmarked]
      exact List.mem_append_right _ (List.mem_append_left _ member))
  have word := isMethodNameCharacter_of_word wellFormed.word
  have nestedName : Nested Anywhere [] (' ' :: method.name) :=
    .other rfl rfl (fun _ => trivial) (nested_of_word wellFormed.word).anywhere
  have balanced : depth method.headPart = 0 := by
    simpa [Method.headPart] using (wellFormed.nested.append nestedName).depth_eq
  exact openParameters_headPart word narrow
    (unopened_headPart word wellFormed.nested wellFormed.onlyTypes) balanced
    (opensParameters_of_word wellFormed.word method.named.1 wellFormed.ordinary)

/-- Where the parameter list is found to open behind the name and closes behind the arguments,
the signature is cut where its parts were joined. The description comes out trimmed as it went
in. -/
theorem ofText_of_opened (body : Text)
    (opened : openParameters 0 [] method.unmarked = .ok (some (method.headPart,
      argumentsPart method.arguments ++ ')' :: behindSpace method.description)))
    (closes : Closes 0 (argumentsPart method.arguments)) :
    Signature.ofText body method.unmarked =
      .ok ⟨method.headPart, some (argumentsPart method.arguments), method.description⟩ := by
  rw [Signature.ofText_eq body opened closes, trim_behindSpace method.trimmed]

/-- The signature of a well-formed method is cut so. Nested arguments close the parentheses that
they open. -/
theorem ofText_unmarked (wellFormed : method.WellFormed) (body : Text) :
    Signature.ofText body method.unmarked =
      .ok ⟨method.headPart, some (argumentsPart method.arguments), method.description⟩ :=
  ofText_of_opened body (openParameters_unmarked wellFormed)
    (nested_argumentsPart wellFormed.arguments).closes

/-- A method is built again from its own parts: they have been through the same checks and
trimming before. -/
theorem Method.ofParts_self (method : Method) :
    Method.ofParts method.name method.arguments (some method.returnType) method.isStatic
      method.description = .ok method := by
  have named : trim method.name ≠ [] := by
    rw [method.named.2]
    exact method.named.1
  have typed : Method.returnTypeOf (some method.returnType) = method.returnType := by
    rw [Method.returnTypeOf]
    exact if_neg (by simpa [TypeExpr.isEmpty] using method.typed)
  rw [Method.ofParts, dif_pos named]
  simp only [typed, method.named.2, method.trimmed]

/-- The words in front of the parameter list are those of the return type and the name, which is
a single word. -/
theorem words_headPart (word : method.name.all isMethodNameCharacter) :
    words method.headPart = words method.returnType.text ++ [method.name] := by
  rw [Method.headPart, words_append_cons (by decide),
    words_of_visible (visible_of_isMethodNameCharacter word) method.named.1]

/-- The parts of the signature make up the method, if its name is a word, its return type is
spaced out and its arguments stay apart. A return type of other spacing would be written
otherwise. -/
theorem ofSignature_of_separable (body : Text) (word : method.name.all isMethodNameCharacter)
    (spaced : [' '].intercalate (words method.returnType.text) = method.returnType.text)
    (separable : Separable method.arguments) :
    Method.ofSignature body method.isStatic
        ⟨method.headPart, some (argumentsPart method.arguments), method.description⟩ =
      .ok method := by
  have typed : words method.returnType.text ≠ [] := by
    intro wordless
    rw [wordless] at spaced
    exact method.typed spaced.symm
  have headed :
      Method.heading body method.headPart = .ok (method.name, some method.returnType) := by
    refine Method.heading_eq_ok_iff.mpr ⟨_, words_headPart word, word, ?_⟩
    rw [if_neg typed, spaced, TypeExpr.ofText_text]
  simp only [Method.ofSignature, headed, readArguments_argumentsPart separable]
  exact Method.ofParts_self method

/-- The parts of a well-formed method make it up; nested arguments are arguments that stay
apart. -/
theorem ofSignature_parts (wellFormed : method.WellFormed) (body : Text) :
    Method.ofSignature body method.isStatic
        ⟨method.headPart, some (argumentsPart method.arguments), method.description⟩ =
      .ok method :=
  ofSignature_of_separable body (isMethodNameCharacter_of_word wellFormed.word)
    wellFormed.spaced (separable_of_wellFormed wellFormed.arguments)

/-- A body is read as a method if the scans for the mark and for announced names leave what the
method is written as, and that is cut where its parts were joined. The body need not be the
written form itself. -/
theorem readMethod_of_skipName {body text : Text} (something : body ≠ [])
    (marked : splitStatic body = (method.isStatic, text))
    (skipped : skipName [] text = .ok method.unmarked)
    (opened : openParameters 0 [] method.unmarked = .ok (some (method.headPart,
      argumentsPart method.arguments ++ ')' :: behindSpace method.description)))
    (closes : Closes 0 (argumentsPart method.arguments))
    (word : method.name.all isMethodNameCharacter)
    (spaced : [' '].intercalate (words method.returnType.text) = method.returnType.text)
    (separable : Separable method.arguments) : readMethod body = .ok (ofMethod method) := by
  rw [readMethod_eq something, marked, skipped]
  change (Signature.ofText _ _ >>= _) = _
  rw [ofText_of_opened body opened closes]
  change (Method.ofSignature _ _ _ >>= _) = _
  rw [ofSignature_of_separable body word spaced separable]
  rfl

/-- The mark of a static method does not start with a blank, and without the mark the text behind
comes first. -/
theorem startsVisible_staticPart (method : Method) {behind : Text} (starts : StartsVisible behind) :
    StartsVisible (method.staticPart ++ behind) := by
  rw [Method.staticPart]
  split
  · exact startsVisible_append (by decide) (startsVisible_cons.mpr (by decide))
  · exact starts

/-- What stands behind the parameter list ends with the description, or with the list where there
is no description. -/
theorem endsVisible_closing (method : Method) :
    EndsVisible (')' :: behindSpace method.description) := by
  rw [behindSpace]
  split
  · intro c last
    obtain rfl : ')' = c := by simpa using last
    decide
  · rename_i something
    exact endsVisible_append [')', ' '] something (trim_eq_self_iff.mp method.trimmed).2

/-- The written form of a method is trimmed, so as the body of a tag it is kept as it is. -/
theorem Method.trim_written (method : Method) : trim method.written = method.written := by
  have starts : StartsVisible method.written := by
    rw [Method.written_eq]
    exact startsVisible_staticPart method (startsVisible_unmarked method)
  have parts : method.written = (method.staticPart ++ method.headPart ++
      '(' :: argumentsPart method.arguments) ++ ')' :: behindSpace method.description := by
    rw [Method.written_eq, Method.unmarked]
    simp only [List.append_assoc, List.cons_append]
  refine trim_eq_self_iff.mpr ⟨starts, ?_⟩
  rw [parts]
  exact endsVisible_append _ (List.cons_ne_nil _ _) (endsVisible_closing method)

/-- A well-formed method reads back from its body. Each scan of the reader is met by one of the
conditions: the mark, the announced names, the parameter list and the arguments. -/
theorem read_body_of_wellFormed (wellFormed : method.WellFormed) :
    read TagName.method.text (ofMethod method).body = .ok (ofMethod method) := by
  have something : method.written ≠ [] := by
    rw [Method.written_eq, Method.unmarked]
    simp
  change read TagName.method.text method.written = .ok (ofMethod method)
  rw [read, nameOfText_text, Method.trim_written]
  change readMethod method.written = .ok (ofMethod method)
  rw [readMethod_eq something, splitStatic_written wellFormed, skipName_unmarked wellFormed]
  change (Signature.ofText _ _ >>= _) = _
  rw [ofText_unmarked wellFormed]
  change (Method.ofSignature _ _ _ >>= _) = _
  rw [ofSignature_parts wellFormed]
  rfl

/-- A static method whose return type, argument and default value all nest brackets. A second
argument has neither a type nor a default value. -/
def factory : Method where
  name := "make".toList
  arguments := [
    ⟨"options".toList, ⟨"array\x7ba: int\x7d".toList, by decide⟩, some "[f(), 2]".toList,
      by decide, by decide⟩,
    ⟨"rest".toList, ⟨[], by decide⟩, none, by decide, substantial_none⟩]
  returnType := ⟨"callable(int, A): array<B, C>".toList, by decide⟩
  isStatic := true
  description := "the (first) one".toList
  named := by decide
  typed := by decide
  trimmed := by decide

/-- All that a well-formed method needs, in one method. Its description has parentheses as
well. -/
theorem read_body_of_factory :
    factory.WellFormed ∧
      read TagName.method.text (ofMethod factory).body = .ok (ofMethod factory) := by
  have wellFormed : factory.WellFormed := {
    word := by decide
    ordinary := by decide
    spaced := by decide +kernel
    nested := by decide
    onlyTypes := by
      intro before after same
      exact forall_splits factory.returnType.text
        (fun before behind =>
          behind.head? = some '(' → Nested Anywhere [] before → TakesParenthesis before)
        (by decide +kernel) before _ same rfl
    unmarked := nofun
    arguments := by decide
    narrow := by decide +kernel
    unannounced := by
      -- the only empty parameter list stands in a default value, in front of a comma
      intro before behind same blank
      refine absurd blank (forall_splits factory.written
        (fun _ behind =>
          ['(', ')'].isPrefixOf behind → ¬ (behind.drop 2).head?.any isBlank)
        (by decide +kernel) before _ same rfl) }
  exact ⟨wellFormed, read_body_of_wellFormed wellFormed⟩

end DocComment.Tag
