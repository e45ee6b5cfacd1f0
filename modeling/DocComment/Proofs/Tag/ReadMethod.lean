import DocComment.Proofs.Tag.MethodRereading
import DocComment.Proofs.Tag.ReadSignature

/-!
# Methods that were read

A method that was read from any body has lost most of how that body was laid out: blanks, the
marks of its arguments, a name that only announced it. Its written form always has a parameter
list and always a return type. That form is read as the same method exactly if the parenthesis
behind the name is one that opens a parameter list there, as it does for every body that had
such a list. What stays outside of this is a written form with an empty parameter list that
announces a signature, since the name in front of it is taken away again, and a mark that the
reader left behind the type of an argument.
-/
namespace DocComment.Tag

open Text Brackets

/-! The parts of a method -/

/-- What is known of a method that was made of a signature: its name is the last word of the
head, and the words in front of it make its return type, which is `void` without any. -/
structure Method.MadeOf (method : Method) (signature : Signature) (typeWords : List Text) :
    Prop where
  words_head : words signature.head = typeWords ++ [method.name]
  word : method.name.all isMethodNameCharacter
  returnType : method.returnType =
    if typeWords = [] then .void else .ofText ([' '].intercalate typeWords)
  arguments : match signature.parameters with
    | none => method.arguments = []
    | some parameters => readArguments parameters = .ok method.arguments

/-- The return type given by words is made of them, and never replaced: a text made of words is
not empty. Without words it is `void`. -/
theorem returnTypeOf_words {texts : List Text} (given : AreWords texts) :
    Method.returnTypeOf
        (if texts = [] then none else some (.ofText ([' '].intercalate texts))) =
      if texts = [] then .void else .ofText ([' '].intercalate texts) := by
  split
  · rfl
  · rename_i something
    have nonempty : [' '].intercalate texts ≠ [] := by
      intro empty
      have wordless := words_intercalate_words given
      rw [empty, words_nil] at wordless
      exact something wordless.symm
    rw [Method.returnTypeOf]
    refine if_neg ?_
    rw [TypeExpr.isEmpty, List.isEmpty_iff]
    exact fun empty => nonempty ((trim_intercalate_words given).symm.trans empty)

/-- A method has the parts that it was built from, the name and the description without the
blanks at their ends. An empty return type is given as `void`. -/
theorem Method.ofParts_exact {name description : Text} {arguments : List Argument}
    {returnType : Option TypeExpr} {isStatic : Bool} {method : Method}
    (done : Method.ofParts name arguments returnType isStatic description = .ok method) :
    method.name = trim name ∧ method.arguments = arguments ∧
      method.returnType = Method.returnTypeOf returnType ∧ method.isStatic = isStatic ∧
      method.description = trim description := by
  rw [Method.ofParts] at done
  split at done
  · obtain rfl := Except.ok.inj done
    exact ⟨rfl, rfl, rfl, rfl, rfl⟩
  · contradiction

/-- A method is made of the signature that it was read from, and described by what stands behind
it. It is static if the mark was taken off before. -/
theorem madeOf_of_ofSignature {body : Text} {isStatic : Bool} {signature : Signature}
    {method : Method} (done : Method.ofSignature body isStatic signature = .ok method) :
    method.isStatic = isStatic ∧ method.description = trim signature.description ∧
      ∃ typeWords, method.MadeOf signature typeWords := by
  rw [Method.ofSignature] at done
  obtain ⟨⟨name, returnType⟩, headed, done⟩ := exists_of_bind_eq_ok done
  obtain ⟨front, split, word, rfl⟩ := Method.heading_eq_ok_iff.mp headed
  have given : AreWords front := (split ▸ areWords_words signature.head).front
  obtain ⟨arguments, read, done⟩ : ∃ arguments, (match signature.parameters with
      | none => arguments = []
      | some parameters => readArguments parameters = .ok arguments) ∧
      Method.ofParts name arguments
        (if front = [] then none else some (.ofText ([' '].intercalate front)))
        isStatic signature.description = .ok method := by
    cases parameters : signature.parameters with
    | none =>
      rw [parameters] at done
      exact ⟨[], rfl, done⟩
    | some list =>
      rw [parameters] at done
      exact exists_of_bind_eq_ok done
  obtain ⟨named, rfl, typed, mark, described⟩ := Method.ofParts_exact done
  rw [(visible_of_isMethodNameCharacter word).trim_eq] at named
  rw [returnTypeOf_words given] at typed
  subst named
  exact ⟨mark, described, front, split, word, typed, read⟩

variable {method : Method} {signature : Signature} {typeWords : List Text}

/-- The words of the return type are those of the head, if there are any. They are joined by
single spaces, so all blanks of the type are narrow. -/
theorem Method.MadeOf.words_returnType (made : method.MadeOf signature typeWords) :
    words method.returnType.text = (if typeWords = [] then ["void".toList] else typeWords) ∧
      [' '].intercalate (words method.returnType.text) = method.returnType.text ∧
      Narrow method.returnType.text := by
  have given : AreWords typeWords := (made.words_head ▸ areWords_words signature.head).front
  rw [made.returnType]
  split
  · exact ⟨by decide, by decide, by decide⟩
  · have text : (TypeExpr.ofText ([' '].intercalate typeWords)).text =
        [' '].intercalate typeWords := trim_intercalate_words given
    rw [text, words_intercalate_words given]
    exact ⟨rfl, rfl, narrow_intercalate given⟩

/-- In front of the name stand the words of the return type, if it is not the one of a method
without any. A return type `void` may come from no word at all. -/
theorem Method.MadeOf.words_head_of_ne (made : method.MadeOf signature typeWords)
    (other : words method.returnType.text ≠ ["void".toList]) :
    words signature.head = words method.returnType.text ++ [method.name] := by
  have given := made.words_returnType.1
  split at given
  · exact absurd given other
  · rw [made.words_head, given]

/-- A name has no bracket in it, and no comma, so it adds nothing to a skeleton. -/
theorem separates_of_isMethodNameCharacter {c : Char} (allowed : isMethodNameCharacter c) :
    separates c = false := by
  by_contra kept
  simp only [separates, opens, closes, Bool.not_eq_false, Bool.or_eq_true, beq_iff_eq] at kept
  rcases kept with ((((rfl | rfl) | rfl) | rfl) | ((rfl | rfl) | rfl) | rfl) | rfl <;>
    exact absurd allowed (by decide)

/-- Nothing in the name of a method separates parts, so nothing of it is left in a skeleton. -/
theorem skeleton_name {name : Text} (word : name.all isMethodNameCharacter) : skeleton name = [] :=
  skeleton_eq_nil fun c member =>
    separates_of_isMethodNameCharacter (List.all_eq_true.mp word c member)

/-- Only the return type has brackets in front of the parameter list, so the depth there is that
of the type. -/
theorem depth_headPart (word : method.name.all isMethodNameCharacter) :
    depth method.headPart = depth method.returnType.text := by
  have nameless : depth method.name = 0 := by
    rw [← depth_skeleton, skeleton_name word]
    rfl
  have space : step ' ' = 0 := by decide
  simp [Method.headPart, nameless, space]

/-- The words in front of the parameter list open none that the head did not open. Spacing words
out anew changes neither the brackets nor the word in front of each. -/
theorem Method.MadeOf.unopened (made : method.MadeOf signature typeWords)
    (unopened : Unopened 0 [] signature.head) : Unopened 0 [] method.headPart := by
  have headWords := words_headPart made.word
  rw [made.words_returnType.1] at headWords
  by_cases typeless : typeWords = []
  · intro before after split
    have member : '(' ∈ method.headPart := by rw [split]; simp
    have kept : '(' ∈ skeleton method.headPart := List.mem_filter.mpr ⟨member, by decide⟩
    have plain : skeleton method.headPart = [] := by
      rw [Method.headPart, skeleton_append, made.returnType, if_pos typeless,
        skeleton_cons_plain (by decide), skeleton_name made.word]
      rfl
    rw [plain] at kept
    exact absurd kept List.not_mem_nil
  · rw [if_neg typeless, ← made.words_head] at headWords
    exact unopened.of_words headWords.symm

/-- The return type of a method whose body does not bear the mark does not begin with it. An
announced name that is taken out cannot bring a mark to the front, as what follows it has a
parenthesis. -/
theorem Method.MadeOf.other {text kept : Text} (made : method.MadeOf signature typeWords)
    (cut : signature.CutFrom kept) (starts : StartsVisible text)
    (skipped : skipName [] text = .ok kept) (unmarked : (splitStatic text).1 = false) :
    (words method.returnType.text).head? ≠ some "static".toList := by
  intro first
  rw [made.words_returnType.1] at first
  cases typed : typeWords with
  | nil =>
    rw [if_pos typed] at first
    exact absurd first (by decide)
  | cons word others =>
    rw [if_neg (by simp [typed]), typed] at first
    obtain rfl := Option.some.inj first
    obtain ⟨second, behind, two⟩ : ∃ second behind, others ++ [method.name] = second :: behind :=
      List.exists_cons_of_ne_nil (by simp)
    have headWords : words signature.head = "static".toList :: second :: behind := by
      rw [made.words_head, typed, List.cons_append, two]
    have begins := head?_words_of_isPrefix cut.front headWords
    have alone := eq_static_of_splitStatic starts
      (head?_words_of_skipName starts skipped begins (by decide)) unmarked
    subst alone
    obtain rfl : "static".toList = kept := Except.ok.inj skipped
    have visible : Visible "static".toList := visible_of_isWordCharacter (by decide)
    exact words_ne_of_isPrefix visible cut.front headWords

/-! What is known of a method that was read -/

/-- A method as a reader leaves it, from whatever body it came. -/
structure Method.Read (method : Method) : Prop where
  word : method.name.all isMethodNameCharacter
  /-- The return type is made of words with one space between any two. -/
  spaced : [' '].intercalate (words method.returnType.text) = method.returnType.text
  narrow : Narrow method.returnType.text
  other : method.isStatic = false → (words method.returnType.text).head? ≠ some "static".toList
  unopened : Unopened 0 [] method.headPart
  /-- The arguments were read from a list that closes what it opens. -/
  arguments : ∃ parameters, readArguments parameters = .ok method.arguments ∧ Closes 0 parameters

/-- The methods that are read from trimmed bodies are such. This is all that is used of the body
when the method is written and read again. -/
theorem read_of_readMethod {body : Text} {method : Method} (starts : StartsVisible body)
    (done : readMethod body = .ok (ofMethod method)) : method.Read := by
  obtain ⟨kept, signature, result, skipped, cutOff, built, same⟩ := steps_of_readMethod done
  obtain rfl : method = result := Content.method.inj (Tag.mk.inj same).1
  obtain ⟨mark, -, typeWords, made⟩ := madeOf_of_ofSignature built
  have cut := Signature.cutFrom_ofText cutOff
  obtain ⟨-, spaced, narrow⟩ := made.words_returnType
  refine ⟨made.word, spaced, narrow, fun unmarked => ?_, made.unopened cut.unopened, ?_⟩
  · rw [mark] at unmarked
    rw [splitStatic_of_unmarked unmarked] at skipped
    exact made.other cut starts skipped unmarked
  · have read := made.arguments
    cases given : signature.parameters with
    | none =>
      rw [given] at read
      exact ⟨[], by rw [read]; rfl, rfl⟩
    | some parameters =>
      rw [given] at read
      exact ⟨parameters, read, (cut.opened parameters given).2.2⟩

/-! Reading again -/

/-- Two words in front of no parameter list are a return type and a name, in this order. -/
theorem Method.MadeOf.two (made : method.MadeOf signature typeWords) {first second : Text}
    (found : words signature.head = [first, second]) :
    words method.returnType.text = [first] ∧ method.name = second := by
  have split : typeWords ++ [method.name] = [first] ++ [second] :=
    made.words_head.symm.trans found
  obtain ⟨rfl, named⟩ := List.append_inj' split rfl
  exact ⟨made.words_returnType.1, (List.cons.inj named).1⟩

/-- The parenthesis behind the name belongs to the second word of the written form, unless that
word is one of the return type as well. -/
theorem Method.Read.exists_second_word (read : method.Read) {first : Text} {others : List Text}
    (typed : words method.returnType.text = first :: others) :
    ∃ second behind, method.unmarked = first ++ ' ' :: (second ++ behind) ∧ Visible second ∧
      second ≠ [] ∧ StartsBlank behind ∧ (others = [] → '(' ∈ second) := by
  have spaced := read.spaced
  have given := areWords_words method.returnType.text
  rw [typed] at spaced given
  generalize list : argumentsPart method.arguments ++ ')' :: behindSpace method.description =
    parameters
  have unmarked : method.unmarked =
      [' '].intercalate (first :: others) ++ ' ' :: (method.name ++ '(' :: parameters) := by
    rw [Method.unmarked, Method.headPart, spaced, list, List.append_assoc, List.cons_append]
  cases others with
  | nil =>
    obtain ⟨visible, apart, whole⟩ := span_exact parameters
    refine ⟨method.name ++ '(' :: (parameters.span fun c => !isBlank c).1,
      (parameters.span fun c => !isBlank c).2, ?_, ?_, by simp, apart, by simp⟩
    · rw [unmarked, List.append_assoc, List.cons_append, whole]
      simp
    · intro c member
      rcases List.mem_append.mp member with named | later
      · exact visible_of_isMethodNameCharacter read.word c named
      · exact visible.cons (by decide) c later
  | cons second others =>
    obtain ⟨visible, something⟩ := given.tail second List.mem_cons_self
    obtain ⟨rest, joined, apart⟩ := exists_intercalate_cons second others
    refine ⟨second, rest ++ ' ' :: (method.name ++ '(' :: parameters), ?_, visible, something,
      startsBlank_append apart (startsBlank_space _),
      fun none => absurd none (List.cons_ne_nil second others)⟩
    rw [unmarked, List.intercalate_cons_cons, joined]
    simp

/-- What a method is written as is not read as the same method by its first two words alone: the
second word would have to be the name, and it has the parenthesis of the list with it. -/
theorem Method.Read.not_withoutParameters (read : method.Read)
    (done : Signature.withoutParameters method.unmarked = .ok signature) :
    ¬ method.MadeOf signature typeWords := by
  intro made
  obtain ⟨first, others, typed⟩ : ∃ first others, words method.returnType.text = first :: others :=
    List.exists_cons_of_ne_nil fun wordless => by
      have spaced := read.spaced
      rw [wordless] at spaced
      exact method.typed spaced.symm
  obtain ⟨second, behind, split, visible, something, apart, parenthesis⟩ :=
    read.exists_second_word typed
  obtain ⟨visibleFirst, nonempty⟩ := areWords_words method.returnType.text first
    (by rw [typed]; exact List.mem_cons_self)
  rw [split, Signature.withoutParameters_two visibleFirst (by decide) rfl visible something apart]
    at done
  obtain rfl := Except.ok.inj done
  have headWords : words (first ++ ' ' :: second) = [first, second] := by
    rw [words_append_cons (by decide), words_of_visible visibleFirst nonempty,
      words_of_visible visible something]
    rfl
  obtain ⟨single, rfl⟩ := made.two headWords
  have inside := parenthesis (List.cons.inj (typed.symm.trans single)).2
  exact notMem_of_all read.word (by decide) inside

/-- The parenthesis behind the name of a method is read as the one that opens its parameter list.
It depends on the name and on the brackets of the return type only. -/
structure Method.HeadOpens (method : Method) : Prop where
  /-- The name is more than backslashes and no keyword of a callable. -/
  opens : OpensParameters method.name
  /-- No bracket stays open in the return type, and none is closed too often. -/
  balanced : depth method.returnType.text = 0

/-- A method that was read with a parameter list has a head that opens one. So a head that opens
none comes from a body in which no list was found. -/
theorem Method.MadeOf.headOpens {text parameters : Text} (made : method.MadeOf signature typeWords)
    (cut : signature.CutFrom text) (given : signature.parameters = some parameters) :
    method.HeadOpens := by
  obtain ⟨balanced, opens, -⟩ := cut.opened parameters given
  rw [wordBefore_eq, made.words_head, List.getLast?_concat] at opens
  refine ⟨opens, ?_⟩
  by_cases typeless : typeWords = []
  · rw [made.returnType, if_pos typeless]
    decide
  · have headWords := words_headPart made.word
    rw [made.words_returnType.1, if_neg typeless, ← made.words_head] at headWords
    rw [← depth_headPart made.word, depth_eq_of_words headWords]
    exact balanced

/-- Nothing in the written form of a method leads the reader away from its parts. -/
structure Method.Unmistakable (method : Method) : Prop where
  /-- No empty parameter list announces a signature: neither its own does, in front of a
  description that looks like one, nor one in a type, a default value or the description. -/
  unannounced : Unannounced [] method.unmarked
  /-- No type of an argument ends in a mark. -/
  unmarkedTypes : ∀ argument ∈ method.arguments, argument.UnmarkedType

/-- The written form of a method is never empty, as its return type is not. -/
theorem Method.written_ne_nil (method : Method) : method.written ≠ [] := by
  rw [Method.written_eq, Method.unmarked]
  simp

/-- A method that was read reads back from what it is written as if its head opens the parameter
list. The mark, the arguments and the description come back from what the first reading has
left. -/
theorem Method.Read.readMethod_written (read : method.Read) (unmistakable : method.Unmistakable)
    (headOpens : method.HeadOpens) :
    readMethod method.written = .ok (ofMethod method) := by
  obtain ⟨parameters, arguments, closes⟩ := read.arguments
  have kept : skipName [] method.unmarked = .ok method.unmarked :=
    skipName_eq unmistakable.unannounced
  have balanced : depth method.headPart = 0 := (depth_headPart read.word).trans headOpens.balanced
  have opened := openParameters_headPart read.word (narrow_headPart read.word read.narrow)
    read.unopened balanced headOpens.opens
  have separable := separable_of_readArguments arguments unmistakable.unmarkedTypes
  exact readMethod_of_skipName method.written_ne_nil (splitStatic_of_other read.other) kept opened
    (closes_of_readArguments arguments closes) read.word read.spaced separable

/-- The head of a method opens the parameter list if the method reads back. Otherwise the written
form would be cut by its first two words, and those are not the same method. -/
theorem Method.Read.headOpens (read : method.Read) (unannounced : Unannounced [] method.unmarked)
    (done : readMethod method.written = .ok (ofMethod method)) : method.HeadOpens := by
  obtain ⟨kept, signature, result, skipped, cutOff, built, same⟩ := steps_of_readMethod done
  obtain rfl : method = result := Content.method.inj (Tag.mk.inj same).1
  rw [splitStatic_of_other read.other] at skipped
  have whole : skipName [] method.unmarked = .ok method.unmarked := skipName_eq unannounced
  obtain rfl : method.unmarked = kept := Except.ok.inj (whole.symm.trans skipped)
  obtain ⟨-, -, typeWords, made⟩ := madeOf_of_ofSignature built
  have cut := Signature.cutFrom_ofText cutOff
  cases given : signature.parameters with
  | none => exact absurd made (read.not_withoutParameters (cut.withoutParameters given))
  | some parameters => exact made.headOpens cut given

/-- Writing a method that was read and reading it again gives the same tag exactly if its head
opens the parameter list that the written form has. -/
theorem read_body_of_read_method {body : Text} {tag : Tag}
    (done : read TagName.method.text body = .ok tag)
    (unmistakable : ∀ method ∈ tag.method?, method.Unmistakable) :
    read TagName.method.text tag.body = .ok tag ↔ ∀ method ∈ tag.method?, method.HeadOpens := by
  rw [read, nameOfText_text] at done
  change readMethod (trim body) = .ok tag at done
  obtain ⟨_, _, method, -, -, -, rfl⟩ := steps_of_readMethod done
  have found := read_of_readMethod (trim_eq_self_iff.mp (trim_trim body)).1 done
  have unmistakable := unmistakable method rfl
  change read TagName.method.text method.written = .ok (ofMethod method) ↔ _
  rw [read, nameOfText_text, Method.trim_written]
  change readMethod method.written = .ok (ofMethod method) ↔ _
  constructor
  · intro again other same
    obtain rfl := Option.some.inj same
    exact found.headOpens unmistakable.unannounced again
  · intro headOpens
    exact found.readMethod_written unmistakable (headOpens method rfl)

/-- Another body of the factory, with a name that announces it, wider spaces, a mark and an empty
argument. Its written form has none of these, and both are read as the same method. -/
theorem read_body_of_read_factory :
    read TagName.method.text ("static callable(int,  A):  array<B,  C> make() ".toList ++
        "make( array\x7ba: int\x7d &$options = [f(), 2], , ...$rest )  the (first) one".toList) =
        .ok (ofMethod factory) ∧
      factory.Unmistakable ∧ factory.HeadOpens ∧
        read TagName.method.text (ofMethod factory).body = .ok (ofMethod factory) := by
  have done : read TagName.method.text
      ("static callable(int,  A):  array<B,  C> make() ".toList ++
        "make( array\x7ba: int\x7d &$options = [f(), 2], , ...$rest )  the (first) one".toList) =
      .ok (ofMethod factory) := by decide +kernel
  have unmistakable : factory.Unmistakable := {
    unannounced := by
      intro before behind split
      have kept := forall_splits factory.unmarked
        (fun before behind => ['(', ')'].isPrefixOf behind →
          ∃ word ∈ lastWordByOctet before, isSkippedName word.2 (behind.drop 2) = false)
        (by decide +kernel) before _ split rfl
      obtain ⟨word, found, unskipped⟩ := kept
      exact ⟨word.1, word.2, found, unskipped⟩
    unmarkedTypes := by decide }
  have headOpens : factory.HeadOpens := ⟨by decide, by decide⟩
  refine ⟨done, unmistakable, headOpens, (read_body_of_read_method done ?_).mpr ?_⟩
  · rintro method same
    obtain rfl := Option.some.inj same
    exact unmistakable
  · rintro method same
    obtain rfl := Option.some.inj same
    exact headOpens

/-- A body is read as a method that is not read from what it is written as: the second reading
gives another tag, or none. -/
def ReadOtherwise (body : Text) : Prop :=
  ∃ tag, read TagName.method.text body = .ok tag ∧ read TagName.method.text tag.body ≠ .ok tag

/-- None of the conditions can be spared: an empty parameter list may come to announce the
description, a keyword of a callable may be the name, a bracket of the return type may stay open,
and the reader may leave a mark behind the type of an argument. -/
theorem bodies_read_otherwise :
    ReadOtherwise "int foo( ) bar()".toList ∧ ReadOtherwise "int callable".toList ∧
      ReadOtherwise "a< b".toList ∧ ReadOtherwise "foo(int &...$x)".toList :=
  ⟨⟨_, rfl, by decide +kernel⟩, ⟨_, rfl, by decide +kernel⟩, ⟨_, rfl, by decide +kernel⟩,
    ⟨_, rfl, by decide +kernel⟩⟩

end DocComment.Tag
