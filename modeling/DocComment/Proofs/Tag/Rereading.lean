import DocComment.Proofs.Tag.Declaration
import DocComment.Proofs.Text.Classes
import DocComment.Tag.Reader
import DocComment.Tag.Written
import Mathlib.Data.List.DropRight

/-!
# Tags read back

A tag that was read from a body reads back from its own written body under its own name.
Reading forgets how a body was laid out: how many marks stood in front of its variable, how
many blanks between its parts. Writing settles on one layout, and every reader finds the same
parts in it again. Methods are left to a law of their own, since the reader for their
signatures takes names away that the written form may bring back.
-/
namespace DocComment.Tag

open Text

/-- A reader of bodies gives a tag of one name again from what that tag is written as. The
written form is trimmed, so it makes no difference that bodies are trimmed before they are
read. -/
structure ReadsBack (reader : Text → Except TagError Tag) (name : TagName) (tag : Tag) : Prop where
  named : tag.name = name
  trimmed : trim tag.body = tag.body
  read : reader tag.body = .ok tag

/-! Names -/

/-- No character of a tag name is blank, and so none of a keyword. -/
theorem isBlank_of_isTagNameCharacter {c : Char} (allowed : isTagNameCharacter c) :
    isBlank c = false := by
  simp only [isTagNameCharacter, Bool.or_eq_true, beq_iff_eq] at allowed
  rcases allowed with (((letter | rfl) | rfl) | rfl) | rfl
  · exact isBlank_of_isAlphanum letter
  all_goals decide

/-- No character of a keyword is blank, so trimming leaves it as it is. -/
theorem visible_keyword (name : TagName) : Visible name.text := by
  have allowed := name.valid
  simp only [isTagName, Bool.and_eq_true, List.all_eq_true] at allowed
  exact fun c member => isBlank_of_isTagNameCharacter (allowed.2 c member)

/-- The text of a tag name names that tag. It has no sign that could be dropped. -/
theorem nameOfText_text (name : TagName) : nameOfText name.text = .ok name := by
  have visible := visible_keyword name
  obtain ⟨text, valid⟩ := name
  have signless : ∀ rest, text ≠ '@' :: rest := by
    rintro rest rfl
    exact absurd valid (by simp [isTagName, isTagNameCharacter])
  simp only [nameOfText, TagName.ofText?, visible.trim_eq, dif_pos valid]

/-- What is left of a token behind its signs names a variable; the name behind a single sign
gives the same name again, for whatever tag. -/
theorem declaredName_exact {tag : TagName} {token name : Text}
    (declared : declaredName tag token = .ok name) (visible : Visible token) :
    Visible name ∧ ∀ other, declaredName other ('$' :: name) = .ok name := by
  simp only [declaredName] at declared
  split at declared
  · contradiction
  · rename_i something
    obtain rfl := Except.ok.inj declared
    refine ⟨fun c member => visible c ((List.dropWhile_suffix _).subset member), fun other => ?_⟩
    have idempotent : ('$' :: token.dropWhile (· == '$')).dropWhile (· == '$') =
        token.dropWhile (· == '$') := by
      rw [List.dropWhile_cons_of_pos (by decide), List.dropWhile_idempotent]
    simp only [declaredName, idempotent, if_neg something]

/-- A sign begins a variable, whatever follows it. -/
theorem isVariable_sign (name : Text) : isVariable ('$' :: name) := rfl

/-! Variables and properties -/

/-- The name behind a single sign takes the place of the variable, while the type and the
description stay as they were. -/
theorem ofBody_declared {body token name : Text} {tag : TagName} (trimmed : trim body = body)
    (found : (Declaration.ofBody body).token = some token)
    (declared : declaredName tag token = .ok name) :
    Declaration.ofBody ((Declaration.ofBody body).rejoined ('$' :: name)) =
      { Declaration.ofBody body with token := some ('$' :: name) } := by
  obtain ⟨-, -, visible⟩ := ofBody_exact trimmed
  obtain ⟨visibleName, -⟩ := declaredName_exact declared (visible token found).1
  exact ofBody_rejoined trimmed found (visibleName.cons (by decide)) (isVariable_sign name)

/-- A type that was cut from a trimmed body is written as it stood there, since there was nothing
to trim off it. -/
theorem spaced_ofText {declaration : Declaration} (typed : trim declaration.type = declaration.type)
    (word : Text) :
    spaced [(TypeExpr.ofText declaration.type).text, word, declaration.description] =
      declaration.rejoined word :=
  congrArg (fun type => spaced [type, word, declaration.description]) typed

/-- A property reads back with the same access, which is in the name of its tag and not in its
body. -/
theorem readProperty_readsBack {access : Access} {body : Text} {tag : Tag}
    (trimmed : trim body = body) (done : readProperty access body = .ok tag) :
    ReadsBack (readProperty access) access.tagName tag := by
  obtain ⟨typed, -, visible⟩ := ofBody_exact trimmed
  cases found : (Declaration.ofBody body).token with
  | none => simp [readProperty, Declaration.property, found] at done
  | some token =>
    cases declared : declaredName access.tagName token with
    | error fault =>
      simp [readProperty, Declaration.property, found, declared, bind, Except.bind] at done
    | ok name =>
      obtain ⟨visibleName, again⟩ := declaredName_exact declared (visible token found).1
      simp only [readProperty, Declaration.property, found, declared] at done
      obtain rfl := Except.ok.inj done
      have written : (unlabelled (.property access ⟨.ofText (Declaration.ofBody body).type, name,
          (Declaration.ofBody body).description⟩)).body =
          (Declaration.ofBody body).rejoined ('$' :: name) := spaced_ofText typed _
      refine ⟨rfl, ?_, ?_⟩
      · rw [written]
        exact trim_rejoined trimmed (visibleName.cons (by decide))
      · rw [written, readProperty, ofBody_declared trimmed found declared]
        simp only [Declaration.property, again]
        rfl

/-- A variable reads back, whether it is named or not. Without a name its type comes first, and
the description is no variable. -/
theorem readVar_readsBack {body : Text} {tag : Tag} (trimmed : trim body = body)
    (done : readVar body = .ok tag) : ReadsBack readVar .var tag := by
  obtain ⟨typed, -, visible⟩ := ofBody_exact trimmed
  by_cases empty : body = []
  · simp [readVar, empty] at done
  simp only [readVar, if_neg empty, Declaration.var] at done
  cases found : (Declaration.ofBody body).token with
  | none =>
    simp only [found] at done
    obtain rfl := Except.ok.inj done
    have written : (unlabelled (.var ⟨.ofText (Declaration.ofBody body).type, none,
        (Declaration.ofBody body).description⟩)).body =
        (Declaration.ofBody body).rejoined [] := spaced_ofText typed _
    have parts := ofBody_rejoined_nil trimmed found
    have something : (Declaration.ofBody body).rejoined [] ≠ [] :=
      spaced_ne_nil List.mem_cons_self (type_ne_nil_of_ofBody trimmed empty found)
    refine ⟨rfl, ?_, ?_⟩
    · rw [written]
      exact trim_rejoined trimmed (by simp [Visible])
    · rw [written, readVar, if_neg something, parts]
      simp only [Declaration.var, found]
  | some token =>
    simp only [found] at done
    cases declared : declaredName .var token with
    | error fault => simp [declared, bind, Except.bind] at done
    | ok name =>
      obtain ⟨visibleName, again⟩ := declaredName_exact declared (visible token found).1
      simp only [declared] at done
      obtain rfl := Except.ok.inj done
      have written : (unlabelled (.var ⟨.ofText (Declaration.ofBody body).type, some name,
          (Declaration.ofBody body).description⟩)).body =
          (Declaration.ofBody body).rejoined ('$' :: name) := spaced_ofText typed _
      have parts := ofBody_declared trimmed found declared
      have something : (Declaration.ofBody body).rejoined ('$' :: name) ≠ [] :=
        spaced_ne_nil (List.mem_cons_of_mem _ List.mem_cons_self) (List.cons_ne_nil '$' name)
      refine ⟨rfl, ?_, ?_⟩
      · rw [written]
        exact trim_rejoined trimmed (visibleName.cons (by decide))
      · rw [written, readVar, if_neg something, parts]
        simp only [Declaration.var, again]
        rfl

/-! Parameters -/

/-- Taking groups of dots off keeps a last part. -/
theorem dropEllipses_suffix (text : Text) : dropEllipses text <:+ text := by
  fun_induction dropEllipses text with
  | case1 rest inductionHypothesis =>
    exact inductionHypothesis.trans ⟨['.', '.', '.'], rfl⟩
  | case2 text other => exact List.suffix_rfl

/-- The marks of a parameter read back as they are written: one sign for a reference, one group
of dots for a variadic. -/
theorem markedName_marks (param : Param) :
    (param.markedName.head? == some '&') = param.reference ∧
      ['.', '.', '.'].isPrefixOf (param.markedName.dropWhile (· == '&')) = param.variadic ∧
      dropEllipses (param.markedName.dropWhile (· == '&')) = '$' :: param.name := by
  obtain ⟨type, name, variadic, reference, description⟩ := param
  cases reference <;> cases variadic <;>
    simp [Param.markedName, dropEllipses, List.isPrefixOf]

/-- The marks of a parameter with a visible name form a visible word, which stands for a
variable. -/
theorem markedName_exact (param : Param) (visible : Visible param.name) :
    Visible param.markedName ∧ isVariable param.markedName := by
  constructor
  · have signed : Visible ('$' :: param.name) := visible.cons (by decide)
    intro c member
    simp only [Param.markedName, List.mem_append] at member
    rcases member with (reference | dots) | inside
    · split at reference
      · obtain rfl := List.mem_singleton.mp reference
        decide
      · contradiction
    · split at dots
      · simp only [List.mem_cons, List.not_mem_nil, or_false, or_self] at dots
        subst dots
        decide
      · contradiction
    · exact signed c inside
  · rw [isVariable, (markedName_marks param).2.2]
    rfl

/-- A body with the marked name of a parameter for its variable is read as that parameter, if its
name is one that can be declared. -/
theorem readParam_marked {body : Text} {param : Param}
    (parts : Declaration.ofBody body =
      ⟨param.type.text, some param.markedName, param.description⟩)
    (declared : declaredName .param ('$' :: param.name) = .ok param.name) :
    readParam body = .ok (unlabelled (.param param)) := by
  obtain ⟨referenceMark, variadicMark, unmarked⟩ := markedName_marks param
  simp only [readParam, Declaration.param, parts, unmarked, declared, referenceMark, variadicMark,
    TypeExpr.ofText_text]
  rfl

/-- A parameter reads back with its marks. Marks that the body repeats are written once, and once
is enough to read them again. -/
theorem readParam_readsBack {body : Text} {tag : Tag} (trimmed : trim body = body)
    (done : readParam body = .ok tag) : ReadsBack readParam .param tag := by
  obtain ⟨typed, -, visible⟩ := ofBody_exact trimmed
  cases found : (Declaration.ofBody body).token with
  | none => simp [readParam, Declaration.param, found] at done
  | some token =>
    cases declared : declaredName .param (dropEllipses (token.dropWhile (· == '&'))) with
    | error fault => simp [readParam, Declaration.param, found, declared, bind, Except.bind] at done
    | ok name =>
      have unmarked : Visible (dropEllipses (token.dropWhile (· == '&'))) := fun c member =>
        (visible token found).1 c
          ((List.dropWhile_suffix _).subset ((dropEllipses_suffix _).subset member))
      obtain ⟨visibleName, again⟩ := declaredName_exact declared unmarked
      simp only [readParam, Declaration.param, found, declared] at done
      obtain rfl := Except.ok.inj done
      generalize isVariadic : ['.', '.', '.'].isPrefixOf (token.dropWhile (· == '&')) = variadic
      generalize isReference : (token.head? == some '&') = reference
      let param : Param := ⟨.ofText (Declaration.ofBody body).type, name, variadic, reference,
        (Declaration.ofBody body).description⟩
      obtain ⟨marked, sign⟩ := markedName_exact param visibleName
      have written : (unlabelled (.param param)).body =
          (Declaration.ofBody body).rejoined param.markedName := spaced_ofText typed _
      have parts := ofBody_rejoined trimmed found marked sign
      refine ⟨rfl, ?_, ?_⟩
      · rw [written]
        exact trim_rejoined trimmed marked
      · refine readParam_marked ?_ (again .param)
        rw [written, parts]
        exact congrArg (fun type => (⟨type, _, _⟩ : Declaration)) typed.symm

/-! Types alone -/

/-- A return tag reads back with its type and the description behind it. -/
theorem readReturn_readsBack {body : Text} {tag : Tag} (trimmed : trim body = body)
    (done : readReturn body = .ok tag) : ReadsBack readReturn .returns tag := by
  obtain ⟨-, -, typed, -⟩ := TypeExpr.splitToken_exact trimmed
  have again := TypeExpr.splitToken_spaced trimmed
  simp only [readReturn, ofReturn] at done
  split at done
  · contradiction
  · rename_i substantial
    obtain rfl := Except.ok.inj done
    have written : (unlabelled (.returns ⟨.ofText (TypeExpr.splitToken body).1,
        trim (TypeExpr.splitToken body).2⟩)).body =
        spaced [(TypeExpr.splitToken body).1, trim (TypeExpr.splitToken body).2] :=
      congrArg (fun type => spaced [type, _]) typed
    refine ⟨rfl, ?_, ?_⟩
    · rw [written]
      refine trim_spaced fun piece member => ?_
      simp only [List.mem_cons, List.not_mem_nil, or_false] at member
      rcases member with rfl | rfl
      · exact typed
      · exact trim_trim _
    · rw [written, readReturn, again]
      simp only [ofReturn, if_neg substantial, trim_behindSpace (trim_trim _)]

/-- A mixin reads back; what followed its type is gone already. -/
theorem readMixin_readsBack {body : Text} {tag : Tag} (trimmed : trim body = body)
    (done : readMixin body = .ok tag) : ReadsBack readMixin .mixin tag := by
  obtain ⟨-, -, typed, apart⟩ := TypeExpr.splitToken_exact trimmed
  simp only [readMixin, ofMixin] at done
  split at done
  · contradiction
  · rename_i substantial
    obtain rfl := Except.ok.inj done
    have written : (unlabelled (.mixin (.ofText (TypeExpr.splitToken body).1))).body =
        (TypeExpr.splitToken body).1 := typed
    have again : TypeExpr.splitToken (TypeExpr.splitToken body).1 =
        ((TypeExpr.splitToken body).1, []) := by
      rcases apart with entire | cutOff
      · rw [entire, entire]
      · simpa using cutOff [] startsBlank_nil
    refine ⟨rfl, by rw [written, typed], ?_⟩
    rw [written, readMixin, again]
    simp only [ofMixin, if_neg substantial]

/-! Every tag but a method -/

/-- Two computations succeed one after the other when both succeed, the second on the result of
the first. -/
theorem exists_of_bind_eq_ok {α β : Type} {first : Except TagError α}
    {next : α → Except TagError β} {result : β} (done : (first >>= next) = .ok result) :
    ∃ value, first = .ok value ∧ next value = .ok result := by
  cases first with
  | error fault => contradiction
  | ok value => exact ⟨value, rfl, done⟩

/-- Under the text of a name, a tag of that name is read from the trimmed body. -/
theorem read_text (name : TagName) (body : Text) :
    read name.text body = readBody name (trim body) := by
  rw [read, nameOfText_text]
  rfl

/-- Under their name, methods are read from the trimmed body. -/
theorem read_method (body : Text) : read TagName.method.text body = readMethod (trim body) :=
  read_text .method body

/-- The steps of the reader for methods, for a body that is not empty: the mark, the name that
announces, the signature and the method made of it. -/
theorem readMethod_eq {body : Text} (something : body ≠ []) :
    readMethod body = (do
      let text ← skipName [] (splitStatic body).2
      let signature ← Signature.ofText body text
      let method ← Method.ofSignature body (splitStatic body).1 signature
      return ofMethod method) := by
  simp only [readMethod, if_neg something]

/-- What the reader for methods gives is a method without labels, and every step before
succeeded. The results of the steps are named for the proofs about them. -/
theorem steps_of_readMethod {body : Text} {tag : Tag} (done : readMethod body = .ok tag) :
    ∃ kept signature method, skipName [] (splitStatic body).2 = .ok kept ∧
      Signature.ofText body kept = .ok signature ∧
      Method.ofSignature body (splitStatic body).1 signature = .ok method ∧
      tag = ofMethod method := by
  by_cases empty : body = []
  · subst empty
    contradiction
  · rw [readMethod_eq empty] at done
    obtain ⟨kept, skipped, done⟩ := exists_of_bind_eq_ok done
    obtain ⟨signature, cutOff, done⟩ := exists_of_bind_eq_ok done
    obtain ⟨method, made, done⟩ := exists_of_bind_eq_ok done
    exact ⟨kept, signature, method, skipped, cutOff, made, (Except.ok.inj done).symm⟩

/-- Only methods are read from the body of a method. So a tag of another form was read under
another name. -/
theorem method?_of_readMethod {body : Text} {tag : Tag} (done : readMethod body = .ok tag) :
    tag.method? ≠ none := by
  obtain ⟨_, _, method, -, -, -, rfl⟩ := steps_of_readMethod done
  exact Option.some_ne_none method

/-- A body that was read under a name, as anything but a method, reads back under it. There is
one case for each reader. -/
theorem readBody_readsBack {name : TagName} {body : Text} {tag : Tag} (trimmed : trim body = body)
    (done : readBody name body = .ok tag) (form : tag.method? = none) :
    ReadsBack (readBody name) name tag := by
  have whole := done
  rw [readBody] at done
  split_ifs at done with isParam isReturns isVar isMixin isProperty isReadOnly isWriteOnly isMethod
  · subst isParam
    exact readParam_readsBack trimmed done
  · subst isReturns
    exact readReturn_readsBack trimmed done
  · subst isVar
    exact readVar_readsBack trimmed done
  · subst isMixin
    exact readMixin_readsBack trimmed done
  · subst isProperty
    exact readProperty_readsBack trimmed done
  · subst isReadOnly
    exact readProperty_readsBack trimmed done
  · subst isWriteOnly
    exact readProperty_readsBack trimmed done
  · exact absurd form (method?_of_readMethod done)
  · obtain rfl := Except.ok.inj done
    have written : (unlabelled (.generic (.ofBody name body))).body = body := trimmed
    exact ⟨rfl, by rw [written, trimmed], by rw [written, whole]⟩

/-- Writing a tag that was read and reading it again gives the same tag, if it is no method: the
tag's own name and its own body stand for it. -/
theorem read_body_of_read {name body : Text} {tag : Tag} (done : read name body = .ok tag)
    (form : tag.method? = none) : read tag.name.text tag.body = .ok tag := by
  rw [read] at done
  cases named : nameOfText name with
  | error fault => simp [named, bind, Except.bind] at done
  | ok keyword =>
    rw [named] at done
    obtain ⟨rfl, trimmed, again⟩ := readBody_readsBack (trim_trim body) done form
    rw [read, nameOfText_text, trimmed]
    exact again

/-- A parameter whose marks are repeated and whose parts are set apart by several blanks. The
written form has each mark once, and the type keeps its two blanks. -/
theorem read_body_of_read_callable :
    ∃ tag, read "@param".toList " callable(int):  mixed  &&......$$rest  the others ".toList =
        .ok tag ∧ tag.method? = none ∧ read tag.name.text tag.body = .ok tag := by
  obtain ⟨tag, done, form⟩ : ∃ tag,
      read "@param".toList " callable(int):  mixed  &&......$$rest  the others ".toList =
        .ok tag ∧ tag.method? = none := ⟨_, rfl, rfl⟩
  exact ⟨tag, done, form, read_body_of_read done form⟩

end DocComment.Tag
