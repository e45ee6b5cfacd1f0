import DocComment.Proofs.Tag.InPlaceMethod
import DocComment.Tag.InPlace.Reader

/-!
# Reading never halts

A reader in place has the result of the reader that takes texts apart, and halts where that one
ends inside a character. Only the readers of methods can, and only where a blank is wider than
an octet: everything else that a body may hold, in whatever script, is sliced between its
characters. So every name and every body short enough for the counts give a tag or a fault,
but for bodies of methods with such a blank.
-/
namespace DocComment.Tag

open Text Brackets

namespace InPlace

/-- Under every name a body is read in place as it is read otherwise. A generic body is not
sliced at all. -/
theorem readBody_eq (name : TagName) {body : Text} (short : body.length < 2147483648) :
    readBody name body = stopped (Tag.readBody name body) := by
  simp only [readBody, Tag.readBody, readParam_eq short, readReturn_eq short, readVar_eq short,
    readMixin_eq short, readProperty_eq _ short, readMethod_eq short, apply_ite stopped]

/-- Reading in place is reading, as long as no count leaves its range. A place inside a
character, which only a wide blank brings about, is a halt on the left and an error on the
right. -/
theorem read_eq (name : Text) {body : Text} (short : body.length < 2147483648) :
    read name body = stopped (Tag.read name body) := by
  have shorter : (trim body).length ≤ body.length :=
    (trimEnd_isPrefix (trimStart body)).length_le.trans (List.dropWhile_suffix isBlank).length_le
  rw [read, Tag.read]
  exact stopped_bind fun found _ => readBody_eq found (Nat.lt_of_le_of_lt shorter short)

end InPlace

/-! Readers that end -/

/-- A reader ends with a result or a fault of its text, not inside a character. -/
def Ends {α : Type} (result : Except TagError α) : Prop := result ≠ .error .insideCharacter

/-- A result is an end. -/
theorem ends_ok {α : Type} (value : α) : Ends (.ok value) := by
  intro same
  contradiction

/-- Every error but that of a place inside a character is an end. -/
theorem ends_error {α : Type} {error : TagError} (fault : error ≠ .insideCharacter) :
    Ends (.error error : Except TagError α) := by
  intro same
  exact fault (Except.error.inj same)

/-- A reader in steps ends if each of them does. Only the results that the first step can have
need be gone on with. -/
theorem Ends.bind {α β : Type} {first : Except TagError α} {next : α → Except TagError β}
    (ends : Ends first) (later : ∀ value, first = .ok value → Ends (next value)) :
    Ends (first >>= next) := by
  cases first with
  | error fault => exact ends_error fun same => ends (congrArg Except.error same)
  | ok value => exact later value rfl

/-- A reader that ends on every text ends on a list of texts; at the first fault the others are
left. -/
theorem ends_mapM {α β : Type} {reader : α → Except TagError β} (ends : ∀ text, Ends (reader text))
    (texts : List α) : Ends (texts.mapM reader) := by
  induction texts with
  | nil => exact ends_ok []
  | cons text others inductionHypothesis =>
    rw [List.mapM_cons]
    exact (ends text).bind fun value _ => inductionHypothesis.bind fun values _ => ends_ok _

/-! Readers that slice nothing -/

/-- A name is found or refused, and nothing is cut to find it. -/
theorem ends_nameOfText (given : Text) : Ends (nameOfText given) := by
  rw [nameOfText]
  split
  · exact ends_ok _
  · exact ends_error (by simp)

/-- The name of a variable is found or refused. Its signs are taken off by characters. -/
theorem ends_declaredName (tag : TagName) (token : Text) : Ends (declaredName tag token) := by
  rw [declaredName]
  split
  · exact ends_error (by simp)
  · exact ends_ok _

/-- A parameter is read to its end, whatever blanks it has: its parts are cut in front of whole
characters. -/
theorem ends_readParam (body : Text) : Ends (readParam body) := by
  rw [readParam, Declaration.param]
  split
  · exact ends_error (by simp)
  · exact (ends_declaredName _ _).bind fun _ _ => ends_ok _

/-- A variable is read to its end, whether its name is missing, refused or found. -/
theorem ends_readVar (body : Text) : Ends (readVar body) := by
  rw [readVar]
  split
  · exact ends_error (by simp)
  · rw [Declaration.var]
    split
    · exact ends_ok _
    · exact (ends_declaredName _ _).bind fun _ _ => ends_ok _

/-- A property is read to its end, however it may be accessed. -/
theorem ends_readProperty (access : Access) (body : Text) : Ends (readProperty access body) := by
  rw [readProperty, Declaration.property]
  split
  · exact ends_error (by simp)
  · exact (ends_declaredName _ _).bind fun _ _ => ends_ok _

/-- A return type is read to its end. It is refused only if there is no type. -/
theorem ends_readReturn (body : Text) : Ends (readReturn body) := by
  rw [readReturn]
  dsimp only
  rw [ofReturn]
  split
  · exact ends_error (by simp)
  · exact ends_ok _

/-- A mixin is read to its end. It is refused only if there is no type. -/
theorem ends_readMixin (body : Text) : Ends (readMixin body) := by
  rw [readMixin, ofMixin]
  split
  · exact ends_error (by simp)
  · exact ends_ok _

/-! The parts of a method -/

/-- An argument is read to its end: its signs are single octets, and the cuts fall beside
them. -/
theorem ends_readArgument (parameters text : Text) : Ends (readArgument parameters text) := by
  rw [readArgument]
  dsimp only
  split
  · refine Ends.bind ?_ fun argument _ => ?_
    · rw [Argument.ofName]
      split
      · exact ends_ok _
      · exact ends_error (by simp)
    · split <;> exact ends_ok _
  · exact ends_error (by simp)

/-- The name and the return type of a method are read to their end, since they are told apart by
words. -/
theorem ends_heading (body head : Text) : Ends (Method.heading body head) := by
  rw [Method.heading]
  dsimp only
  split
  · exact ends_error (by simp)
  · split
    · exact ends_ok _
    · exact ends_error (by simp)

/-- A method is made of its signature or refused. All cuts inside characters come before this
step. -/
theorem ends_ofSignature (body : Text) (isStatic : Bool) (signature : Signature) :
    Ends (Method.ofSignature body isStatic signature) := by
  rw [Method.ofSignature]
  refine (ends_heading body signature.head).bind fun parts _ => ?_
  have built (arguments : List Argument) : Ends
      (Method.ofParts parts.1 arguments parts.2 isStatic signature.description) := by
    rw [Method.ofParts]
    split
    · exact ends_ok _
    · exact ends_error (by simp)
  obtain ⟨name, returnType⟩ := parts
  cases signature.parameters with
  | none => exact built []
  | some parameters =>
    exact (ends_mapM (ends_readArgument parameters) _).bind fun arguments _ => built arguments

/-- Where all blanks are narrow, the search for a name to skip ends. It is one of three steps
that cut by octets. -/
theorem ends_skipName {passed text : Text} (narrow : Narrow (passed.reverse ++ text)) :
    Ends (skipName passed text) := by
  fun_induction skipName passed text with
  | case1 passed behind wide =>
    rw [lastWordByOctet_of_narrow (narrow_front narrow)] at wide
    contradiction
  | case2 => exact ends_ok _
  | case3 passed behind before name last kept inductionHypothesis =>
    exact inductionHypothesis (narrow_cons (narrow_cons narrow))
  | case4 passed c rest other inductionHypothesis => exact inductionHypothesis (narrow_cons narrow)
  | case5 => exact ends_ok _

/-- So does the search for the parameter list, which looks for the word in front of a parenthesis
in the same way. -/
theorem ends_openParameters {depth : Int} {passed text : Text}
    (narrow : Narrow (passed.reverse ++ text)) : Ends (openParameters depth passed text) := by
  fun_induction openParameters depth passed text with
  | case1 => exact ends_ok _
  | case2 depth passed c rest parenthesis wide =>
    have narrowEnd : Narrow (trimEnd passed.reverse) :=
      (narrow_front narrow).of_subset (trimEnd_isPrefix passed.reverse).subset
    rw [lastWordByOctet_of_narrow narrowEnd] at wide
    contradiction
  | case3 => exact ends_ok _
  | case4 depth passed c rest parenthesis before word last name type inductionHypothesis =>
    exact inductionHypothesis (narrow_cons narrow)
  | case5 depth passed c rest other inductionHypothesis =>
    exact inductionHypothesis (narrow_cons narrow)

/-- The cut behind the second word falls behind that word, as the one blank in front of it is a
single octet. -/
theorem ends_withoutParameters {text : Text} (narrow : Narrow text) :
    Ends (Signature.withoutParameters text) := by
  obtain ⟨-, apart, whole⟩ := span_exact text
  rw [Signature.withoutParameters]
  dsimp only
  generalize (text.span fun c => !isBlank c).1 = first at *
  generalize (text.span fun c => !isBlank c).2 = behind at *
  subst whole
  cases behind with
  | nil => exact ends_ok _
  | cons blank rest =>
    rw [List.drop_one, List.tail_cons]
    split
    · exact ends_ok _
    · have size : blank.utf8Size = 1 := narrow blank (by simp) (apart blank rfl)
      have whole : first ++ blank :: (rest.takeWhile fun c => !isBlank c) ++
          (rest.dropWhile fun c => !isBlank c) = first ++ blank :: rest := by
        rw [List.append_assoc, List.cons_append, List.takeWhile_append_dropWhile]
      have place : octets first + 1 + octets (rest.takeWhile fun c => !isBlank c) =
          octets (first ++ blank :: (rest.takeWhile fun c => !isBlank c)) := by
        rw [octets_append, octets, size, Nat.add_assoc]
      rw [place, ← whole, cutAt_octets]
      exact ends_ok _

/-- A signature is cut to the end where all blanks are narrow, with a parameter list and without
one. -/
theorem ends_ofText (body : Text) {text : Text} (narrow : Narrow text) :
    Ends (Signature.ofText body text) := by
  have search : Ends (openParameters 0 [] text) := ends_openParameters narrow
  rw [Signature.ofText]
  refine search.bind fun result _ => ?_
  split
  · split
    · exact ends_ok _
    · exact ends_error (by simp)
  · exact ends_withoutParameters narrow

/-- A method is read to its end where all blanks of its body are narrow. What the steps leave of
the body has no other blanks. -/
theorem ends_readMethod {body : Text} (narrow : Narrow body) : Ends (readMethod body) := by
  by_cases empty : body = []
  · subst empty
    exact ends_error (by simp)
  · have narrowText : Narrow (splitStatic body).2 :=
      narrow.of_subset (splitStatic_isSuffix body).subset
    have search : Ends (skipName [] (splitStatic body).2) := ends_skipName narrowText
    rw [readMethod_eq empty]
    refine search.bind fun text skipped => ?_
    have narrowKept : Narrow text := narrowText.of_subset (sublist_of_skipName skipped).subset
    exact (ends_ofText body narrowKept).bind fun signature _ =>
      (ends_ofSignature body _ signature).bind fun method _ => ends_ok _

/-- Every body is read to its end under its name; only the bodies of methods need narrow
blanks. -/
theorem ends_readBody {name : TagName} {body : Text} (narrow : name = .method → Narrow body) :
    Ends (readBody name body) := by
  rw [readBody]
  split
  · exact ends_readParam body
  split
  · exact ends_readReturn body
  split
  · exact ends_readVar body
  split
  · exact ends_readMixin body
  split
  · exact ends_readProperty _ body
  split
  · exact ends_readProperty _ body
  split
  · exact ends_readProperty _ body
  split
  · rename_i method
    exact ends_readMethod (narrow method)
  · exact ends_ok _

/-- Every name and body are read to the end, but for bodies of methods with a wide blank. -/
theorem ends_read {name body : Text}
    (narrow : TagName.ofText? name = some .method → Narrow body) : Ends (read name body) := by
  rw [read]
  refine (ends_nameOfText name).bind fun found named => ends_readBody fun method => ?_
  subst method
  have given : TagName.ofText? name = some .method := by
    rw [nameOfText] at named
    split at named
    · rename_i same
      rw [same, Except.ok.inj named]
    · contradiction
  exact fun c member => narrow given c (mem_of_mem_trim member)

/-- Reading never halts: in place, every name and every body of fewer than two to the 31
characters, which is what the counts can hold, give the tag or the fault that reading them gives,
unless the name is that of methods and the body has a blank wider than an octet. -/
theorem read_in_place {name body : Text} (short : body.length < 2147483648)
    (narrow : TagName.ofText? name = some .method → ∀ c ∈ body, isBlank c → c.utf8Size = 1) :
    (∃ tag, InPlace.read name body = .ok tag ∧ read name body = .ok tag) ∨
      ∃ error, error ≠ .insideCharacter ∧
        InPlace.read name body = .error (.fault error) ∧ read name body = .error error := by
  have ends := ends_read narrow
  rw [InPlace.read_eq name short]
  cases done : read name body with
  | ok tag => exact .inl ⟨tag, rfl, rfl⟩
  | error error =>
    rw [done] at ends
    have fault : error ≠ .insideCharacter := fun same => ends (congrArg Except.error same)
    exact .inr ⟨error, fault, congrArg Except.error (InPlace.Stop.ofError_eq fault), rfl⟩

/-- A method with letters of several octets in its type, its name, its arguments and its
description, behind a name that announces it. -/
def measuring : Text := "Größe größe() größe(Größe $maß = 'ß', $über) für alle".toList

/-- Its places in octets are not those in characters, and it is read in place all the same, with
the name that announces it taken out. -/
theorem read_in_place_measuring :
    measuring.length < 2147483648 ∧ TagName.ofText? "@method".toList = some .method ∧
      Narrow measuring ∧
        ∃ tag, InPlace.read "@method".toList measuring = .ok tag ∧
          read "@method".toList measuring = .ok tag := by
  have short : measuring.length < 2147483648 := by decide
  have narrow : Narrow measuring := by decide
  refine ⟨short, by decide, narrow, ?_⟩
  obtain done | ⟨error, -, -, refused⟩ :=
    @read_in_place "@method".toList measuring short fun _ => narrow
  · exact done
  · have accepted : (read "@method".toList measuring).toBool = true := by decide
    rw [refused] at accepted
    exact absurd accepted Bool.false_ne_true

/-- A wide blank in front of the name of a method is stepped into. -/
example : read "method".toList "int\u3000size(int $of)".toList = .error .insideCharacter := by
  decide

end DocComment.Tag
