import DocComment.Proofs.Tag.Rereading
import DocComment.Proofs.TypeExpr.WellFormed

/-!
# Tags of proper parts

A tag may be built from parts instead of being read. What it is written as is then read for the
first time, and the reader has nothing but single spaces to tell where a part ends. Parts that
keep to their kind are told apart by these: a well-formed type is cut off whole in front of every
blank, a variable begins with its sign and ends at the first blank, and the description is the
rest. A tag of such parts reads back, whatever brackets its type nests and whatever stands in its
description; a variable tag that names no variable needs a description that does not begin with
one.
-/
namespace DocComment.Tag

open Text

/-- The names whose tags have a form of their own. Under all other names a body is kept as it
is. -/
def structuredNames : List TagName :=
  [.param, .returns, .var, .method, .mixin, .property, .readOnlyProperty, .writeOnlyProperty]

/-- A type that is not mistaken for anything else where a declaration begins: it is well formed
and does not begin like a variable. -/
structure ProperType (type : Text) : Prop where
  formed : TypeExpr.WellFormed type
  unsigned : isVariable type = false

/-- A name as it is stored: a word without a sign in front of it. Signs behind its first
character belong to the name. -/
structure ProperName (name : Text) : Prop where
  something : name ≠ []
  visible : Visible name
  unsigned : name.head? ≠ some '$'

/-- The tags, methods apart, that are made of proper parts. -/
inductive OfProperParts : Tag → Prop
  | param {type : TypeExpr} {name description : Text} (variadic reference : Bool)
      (typed : type.text = [] ∨ ProperType type.text) (named : ProperName name)
      (described : trim description = description) :
      OfProperParts (unlabelled (.param ⟨type, name, variadic, reference, description⟩))
  | var {type : TypeExpr} {name description : Text}
      (typed : type.text = [] ∨ ProperType type.text) (named : ProperName name)
      (described : trim description = description) :
      OfProperParts (unlabelled (.var ⟨type, some name, description⟩))
  | unnamed {type : TypeExpr} {description : Text} (typed : ProperType type.text)
      (described : trim description = description)
      (begins : ∀ word ∈ (words description).head?, isVariable word = false) :
      OfProperParts (unlabelled (.var ⟨type, none, description⟩))
  | property {type : TypeExpr} {name description : Text} (access : Access)
      (typed : type.text = [] ∨ ProperType type.text) (named : ProperName name)
      (described : trim description = description) :
      OfProperParts (unlabelled (.property access ⟨type, name, description⟩))
  | returns {type : TypeExpr} {description : Text} (typed : TypeExpr.WellFormed type.text)
      (described : trim description = description) :
      OfProperParts (unlabelled (.returns ⟨type, description⟩))
  | mixin {type : TypeExpr} (typed : TypeExpr.WellFormed type.text) :
      OfProperParts (unlabelled (.mixin type))
  | generic {generic : Generic} (free : generic.name ∉ structuredNames) :
      OfProperParts (unlabelled (.generic generic))

/-! Parts -/

/-- A proper name is taken from behind its sign, for every kind of tag: it is not empty, and no
second sign is dropped. -/
theorem ProperName.declaredName_eq {name : Text} (named : ProperName name) (tag : TagName) :
    declaredName tag ('$' :: name) = .ok name := by
  have kept : ('$' :: name).dropWhile (· == '$') = name := by
    rw [List.dropWhile_cons_of_pos (by decide)]
    obtain ⟨c, rest, rfl⟩ := List.exists_cons_of_ne_nil named.something
    exact List.dropWhile_cons_of_neg (by simpa using named.unsigned)
  simp only [declaredName, kept, if_neg named.something]

/-- A sign and a proper name form a visible word, so no blank ends the variable early. -/
theorem ProperName.visible_sign {name : Text} (named : ProperName name) :
    Visible ('$' :: name) :=
  named.visible.cons (by decide)

/-- A word for a variable is found between a type, which may be missing, and a description. -/
theorem ofBody_parts {type word description : Text} (typed : type = [] ∨ ProperType type)
    (visible : Visible word) (signed : isVariable word)
    (described : trim description = description) :
    Declaration.ofBody (spaced [type, word, description]) = ⟨type, some word, description⟩ :=
  ofBody_spaced (typed.imp_right fun proper => ⟨proper.formed.isToken, proper.unsigned⟩)
    visible signed described

/-- A type, a visible word and a trimmed description make a trimmed body; the type is trimmed by
what it is. -/
theorem trim_parts {type : TypeExpr} {word description : Text} (visible : Visible word)
    (described : trim description = description) :
    trim (spaced [type.text, word, description]) = spaced [type.text, word, description] := by
  refine trim_spaced ?_
  simp only [List.forall_mem_cons, List.not_mem_nil, false_imp_iff, implies_true, and_true]
  exact ⟨type.trimmed, visible.trim_eq, described⟩

/-- A well-formed type is cut from the description behind it, with the space between them left to
the rest. -/
theorem splitToken_parts {type : Text} (typed : TypeExpr.WellFormed type) (description : Text) :
    TypeExpr.splitToken (spaced [type, description]) = (type, behindSpace description) := by
  rw [spaced_cons typed.something, spaced_singleton]
  exact typed.isToken _ (startsBlank_behindSpace description)

/-- A well-formed type is not empty, so the tags that need a type have one. -/
theorem isEmpty_eq_false {type : TypeExpr} (typed : TypeExpr.WellFormed type.text) :
    type.isEmpty = false := by
  simpa [TypeExpr.isEmpty] using typed.something

/-! Tags -/

/-- A tag that its own reader gives again reads back under its own name. The name is found by its
text, and trimming the body does nothing. -/
theorem ReadsBack.read_body {name : TagName} {tag : Tag}
    (readsBack : ReadsBack (readBody name) name tag) :
    Tag.read tag.name.text tag.body = .ok tag := by
  obtain ⟨rfl, trimmed, again⟩ := readsBack
  rw [Tag.read, nameOfText_text, trimmed]
  exact again

/-- A parameter of proper parts reads back, with a type or without one and with whatever
marks. -/
theorem readsBack_param {param : Param} (typed : param.type.text = [] ∨ ProperType param.type.text)
    (named : ProperName param.name) (described : trim param.description = param.description) :
    ReadsBack (readBody .param) .param (unlabelled (.param param)) := by
  obtain ⟨visible, signed⟩ := markedName_exact param named.visible
  exact ⟨rfl, trim_parts visible described,
    readParam_marked (ofBody_parts typed visible signed described) (named.declaredName_eq .param)⟩

/-- A variable with a proper name reads back, with a type or without one. -/
theorem readsBack_var {type : TypeExpr} {name description : Text}
    (typed : type.text = [] ∨ ProperType type.text) (named : ProperName name)
    (described : trim description = description) :
    ReadsBack (readBody .var) .var (unlabelled (.var ⟨type, some name, description⟩)) := by
  have parts := ofBody_parts typed named.visible_sign (isVariable_sign name) described
  have something : spaced [type.text, '$' :: name, description] ≠ [] :=
    spaced_ne_nil (List.mem_cons_of_mem _ List.mem_cons_self) (List.cons_ne_nil '$' name)
  refine ⟨rfl, trim_parts named.visible_sign described, ?_⟩
  change readVar (spaced [type.text, '$' :: name, description]) = _
  rw [readVar, if_neg something, parts]
  simp only [Declaration.var, named.declaredName_eq, TypeExpr.ofText_text]
  rfl

/-- Without a name, the description is found behind the type if it does not begin with a
variable. -/
theorem readsBack_unnamed {type : TypeExpr} {description : Text} (typed : ProperType type.text)
    (described : trim description = description)
    (begins : ∀ word ∈ (words description).head?, isVariable word = false) :
    ReadsBack (readBody .var) .var (unlabelled (.var ⟨type, none, description⟩)) := by
  have starts : StartsVisible description := (trim_eq_self_iff.mp described).1
  have plain : isVariable description = false := by
    by_cases empty : description = []
    · rw [empty]
      rfl
    · have first := begins _ (head?_words starts empty)
      rw [← isVariable_span, List.span_eq_takeWhile_dropWhile]
      exact first
  have something : spaced [type.text, [], description] ≠ [] :=
    spaced_ne_nil List.mem_cons_self typed.formed.something
  have whole : isVariable (spaced [type.text, [], description]) = false := by
    rw [spaced_cons typed.formed.something,
      isVariable_append (startsBlank_behindSpace _), typed.unsigned]
  have nothing : Visible [] := fun _ => nofun
  refine ⟨rfl, trim_parts nothing described, ?_⟩
  change readVar (spaced [type.text, [], description]) = _
  rw [readVar, if_neg something, ofBody_of_not_isVariable whole, spaced_cons_nil_cons,
    splitToken_parts typed.formed, trimStart_behindSpace starts,
    behindType_of_not_isVariable _ plain, described]
  simp only [Declaration.var, TypeExpr.ofText_text]

/-- Each kind of property is read under its own name. -/
theorem readBody_property (access : Access) : readBody access.tagName = readProperty access := by
  funext body
  cases access <;> rfl

/-- A property of proper parts reads back under the name of its access. -/
theorem readsBack_property {access : Access} {type : TypeExpr} {name description : Text}
    (typed : type.text = [] ∨ ProperType type.text) (named : ProperName name)
    (described : trim description = description) :
    ReadsBack (readBody access.tagName) access.tagName
      (unlabelled (.property access ⟨type, name, description⟩)) := by
  refine ⟨rfl, trim_parts named.visible_sign described, ?_⟩
  change readBody access.tagName (spaced [type.text, '$' :: name, description]) = _
  rw [readBody_property, readProperty,
    ofBody_parts typed named.visible_sign (isVariable_sign name) described]
  simp only [Declaration.property, named.declaredName_eq, TypeExpr.ofText_text]
  rfl

/-- A return tag with a well-formed type reads back. A type that begins like a variable does no
harm here, where no variable is looked for. -/
theorem readsBack_returns {type : TypeExpr} {description : Text}
    (typed : TypeExpr.WellFormed type.text) (described : trim description = description) :
    ReadsBack (readBody .returns) .returns (unlabelled (.returns ⟨type, description⟩)) := by
  have trimmed : trim (spaced [type.text, description]) = spaced [type.text, description] := by
    refine trim_spaced ?_
    simp only [List.forall_mem_cons, List.not_mem_nil, false_imp_iff, implies_true, and_true]
    exact ⟨type.trimmed, described⟩
  refine ⟨rfl, trimmed, ?_⟩
  change readReturn (spaced [type.text, description]) = _
  rw [readReturn, splitToken_parts typed]
  simp only [ofReturn, TypeExpr.ofText_text, isEmpty_eq_false typed, trim_behindSpace described]
  rfl

/-- A mixin with a well-formed type reads back; nothing is written behind the type. -/
theorem readsBack_mixin {type : TypeExpr} (typed : TypeExpr.WellFormed type.text) :
    ReadsBack (readBody .mixin) .mixin (unlabelled (.mixin type)) := by
  have cut : TypeExpr.splitToken type.text = (type.text, []) := by
    simpa using typed.isToken [] startsBlank_nil
  refine ⟨rfl, type.trimmed, ?_⟩
  change readMixin type.text = _
  rw [readMixin, cut]
  simp only [ofMixin, TypeExpr.ofText_text, isEmpty_eq_false typed]
  rfl

/-- A generic tag reads back from any body, if its name is not one that calls for a form of its
own. -/
theorem readsBack_generic {generic : Generic} (free : generic.name ∉ structuredNames) :
    ReadsBack (readBody generic.name) generic.name (unlabelled (.generic generic)) := by
  simp only [structuredNames, List.mem_cons, List.not_mem_nil, or_false, not_or] at free
  obtain ⟨param, returns, var, method, mixin, property, readOnly, writeOnly⟩ := free
  have same : Generic.ofBody generic.name generic.body = generic :=
    Generic.ext rfl generic.trimmed
  refine ⟨rfl, generic.trimmed, ?_⟩
  change readBody generic.name generic.body = _
  rw [readBody, if_neg param, if_neg returns, if_neg var, if_neg mixin, if_neg property,
    if_neg readOnly, if_neg writeOnly, if_neg method, same]

/-- A tag of proper parts reads back from its own name and its own body, with one case for each
form. -/
theorem read_body_of_properParts {tag : Tag} (proper : OfProperParts tag) :
    read tag.name.text tag.body = .ok tag := by
  cases proper with
  | param variadic reference typed named described =>
    exact (readsBack_param typed named described).read_body
  | var typed named described => exact (readsBack_var typed named described).read_body
  | unnamed typed described begins => exact (readsBack_unnamed typed described begins).read_body
  | property access typed named described =>
    exact (readsBack_property typed named described).read_body
  | returns typed described => exact (readsBack_returns typed described).read_body
  | mixin typed => exact (readsBack_mixin typed).read_body
  | generic free => exact (readsBack_generic free).read_body

/-- A parameter with both marks, a callable for its type and a description that begins like a
variable. The brackets of the type nest, and there are blanks inside and outside of them. -/
def handler : Tag :=
  unlabelled (.param {
    type := ⟨"callable(int, A<B>):  array\x7bid: int\x7d|null".toList, by decide⟩
    name := "rest".toList
    variadic := true
    reference := true
    description := "$other  are kept".toList })

/-- All the conditions on a parameter with a type, in one tag. -/
theorem read_body_of_handler :
    OfProperParts handler ∧ read handler.name.text handler.body = .ok handler := by
  have checked : "rest".toList.all (fun c => !isBlank c) := by decide
  have visible : Visible "rest".toList := by simpa [Visible] using checked
  have proper : OfProperParts handler :=
    .param true true (.inr ⟨by decide +kernel, by decide⟩) ⟨by decide, visible, by decide⟩
      (by decide)
  exact ⟨proper, read_body_of_properParts proper⟩

end DocComment.Tag
