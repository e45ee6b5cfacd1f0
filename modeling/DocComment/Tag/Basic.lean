import DocComment.Tag.Argument
import DocComment.Tag.Name

/-!
# Tags

A tag is one annotation of a documentation comment: its content and its labels.
The content has one of seven forms, and the form fixes the tag's name, except
that a generic tag may bear any name. Labels are free texts that have nothing to
do with the name; they only file the tag.

The functions that build a tag trim what they are given and refuse a tag that
lacks what its form requires. A content may also be written down directly; only
generic and method contents promise more than their types say.
-/
namespace DocComment

namespace Tag

/-- A tag without structure: any name and a trimmed body. The name may be one of those that have
a form, for a tag can be built without being read. -/
@[ext]
structure Generic where
  name : TagName
  body : Text
  trimmed : Text.trim body = body

/-- Two generic contents are equal if their names and bodies are; that both are trimmed adds
nothing. -/
instance : DecidableEq Generic := fun _ _ => decidable_of_iff _ Generic.ext_iff.symm

/-- A parameter of a function, possibly passed by reference or variadic. Its name stands without
the marks that say so. -/
structure Param where
  type : TypeExpr
  name : Text
  variadic : Bool
  reference : Bool
  description : Text
  deriving DecidableEq

/-- What a function returns, and what is to be said of it. -/
structure Return where
  type : TypeExpr
  description : Text
  deriving DecidableEq

/-- The type of a variable that need not be named. An unnamed one speaks of the declaration that
it stands at. -/
structure Var where
  type : TypeExpr
  name : Option Text
  description : Text
  deriving DecidableEq

/-- A method that a class answers to: it has a name and a return type. What the type says is not
looked at, only that there is one. -/
@[ext]
structure Method where
  name : Text
  arguments : List Argument
  returnType : TypeExpr
  isStatic : Bool
  description : Text
  named : name ≠ [] ∧ Text.trim name = name
  typed : returnType.text ≠ []
  trimmed : Text.trim description = description

/-- Two methods are equal if their parts are; that the parts are well-formed adds nothing. -/
instance : DecidableEq Method := fun _ _ => decidable_of_iff _ Method.ext_iff.symm

/-- A property that a class appears to have. How it may be accessed is kept beside it. -/
structure Property where
  type : TypeExpr
  name : Text
  description : Text
  deriving DecidableEq

/-- Whether a property may be read, written or both. -/
inductive Access
  | readWrite
  | readOnly
  | writeOnly
  deriving DecidableEq

/-- Each kind of access has a keyword of its own, and so the access is read off the keyword. -/
def Access.tagName : Access → TagName
  | .readWrite => .property
  | .readOnly => .readOnlyProperty
  | .writeOnly => .writeOnlyProperty

/-- The forms of a tag. A mixin is no more than a type, and a property carries its access. -/
inductive Content
  | generic (tag : Generic)
  | param (tag : Param)
  | returns (tag : Return)
  | var (tag : Var)
  | method (tag : Method)
  | mixin (type : TypeExpr)
  | property (access : Access) (tag : Property)
  deriving DecidableEq

end Tag

/-- One annotation of a comment with the labels that file it. Labels may repeat, and their order
is that in which they were given. -/
structure Tag where
  content : Tag.Content
  labels : List Text
  deriving DecidableEq

namespace Tag

/-- A tag that bears no label. Reading and building a tag give such ones. -/
def unlabelled (content : Content) : Tag := ⟨content, []⟩

/-- The keyword of the tag. It follows from the form, except for generic tags, which bring their
own. -/
def name (tag : Tag) : TagName :=
  match tag.content with
  | .generic generic => generic.name
  | .param _ => .param
  | .returns _ => .returns
  | .var _ => .var
  | .method _ => .method
  | .mixin _ => .mixin
  | .property access _ => access.tagName

/-- The name under which the tag is filed and grouped: the three kinds of property share one. -/
def aliasedName (tag : Tag) : Text := TagName.aliased tag.name.text

/-- The property that a structured property tag describes. A generic tag of that name describes
none. -/
def property? (tag : Tag) : Option Property :=
  match tag.content with
  | .property _ property => some property
  | _ => none

/-- The method that a structured method tag describes. A generic tag of that name describes
none. -/
def method? (tag : Tag) : Option Method :=
  match tag.content with
  | .method method => some method
  | _ => none

/-- The variable that the tag documents, for the forms that have one. It has no sign in front. -/
def documentedVariable (tag : Tag) : Option Text :=
  match tag.content with
  | .param param => some param.name
  | .var var => var.name
  | .property _ property => some property.name
  | .generic _ | .returns _ | .method _ | .mixin _ => none

/-- The type that the tag declares; only a generic tag declares none. The type may be empty where
the tag needs none. -/
def type? (tag : Tag) : Option TypeExpr :=
  match tag.content with
  | .generic _ => none
  | .param param => some param.type
  | .returns returns => some returns.type
  | .var var => some var.type
  | .method method => some method.returnType
  | .mixin type => some type
  | .property _ property => some property.type

/-- The name that a text gives, or the fault that it gives none. The fault shows the text as it
was given, with its blanks. -/
def nameOfText (given : Text) : Except TagError TagName :=
  match TagName.ofText? given with
  | some name => .ok name
  | none => .error (.invalidName given)

/-- The variable named between blanks and behind at most one `$`. Blanks behind the sign stay in
front of the name. -/
def variableOfText (tag : TagName) (given : Text) : Except TagError Text :=
  let name := dropSigil (Text.trim given)
  if name = [] then .error (.unnamedVariable tag.text) else .ok name

/-- A generic content with the trimmed body. The body may be empty. -/
def Generic.ofBody (name : TagName) (body : Text) : Generic :=
  ⟨name, Text.trim body, Text.trim_trim body⟩

/-- A tag without structure, whatever its name. Only the name is checked. -/
def ofGeneric (name body : Text) : Except TagError Tag := do
  let name ← nameOfText name
  return unlabelled (.generic (.ofBody name body))

/-- A parameter that is passed by value and is not variadic. Other ones are read, or changed
afterwards. -/
def ofParam (type : TypeExpr) (name description : Text) : Except TagError Tag := do
  let name ← variableOfText .param name
  return unlabelled (.param ⟨type, name, false, false, Text.trim description⟩)

/-- A return tag states a type, so an empty one is refused. -/
def ofReturn (type : TypeExpr) (description : Text) : Except TagError Tag :=
  if type.isEmpty then .error (.noBody TagName.returns.text)
  else .ok (unlabelled (.returns ⟨type, Text.trim description⟩))

/-- A variable that is not named, or named by a text that names one. A name that is given but
empty is refused, and does not count as none. -/
def ofVar (type : TypeExpr) (name : Option Text) (description : Text) : Except TagError Tag :=
  match name with
  | none => .ok (unlabelled (.var ⟨type, none, Text.trim description⟩))
  | some given => do
    let name ← variableOfText .var given
    return unlabelled (.var ⟨type, some name, Text.trim description⟩)

/-- A mixin tag states a type, so an empty one is refused. -/
def ofMixin (type : TypeExpr) : Except TagError Tag :=
  if type.isEmpty then .error (.noBody TagName.mixin.text)
  else .ok (unlabelled (.mixin type))

/-- A property with its access, which decides the keyword that a refusal shows. -/
def ofProperty (access : Access) (type : TypeExpr) (name description : Text) :
    Except TagError Tag := do
  let name ← variableOfText access.tagName name
  return unlabelled (.property access ⟨type, name, Text.trim description⟩)

/-- The return type given, unless there is none or it is empty. Both times the method returns
nothing, which is a type of its own. -/
def Method.returnTypeOf (given : Option TypeExpr) : TypeExpr :=
  match given with
  | some type => if type.isEmpty then .void else type
  | none => .void

/-- A method has a return type, whatever was given for it. -/
theorem Method.returnTypeOf_text (given : Option TypeExpr) : (returnTypeOf given).text ≠ [] := by
  unfold returnTypeOf
  split
  · split
    · decide
    · rename_i substantial
      simpa [TypeExpr.isEmpty] using substantial
  · decide

/-- A method; without a return type it returns nothing. Only a name of blanks is refused, and the
arguments are taken as they are. -/
def Method.ofParts (name : Text) (arguments : List Argument) (returnType : Option TypeExpr)
    (isStatic : Bool) (description : Text) : Except TagError Method :=
  if named : Text.trim name ≠ [] then
    .ok {
      name := Text.trim name
      arguments, isStatic
      returnType := returnTypeOf returnType
      description := Text.trim description
      named := ⟨named, Text.trim_trim name⟩
      typed := returnTypeOf_text returnType
      trimmed := Text.trim_trim description }
  else .error .unnamedMethod

/-- A tag for a method. The method has been checked already, so this cannot fail. -/
def ofMethod (method : Method) : Tag := unlabelled (.method method)

/-- The tag with exactly the given labels. Its content stays. -/
def withLabels (tag : Tag) (labels : List Text) : Tag := { tag with labels }

/-- The tag with one label more, behind its others. A label that it bears already is added once
more. -/
def addLabel (tag : Tag) (label : Text) : Tag := { tag with labels := tag.labels ++ [label] }

end DocComment.Tag
