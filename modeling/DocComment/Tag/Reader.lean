import DocComment.Tag.Signature

/-!
# Reading a tag

A comment gives each tag as a name and the text behind it. The name decides the
form: a structured one where there is one for it, a generic tag otherwise. The
body is read without the blanks at its ends.
-/
namespace DocComment.Tag

/-- A return tag: a type and a description. The type is whatever the body starts with, and only
an empty body lacks one. -/
def readReturn (body : Text) : Except TagError Tag :=
  let (type, description) := TypeExpr.splitToken body
  ofReturn (.ofText type) description

/-- A mixin tag: a type; what follows it is ignored. -/
def readMixin (body : Text) : Except TagError Tag :=
  ofMixin (.ofText (TypeExpr.splitToken body).1)

/-- The tag of a given name with a body that has been trimmed. The names that have a form are
compared one after another; any other name gives a generic tag, which is never refused. -/
def readBody (name : TagName) (body : Text) : Except TagError Tag :=
  if name = .param then readParam body
  else if name = .returns then readReturn body
  else if name = .var then readVar body
  else if name = .mixin then readMixin body
  else if name = .property then readProperty .readWrite body
  else if name = .readOnlyProperty then readProperty .readOnly body
  else if name = .writeOnlyProperty then readProperty .writeOnly body
  else if name = .method then readMethod body
  else .ok (unlabelled (.generic (.ofBody name body)))

/-- The tag that a name, with or without the `@`, and a body stand for. A name that is none is
refused before the body is looked at. -/
def read (name body : Text) : Except TagError Tag := do
  readBody (← nameOfText name) (Text.trim body)

end DocComment.Tag
