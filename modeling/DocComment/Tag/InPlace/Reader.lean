import DocComment.Tag.InPlace.Signature

/-!
# Reading a tag in place

The name decides the form, as it does for the reader that takes texts apart, and the body is
read without the blanks at its ends. A generic tag keeps its body as it is, so that nothing is
sliced for it.
-/
namespace DocComment.Tag.InPlace

open Text

/-- The tag of a given name with a body that has been trimmed. -/
def readBody (name : TagName) (body : Text) : Except Stop Tag :=
  if name = .param then readParam body
  else if name = .returns then readReturn body
  else if name = .var then readVar body
  else if name = .mixin then readMixin body
  else if name = .property then readProperty .readWrite body
  else if name = .readOnlyProperty then readProperty .readOnly body
  else if name = .writeOnlyProperty then readProperty .writeOnly body
  else if name = .method then readMethod body
  else stopped (.ok (unlabelled (.generic (.ofBody name body))))

/-- The tag that a name and a body stand for. The body is trimmed first, and is shorter then if
anything. -/
def read (name body : Text) : Except Stop Tag := do
  let name ← stopped (nameOfText name)
  readBody name (trim body)

end DocComment.Tag.InPlace
