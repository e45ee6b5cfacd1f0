import DocComment.Tag.Basic

/-!
# The written form of a tag

A tag is written as its keyword behind an `@` and, unless it is empty, its body
behind a space. A body is made of the parts that its form has; parts that are
empty leave no space behind.
-/
namespace DocComment.Tag

/-- The variable of a parameter with the marks for reference and variadic passing, one of each at
most and in the order in which they are read. -/
def Param.markedName (param : Param) : Text :=
  (if param.reference then ['&'] else []) ++
    (if param.variadic then ['.', '.', '.'] else []) ++ '$' :: param.name

/-- A variable that may be missing; a missing one is written as nothing, and leaves no gap. -/
def Var.markedName (var : Var) : Text :=
  match var.name with
  | some name => '$' :: name
  | none => []

/-- The signature of a method and, if there is one, its description. The return type is always
written, also where it was not given. -/
def Method.written (method : Method) : Text :=
  (if method.isStatic then "static ".toList else []) ++
    method.returnType.text ++ ' ' :: method.name ++
    '(' :: [',', ' '].intercalate (method.arguments.map Argument.written) ++ [')'] ++
    (if method.description = [] then [] else ' ' :: method.description)

/-- What follows the keyword. Parts that are empty are left out, and a mixin has its type
alone. -/
def body (tag : Tag) : Text :=
  match tag.content with
  | .generic generic => generic.body
  | .param param =>
    Text.spaced [param.type.text, param.markedName, param.description]
  | .returns returns => Text.spaced [returns.type.text, returns.description]
  | .var var => Text.spaced [var.type.text, var.markedName, var.description]
  | .method method => method.written
  | .mixin type => type.text
  | .property _ property =>
    Text.spaced [property.type.text, '$' :: property.name, property.description]

/-- The whole tag in one text, with one space behind the keyword unless nothing follows it. -/
def written (tag : Tag) : Text :=
  if tag.body = [] then '@' :: tag.name.text
  else '@' :: tag.name.text ++ ' ' :: tag.body

end DocComment.Tag
