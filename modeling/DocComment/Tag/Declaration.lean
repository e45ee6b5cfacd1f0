import DocComment.Tag.Basic
import DocComment.TypeExpr.Token

/-!
# Declarations of a variable

The bodies of several tags have the form of a type, a variable and a description.
A variable is recognised by the `$` behind its reference and variadic marks. The
type may be missing, the variable too where the tag allows it.
-/
namespace DocComment.Tag

/-- A text without the groups of three dots at its start. One or two dots that are left over
stay. -/
def dropEllipses : Text → Text
  | '.' :: '.' :: '.' :: rest => dropEllipses rest
  | text => text

/-- A word stands for a variable when reference marks, then variadic marks, then a `$` begin it.
The name behind the sign is not looked at, and may be missing. -/
def isVariable (token : Text) : Bool :=
  (dropEllipses (token.dropWhile (· == '&'))).head? == some '$'

/-- A body cut into its type, the word of its variable and its description. The word is kept with
its marks and its sign. -/
structure Declaration where
  type : Text
  token : Option Text
  description : Text
  deriving DecidableEq

/-- Behind the type, the variable is the first word, if that word is one; otherwise the
description begins there. A variable that comes later is part of the description. -/
def Declaration.behindType (type rest : Text) : Declaration :=
  let (word, description) := rest.span fun c => !Text.isBlank c
  if isVariable word then ⟨type, some word, Text.trim description⟩
  else ⟨type, none, Text.trim rest⟩

/-- A body that begins with a variable has no type. Blanks between the parts are left out. -/
def Declaration.ofBody (body : Text) : Declaration :=
  if isVariable body then .behindType [] (Text.trimStart body)
  else
    let (type, behind) := TypeExpr.splitToken body
    .behindType type (Text.trimStart behind)

/-- The name in the word of a variable, without every `$` in front of it. A word of these alone
is refused. -/
def declaredName (tag : TagName) (token : Text) : Except TagError Text :=
  let name := token.dropWhile (· == '$')
  if name = [] then .error (.unnamedVariable tag.text) else .ok name

/-- The parameter that a declaration describes. It takes the reference and variadic marks off its
variable, and it cannot do without one; the body is what a message shows. -/
def Declaration.param (declaration : Declaration) (body : Text) : Except TagError Tag :=
  match declaration.token with
  | none => .error (.malformed TagName.param.text body .variableAfterType)
  | some token => do
    let unreferenced := token.dropWhile (· == '&')
    let name ← declaredName .param (dropEllipses unreferenced)
    return unlabelled (.param {
      type := .ofText declaration.type
      name
      variadic := ['.', '.', '.'].isPrefixOf unreferenced
      reference := token.head? == some '&'
      description := declaration.description })

/-- The variable that a declaration describes, named or not. Marks in front of the sign are not
taken off here, and so they stay in the name. -/
def Declaration.var (declaration : Declaration) : Except TagError Tag :=
  match declaration.token with
  | none => .ok (unlabelled (.var ⟨.ofText declaration.type, none, declaration.description⟩))
  | some token => do
    let name ← declaredName .var token
    return unlabelled (.var ⟨.ofText declaration.type, some name, declaration.description⟩)

/-- The property that a declaration describes. It names its variable, again with its marks; the
body is what a message shows. -/
def Declaration.property (declaration : Declaration) (access : Access) (body : Text) :
    Except TagError Tag :=
  match declaration.token with
  | none => .error (.malformed access.tagName.text body .variable)
  | some token => do
    let name ← declaredName access.tagName token
    return unlabelled
      (.property access ⟨.ofText declaration.type, name, declaration.description⟩)

/-- A parameter from its body. An empty body has no variable, and is refused for that. -/
def readParam (body : Text) : Except TagError Tag := (Declaration.ofBody body).param body

/-- A variable from its body. It may be left unnamed, but its body is not empty. -/
def readVar (body : Text) : Except TagError Tag :=
  if body = [] then .error (.noBody TagName.var.text) else (Declaration.ofBody body).var

/-- A property from its body, with the access that its keyword grants. -/
def readProperty (access : Access) (body : Text) : Except TagError Tag :=
  (Declaration.ofBody body).property access body

end DocComment.Tag
