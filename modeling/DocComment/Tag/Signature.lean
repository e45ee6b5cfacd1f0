import DocComment.Tag.Declaration
import DocComment.Text.Alphanumeric
import DocComment.Text.Octets

/-!
# Method signatures

The body of a method tag is `static` if it applies, a return type, a name, a
parameter list in parentheses and a description. Return type, parameter list and
description may be missing. A name with an empty parameter list that precedes the
real signature is skipped.

The places at which words are separated are offsets in octets, found by stepping
one octet over a blank. For a wider blank such a step ends inside it, and reading
fails with `insideCharacter`; between the two words of a body without parameters
it is the sum of their lengths that is short, so that the cut falls early and may
hit the end of a character by chance.
-/
namespace DocComment.Tag

/-- Whether a name with an empty parameter list is skipped: it is made of word characters, and
behind blanks follows a word with a parenthesis inside it. What else that word is does not
matter. -/
def isSkippedName (name behind : Text) : Bool :=
  let next := (Text.trimStart behind).takeWhile fun c => !Text.isBlank c
  name ≠ [] && name.all Text.isWordCharacter && (behind.head?.any Text.isBlank) &&
    next.contains '(' && next.head? ≠ some '('

/-- The text without the first name that is skipped and the blanks behind it, and without any
change if there is none. `passed` is what precedes, reversed. A name is looked for at every empty
list, in a description as well as in front of a signature. -/
def skipName (passed : Text) : Text → Except TagError Text
  | '(' :: ')' :: behind =>
    match Text.lastWordByOctet passed.reverse with
    | none => .error .insideCharacter
    | some (before, name) =>
      if isSkippedName name behind then .ok (before ++ Text.trimStart behind)
      else skipName (')' :: '(' :: passed) behind
  | c :: rest => skipName (c :: passed) rest
  | [] => .ok passed.reverse

/-- The words that take a parameter list as part of a type, in capital or small letters of
ASCII. -/
def isCallableWord (word : Text) : Bool :=
  let lowered := word.map Char.toLower
  lowered == "callable".toList || lowered == "closure".toList

/-- The head before the parenthesis that opens the parameter list, and what follows that
parenthesis. It is the first one outside all brackets with a word before it that does not make a
callable type of it. `passed` is what precedes, reversed. -/
def openParameters (depth : Int) (passed : Text) :
    Text → Except TagError (Option (Text × Text))
  | [] => .ok none
  | c :: rest =>
    if c = '(' ∧ depth = 0 then
      match Text.lastWordByOctet (Text.trimEnd passed.reverse) with
      | none => .error .insideCharacter
      | some (_, word) =>
        let name := word.dropWhile (· == '\\')
        if name ≠ [] ∧ ¬ isCallableWord name then .ok (some (passed.reverse, rest))
        else openParameters (depth + Brackets.step c) (c :: passed) rest
    else openParameters (depth + Brackets.step c) (c :: passed) rest

/-- A method body cut into return type and name, parameter list and description. The list may be
missing, which is not the same as being empty. -/
structure Signature where
  head : Text
  parameters : Option Text
  description : Text
  deriving DecidableEq

/-- Without a parameter list the head is the first two words, if one blank separates them; the
rest is description. A single word has no description, and behind two blanks there is no second
word to be found. -/
def Signature.withoutParameters (text : Text) : Except TagError Signature :=
  let (first, behind) := text.span fun c => !Text.isBlank c
  let second := (behind.drop 1).takeWhile fun c => !Text.isBlank c
  if second = [] then .ok ⟨first, none, []⟩
  else match Text.cutAt (Text.octets first + 1 + Text.octets second) text with
    | some (head, description) => .ok ⟨head, none, Text.trim description⟩
    | none => .error .insideCharacter

/-- The signature in a text without `static` and skipped name; the whole body is what a message
shows. A list that opens must close, and other brackets in it do not count for that. -/
def Signature.ofText (body text : Text) : Except TagError Signature := do
  match ← openParameters 0 [] text with
  | some (head, behind) =>
    match Brackets.splitClosing 0 behind with
    | some (parameters, description) => return ⟨head, some parameters, Text.trim description⟩
    | none => .error (.malformed TagName.method.text body .unclosedParameters)
  | none => Signature.withoutParameters text

/-- The type of an argument without the marks at its end: first the reference marks, then the
variadic ones. Reference marks in front of variadic ones thus stay in the type. -/
def argumentType (text : Text) : TypeExpr :=
  .ofText (dropEllipses ((Text.trim text).reverse.dropWhile (· == '&'))).reverse

/-- One argument of a parameter list. The default value follows the first `=`, the name the last
`$` before that. The message about a missing name shows the whole list. -/
def readArgument (parameters text : Text) : Except TagError Argument := do
  let (declared, value) := text.span (· != '=')
  let declaration := Text.trim declared
  let name := (declaration.reverse.takeWhile (· != '$')).reverse
  if declaration.contains '$' then
    let type := declaration.take (declaration.length - (name.length + 1))
    let argument ← Argument.ofName name (argumentType type)
    match value with
    | [] => return argument
    | _ :: value => return argument.defaultingTo value
  else .error (.malformed TagName.method.text parameters .argumentVariable)

/-- The arguments between the commas outside all brackets; empty ones are left out. The first one
that is refused decides. -/
def readArguments (parameters : Text) : Except TagError (List Argument) :=
  (((Brackets.splitCommas 0 parameters).map Text.trim).filter (· ≠ [])).mapM
    (readArgument parameters)

/-- A method's name may be qualified, and several may be joined by bars. -/
def isMethodNameCharacter (c : Char) : Bool :=
  Text.isWordCharacter c || c == '\\' || c == '|'

/-- The text behind a leading `static` with blanks after it, and whether there is one. Without a
blank the word is taken for the beginning of a type or a name. -/
def splitStatic (text : Text) : Bool × Text :=
  match List.isPrefixOf? "static".toList text with
  | some behind =>
    if behind.head?.any Text.isBlank then (true, Text.trimStart behind) else (false, text)
  | none => (false, text)

/-- Name and return type of a method: the last word of the head is its name, the words before are
its return type, joined by single spaces. The body is what a message shows. -/
def Method.heading (body head : Text) : Except TagError (Text × Option TypeExpr) :=
  let headWords := Text.words head
  match headWords.getLast? with
  | none => .error .unnamedMethod
  | some name =>
    if name.all isMethodNameCharacter then
      let typeWords := headWords.dropLast
      .ok (name, if typeWords = [] then none else some (.ofText ([' '].intercalate typeWords)))
    else .error (.malformed TagName.method.text body .methodName)

/-- The method that a signature declares. A fault of its heading comes before those of its
arguments. -/
def Method.ofSignature (body : Text) (isStatic : Bool) (signature : Signature) :
    Except TagError Method := do
  let (name, returnType) ← heading body signature.head
  let arguments ← match signature.parameters with
    | none => pure []
    | some parameters => readArguments parameters
  Method.ofParts name arguments returnType isStatic signature.description

/-- A method tag from its body. An empty body is refused before anything is looked for in it. -/
def readMethod (body : Text) : Except TagError Tag := do
  if body = [] then throw (.noBody TagName.method.text)
  let (isStatic, text) := splitStatic body
  let text ← skipName [] text
  let signature ← Signature.ofText body text
  return ofMethod (← Method.ofSignature body isStatic signature)

end DocComment.Tag
