import DocComment.Tag.Reader
import DocComment.Text.Slices

/-!
# Reading in place: declarations

The readers of a tag take texts apart. The same work can be done on the text as it is stored:
each part is a slice between two places in octets, and each depth of brackets is a count of 32
bits. Such a reader halts at a slice whose ends are no places in the text and at a count that
leaves its range, and to halt is not to refuse the body. The definitions follow the readers
slice by slice, and what needs no slice any more is left to them.

Here are the slices, the counts and the tags that begin with a type. Methods, whose readers
slice the most, have a module of their own.
-/
namespace DocComment.Tag.InPlace

open Text Brackets

/-- Why reading in place ends without a tag. A fault refuses the body with a message, and a halt
is the end of the reader itself. -/
inductive Stop
  | fault (error : TagError)
  /-- A slice has no place in its text, or a count leaves its range. -/
  | halted
  deriving DecidableEq

/-- A place inside a character halts a reader; every other error is a fault of the body. -/
def Stop.ofError : TagError → Stop
  | .insideCharacter => .halted
  | error => .fault error

/-- The result of a reader, as one in place has it. It serves the steps that slice nothing. -/
def stopped {α : Type} (result : Except TagError α) : Except Stop α :=
  result.mapError Stop.ofError

/-- A part that has no place halts the reader. There is no text to go on with, not even an empty
one. -/
def orHalt (part : Option Text) : Except Stop Text :=
  match part with
  | some part => .ok part
  | none => .error .halted

/-- A count of 32 bits, one of which is its sign. A count outside of their range halts the reader
instead of wrapping around. -/
def counted (count : Int) : Except Stop Int :=
  if -2147483648 ≤ count ∧ count < 2147483648 then .ok count else .error .halted

/-! The type at the start -/

/-- The place behind the type at the start of a text, with the states of the scan for it; the
scan has come to `place`. Blanks are stepped over by their own widths. -/
def tokenEnd (depth : Int) (passed : TypeExpr.Passed) (place : Nat) : Text → Except Stop Nat
  | [] => .ok place
  | c :: rest =>
    if isBlank c then
      if passed = .resultColon then tokenEnd depth .resultColon (place + c.utf8Size) rest
      else if depth ≤ 0 then .ok place
      else tokenEnd depth .other (place + c.utf8Size) rest
    else do
      let after ← counted (depth + step c)
      let next : TypeExpr.Passed :=
        if c = ')' ∧ after = 0 then .closed
        else if c = ':' ∧ depth = 0 ∧ passed = .closed then .resultColon
        else .other
      tokenEnd after next (place + c.utf8Size) rest

/-- The type at the start of a text, and the rest: both are sliced at the place behind the
type. -/
def splitToken (text : Text) : Except Stop (Text × Text) := do
  let stop ← tokenEnd 0 .other 0 text
  let type ← orHalt (sliceTo stop text)
  let behind ← orHalt (sliceFrom stop text)
  return (type, behind)

/-! Declarations -/

/-- The declaration behind its type: the description follows the slice that is the variable. Its
length in octets is the place of the cut. -/
def behindType (type rest : Text) : Except Stop Declaration :=
  let word := rest.takeWhile fun c => !isBlank c
  if isVariable word then do
    let description ← orHalt (sliceFrom (octets word) rest)
    return ⟨type, some word, trim description⟩
  else return ⟨type, none, trim rest⟩

/-- The declaration in a body, with the type sliced off in front of it if there is one. -/
def declaration (body : Text) : Except Stop Declaration :=
  if isVariable body then behindType [] (trimStart body)
  else do
    let (type, behind) ← splitToken body
    behindType type (trimStart behind)

/-! Tags that begin with a type -/

/-- A parameter. What is read off its declaration needs no slice any more. -/
def readParam (body : Text) : Except Stop Tag := do
  let declaration ← declaration body
  stopped (declaration.param body)

/-- A variable. An empty body is refused and not sliced. -/
def readVar (body : Text) : Except Stop Tag :=
  if body = [] then stopped (.error (.noBody TagName.var.text))
  else do
    let declaration ← declaration body
    stopped declaration.var

/-- A property, with the access that its keyword grants. -/
def readProperty (access : Access) (body : Text) : Except Stop Tag := do
  let declaration ← declaration body
  stopped (declaration.property access body)

/-- A return type and its description, sliced apart. -/
def readReturn (body : Text) : Except Stop Tag := do
  let (type, description) ← splitToken body
  stopped (ofReturn (.ofText type) description)

/-- A mixin. The slice behind the type is taken as well, though nothing is read from it. -/
def readMixin (body : Text) : Except Stop Tag := do
  let (type, _) ← splitToken body
  stopped (ofMixin (.ofText type))

end DocComment.Tag.InPlace
