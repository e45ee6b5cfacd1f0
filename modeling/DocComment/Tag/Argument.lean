import DocComment.Tag.Error
import DocComment.TypeExpr.Basic

/-!
# Arguments of a method

An argument has a name, a type that may be empty, and possibly a default value.
The name is stored without its sigil; a default value is stored trimmed, and an
empty one is none.
-/
namespace DocComment

/-- A variable name without the one `$` that may stand in front of it. A second one is part of
the name. -/
def dropSigil : Text → Text
  | '$' :: name => name
  | name => name

/-- One entry of a method's parameter list. Its name holds more than blanks, and a default value
is trimmed and not empty; of the type nothing is demanded. -/
structure Argument where
  name : Text
  type : TypeExpr
  defaultValue : Option Text
  named : Text.trim name ≠ []
  substantial : ∀ value ∈ defaultValue, value ≠ [] ∧ Text.trim value = value
  deriving DecidableEq

namespace Argument

/-- An argument without a default value. A name of blanks alone is refused; other blanks in it
stay, those at its ends included. -/
def ofName (name : Text) (type : TypeExpr) : Except TagError Argument :=
  if named : Text.trim (dropSigil name) ≠ [] then
    .ok ⟨dropSigil name, type, none, named, by simp⟩
  else .error .unnamedArgument

/-- The argument with the value between the blanks of the text as its default, or with none if
there are only blanks. A default that it had before is replaced either way. -/
def defaultingTo (argument : Argument) (value : Text) : Argument :=
  if given : Text.trim value ≠ [] then
    { argument with
      defaultValue := some (Text.trim value)
      substantial := by simpa [Text.trim_trim] using given }
  else { argument with defaultValue := none, substantial := by simp }

/-- The type if there is one, the variable, and the default value if there is one. The parts
stand as they are stored, with single spaces between them. -/
def written (argument : Argument) : Text :=
  (if argument.type.isEmpty then [] else argument.type.text ++ [' ']) ++
    '$' :: argument.name ++
    (match argument.defaultValue with
      | some value => " = ".toList ++ value
      | none => [])

end DocComment.Argument
