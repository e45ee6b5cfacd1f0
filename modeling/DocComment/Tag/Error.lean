import DocComment.Text.Quoted

/-!
# Faults of a tag

Building or reading a tag fails for one cause, which carries what its message
shows. Messages are one line each.
-/
namespace DocComment

/-- What a body lacks to be one of its tag. Each of them belongs to one place of one reader. -/
inductive BodyFault
  | variableAfterType
  | variable
  | unclosedParameters
  | methodName
  | argumentVariable
  deriving DecidableEq

/-- The part of a message that says what is wrong with the body, in fixed words. -/
def BodyFault.reason : BodyFault → String
  | .variableAfterType => "expected a `$name` after the type"
  | .variable => "expected a `$name`"
  | .unclosedParameters => "unclosed `(`"
  | .methodName => "invalid method name"
  | .argumentVariable => "argument without a `$name`"

/-- Why there is no tag. What is named in a message is kept with the error as it was given, so
that the message shows what the reader wrote. -/
inductive TagError
  /-- The text, as given, names no tag. -/
  | invalidName (given : Text)
  | unnamedMethod
  | unnamedArgument
  | unnamedVariable (tag : Text)
  | noBody (tag : Text)
  /-- The body, or the parameter list within it, does not have the form of its tag. -/
  | malformed (tag body : Text) (fault : BodyFault)
  /-- A place in the body that is found by stepping one octet over a blank falls
  inside that blank. -/
  | insideCharacter
  deriving DecidableEq

/-- The message for a reader of the comment. Names and bodies that may hold any character are
shown quoted; a keyword is known to be plain and stands as it is. -/
def TagError.message : TagError → Text
  | .invalidName given => "invalid tag name ".toList ++ Text.quoted given
  | .unnamedMethod => "method tag requires a method name".toList
  | .unnamedArgument => "argument requires a name".toList
  | .unnamedVariable tag => '@' :: tag ++ " requires a variable name".toList
  | .noBody tag => '@' :: tag ++ " requires a body".toList
  | .malformed tag body fault =>
    "malformed @".toList ++ tag ++ " body ".toList ++ Text.quoted body ++ ": ".toList ++
      fault.reason.toList
  | .insideCharacter => "the body is cut inside a character".toList

end DocComment
