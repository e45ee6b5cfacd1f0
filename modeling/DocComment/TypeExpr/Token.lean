import DocComment.Text.Blank
import DocComment.TypeExpr.Brackets

/-!
# The type at the start of a text

A type runs to the first blank outside its brackets. The result type of a callable
belongs to it: behind a parenthesis that closes at depth zero, a colon takes the
blanks that follow it into the type.
-/
namespace DocComment.TypeExpr

/-- What the scan has just passed: the parenthesis that returned to depth zero, the colon behind
such a parenthesis with the blanks it takes, or anything else. It settles whether the next blank
ends the type. -/
inductive Passed
  | other
  | closed
  | resultColon
  deriving DecidableEq

/-- The scan at a given depth: the rest of the type and what follows it. A blank ends the type
unless brackets are open or a result type is expected. -/
def scanToken (depth : Int) (passed : Passed) : Text → Text × Text
  | [] => ([], [])
  | c :: rest =>
    if Text.isBlank c then
      if passed = .resultColon then
        let (type, behind) := scanToken depth .resultColon rest
        (c :: type, behind)
      else if depth ≤ 0 then ([], c :: rest)
      else
        let (type, behind) := scanToken depth .other rest
        (c :: type, behind)
    else
      let after := depth + Brackets.step c
      let next : Passed :=
        if c = ')' ∧ after = 0 then .closed
        else if c = ':' ∧ depth = 0 ∧ passed = .closed then .resultColon
        else .other
      let (type, behind) := scanToken after next rest
      (c :: type, behind)

/-- The type at the start of the text, and the rest with its leading blanks. A text that starts
with a blank has no type there. -/
def splitToken (text : Text) : Text × Text := scanToken 0 .other text

end DocComment.TypeExpr
