import DocComment.Text.Blank

/-!
# Type expressions

A type expression is kept as written and never interpreted. Two of them are the
same exactly when their texts are; blanks at the ends do not belong to the text.
-/
namespace DocComment

/-- A text without blanks at its ends, read as a type. Nothing else is demanded of it: brackets
need not match, and the text may be empty. -/
structure TypeExpr where
  text : Text
  trimmed : Text.trim text = text
  deriving DecidableEq

namespace TypeExpr

/-- The type expression that a text holds between the blanks at its ends. Every text holds
one. -/
def ofText (text : Text) : TypeExpr := ⟨text.trim, Text.trim_trim text⟩

/-- The type of a method that gives none, which stands in where no return type is written. -/
def void : TypeExpr := ⟨"void".toList, by decide⟩

/-- A type expression may be empty where a declaration needs no type. Whether it may is up to the
tag. -/
def isEmpty (type : TypeExpr) : Bool := type.text.isEmpty

/-- The text of a type expression reads back as that type expression. -/
theorem ofText_text (type : TypeExpr) : ofText type.text = type := by
  cases type
  simpa [ofText]

end DocComment.TypeExpr
