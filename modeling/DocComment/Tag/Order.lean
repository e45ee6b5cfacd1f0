import DocComment.Tag.Basic
import DocComment.Text.LowerCase

/-!
# Comparing tags

Tags are ordered by their aliased names. Two properties of one aliased name are
ordered by their variables, two methods by their names, in both cases without
regard to case. All other tags of one aliased name compare equal, so that a
stable sort keeps them as they were.

Two tags match when they describe the same thing: their names are the same, and
where both name a variable or a method, they name the same one.
-/
namespace DocComment.Tag

/-- The order of tags for sorted views: by the names under which they are filed, then properties
and methods by their own names, the case of letters ignored. Tags of one name are otherwise equal
in it, so it does not tell all tags apart. -/
def order (left right : Tag) : Ordering :=
  (compare left.aliasedName right.aliasedName).then
    (match left.content, right.content with
      | .property _ one, .property _ other => Text.compareIgnoringCase one.name other.name
      | .method one, .method other => Text.compareIgnoringCase one.name other.name
      | _, _ => .eq)

/-- Whether two contents of one name may describe the same thing. Contents of different forms are
not told apart, nor are variables of which one is unnamed. -/
def Content.agrees : Content → Content → Bool
  | .property _ one, .property _ other => one.name == other.name
  | .param one, .param other => one.name == other.name
  | .var one, .var other =>
    match one.name, other.name with
    | some name, some given => name == given
    | _, _ => true
  | .method one, .method other => one.name == other.name
  | _, _ => true

/-- Whether two tags describe the same thing: their keywords are the same, and their contents
agree. A read-only property thus matches no property that can be written. -/
def isMatch (left right : Tag) : Bool :=
  left.name == right.name && left.content.agrees right.content

end DocComment.Tag
