import DocComment.Text.Octets

/-!
# Slices at places given in octets

A slice of a text is named by the places of its ends. It exists if both fall between
characters, in order and within the text; so a slice is cut exactly where the text is known to
have a place, and a place that a search finds is one. A place that is found by adding an octet
to another need not be one: behind the last blank it is if that blank is an octet wide.
-/
namespace DocComment.Text

/-- The text up to a place, if there is such a place. -/
def sliceTo (stop : Nat) (text : Text) : Option Text := (cutAt stop text).map Prod.fst

/-- The text from a place on, if there is such a place. The end of the text is one, with nothing
behind it. -/
def sliceFrom (start : Nat) (text : Text) : Option Text := (cutAt start text).map Prod.snd

/-- The text between two places. A first place behind the second is none of the text in front
of the second. -/
def slice (start stop : Nat) (text : Text) : Option Text :=
  (sliceTo stop text).bind (sliceFrom start)

/-- The place of the last character with a property: the octets in front of that character. There
is none where no character has the property. -/
def lastPlace (property : Char → Bool) : Text → Option Nat
  | [] => none
  | c :: rest =>
    match lastPlace property rest with
    | some place => some (c.utf8Size + place)
    | none => if property c then some 0 else none

/-- Where the last word begins if the last blank is one octet wide. Behind a wider blank the
number is no place in the text, and a slice there does not exist. -/
def wordStart (text : Text) : Nat := (lastPlace isBlank text).elim 0 (· + 1)

end DocComment.Text
