import DocComment.Layout.Style
import DocComment.Toml.Reader

/-!
# The style in a configuration document

A configuration document may hold one table, `render`, with up to three fields.
What is missing keeps its standard value; any other key, and any value of another
type, makes the document invalid. The three values may also be given without their
keys, in an array; items behind the third are ignored.

The search for a style takes its decoder as a parameter. What is read here is one decoder, with
which the search can be run; no theorem rests on it.
-/
namespace DocComment.Style

/-- The fields of the table `render`, in the order in which an array gives them. -/
inductive Field
  | width
  | sorted
  | aligned
  deriving DecidableEq

/-- The fields in the order of an array. -/
def Field.all : List Field := [.width, .sorted, .aligned]

/-- The key of a field, which is not its name here. -/
def Field.key : Field → Text
  | .width => "wrap_width".toList
  | .sorted => "sort_tags".toList
  | .aligned => "align_columns".toList

/-- A width is a whole number of at most 64 bits without a sign. Zero is one; it is refused
later. -/
def widthOf? : Toml.Value → Option Nat
  | .integer number => if 0 ≤ number ∧ number.toNat < UInt64.size then some number.toNat else none
  | _ => none

/-- A choice is a truth value; the words for it between quotes are none. -/
def choiceOf? : Toml.Value → Option Bool
  | .boolean choice => some choice
  | _ => none

/-- The style with the value of one field replaced, if the value has the field's type. -/
def set? (style : Style) (field : Field) (value : Toml.Value) : Option Style :=
  match field with
  | .width => (widthOf? value).map fun width => { style with width := width }
  | .sorted => (choiceOf? value).map fun choice => { style with sorted := choice }
  | .aligned => (choiceOf? value).map fun choice => { style with aligned := choice }

/-- The style that a value under `render` describes: a table by its keys, or an array by its
order. An array may be shorter or longer than there are fields. -/
def ofValue? : Toml.Value → Option Style
  | .table _ fields => fields.foldlM (fun style (key, value) => do
      style.set? (← Field.all.find? (·.key = key)) value) standard
  | .array items => (Field.all.zip items).foldlM
      (fun style (field, value) => style.set? field value) standard
  | _ => none

/-- The style that the fields of a document describe. There may be one field at most, and without
it the style is the standard one. -/
def ofFields? (fields : Toml.Fields) : Option Style :=
  match fields with
  | [] => some standard
  | [(key, value)] => if key = "render".toList then ofValue? value else none
  | _ => none

/-- The style that a configuration document describes, if it is one and describes a style. -/
def ofDocument? (text : Text) : Option Style := (Toml.read text).bind ofFields?

end DocComment.Style
