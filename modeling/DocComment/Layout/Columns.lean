import DocComment.Tag.Written

/-!
# Tags in columns

The tags of one group are written below each other in up to four columns: keyword,
type, variable and the rest. Each column but the last is as wide as its widest
cell, counted in characters, so that the descriptions begin below each other. A
column that is empty throughout takes no space. Tags without a type and a variable
of their own go from the keyword to the rest at once.
-/
namespace DocComment.Layout

/-- The cells of one tag: type and variable only where the form has them. Both are there or
neither. -/
structure Row where
  keyword : Text
  declaration : Option (Text × Text)
  rest : Text
  deriving DecidableEq

/-- The cells that the tag's form gives it. A return tag has an empty cell for its variable. -/
def Row.ofTag (tag : Tag) : Row where
  keyword := '@' :: tag.name.text
  declaration :=
    match tag.content with
    | .param param => some (param.type.text, param.markedName)
    | .returns returns => some (returns.type.text, [])
    | .var var => some (var.type.text, var.markedName)
    | .property _ property => some (property.type.text, '$' :: property.name)
    | .generic _ | .method _ | .mixin _ => none
  rest :=
    match tag.content with
    | .param param => param.description
    | .returns returns => returns.description
    | .var var => var.description
    | .property _ property => property.description
    | .generic _ | .method _ | .mixin _ => tag.body

/-- The widths of the padded columns. The last column is not padded. -/
structure Widths where
  keyword : Nat
  type : Nat
  token : Nat
  deriving DecidableEq

/-- The length of the longest cell, counted in characters, and zero where there is no cell. -/
def widest (cells : List Text) : Nat := (cells.map List.length).foldr max 0

/-- The widths that the cells of a group require. Rows without a declaration count in the first
column only. -/
def Widths.ofRows (rows : List Row) : Widths where
  keyword := widest (rows.map (·.keyword))
  type := widest (rows.filterMap fun row => row.declaration.map (·.1))
  token := widest (rows.filterMap fun row => row.declaration.map (·.2))

/-- A cell filled up with spaces to the width of its column; a longer one stays as it is. The
width may be any number here, which is an idealisation: a formatter that keeps widths in 16 bits
breaks down at a column of more than 65535 characters. -/
def padded (width : Nat) (cell : Text) : Text := cell.rightpad width ' '

/-- A padded cell behind a space, or nothing in a column without width. -/
def cellBehind (width : Nat) (cell : Text) : Text :=
  if width = 0 then [] else ' ' :: padded width cell

/-- The cells of a row, padded, without blanks at the end. An empty rest takes no space, so the
padding of the last cell is trimmed. -/
def Row.written (widths : Widths) (row : Row) : Text :=
  Text.trimEnd (
    padded widths.keyword row.keyword ++
    (match row.declaration with
      | some (type, token) =>
        cellBehind widths.type type ++ cellBehind widths.token token
      | none => []) ++
    (if row.rest = [] then [] else ' ' :: row.rest))

/-- The tags of a group in common columns, one text each. The widths are those of this group
alone. -/
def inColumns (tags : List Tag) : List Text :=
  let rows := tags.map Row.ofTag
  rows.map (Row.written (.ofRows rows))

end DocComment.Layout
