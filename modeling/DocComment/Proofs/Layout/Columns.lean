import DocComment.Layout.Columns
import DocComment.Proofs.Comment.Words
import DocComment.Proofs.Text.Visible

/-!
# Columns line up

In a group of tags every type stands below the other types, every variable below the other
variables and every description below the other descriptions, counted in characters. It makes no
difference which of them a tag has: an empty cell is filled up like any other, and a column that
is empty in all tags has no place in any. Only blanks at the end of a line may be missing, so
that each cell is found up to the blanks at its own end.

The proof reads a line as fields, each of them a cell with the spaces behind it up to the next
column. The fields of a column have one length in all lines, which is what makes the columns
line up; trimming the end of the line then takes nothing but blanks from them.
-/
namespace DocComment

open Text

namespace Text

/-- Behind the place where a text is divided, trimming its end trims that of the second part. -/
theorem drop_trimEnd_append (before behind : Text) :
    (trimEnd (before ++ behind)).drop before.length = trimEnd behind := by
  rcases trimEnd_append_cases before behind with kept | ⟨none, alone⟩
  · rw [kept, List.drop_left]
  · rw [none, alone]
    exact List.drop_eq_nil_of_le (trimEnd_isPrefix before).length_le

/-- Before that place, it takes no more than blanks from the end of the first part. -/
theorem trimEnd_take_trimEnd_append (before behind : Text) :
    trimEnd ((trimEnd (before ++ behind)).take before.length) = trimEnd before := by
  rcases trimEnd_append_cases before behind with kept | ⟨-, alone⟩
  · rw [kept, List.take_left]
  · rw [alone, List.take_of_length_le (trimEnd_isPrefix before).length_le, trimEnd_trimEnd]

/-- Spaces at the end are trimmed away, however many there are. -/
theorem trimEnd_append_replicate (text : Text) (count : Nat) :
    trimEnd (text ++ List.replicate count ' ') = trimEnd text := by
  induction count with
  | zero => rw [List.replicate_zero, List.append_nil]
  | succ count inductionHypothesis =>
    rw [List.replicate_succ', ← List.append_assoc, trimEnd_concat (by decide)]
    exact inductionHypothesis

end Text

namespace Layout

/-- The tags that have a type, a variable and a description of their own to stand in columns. The
cell of the variable is empty for a return tag and for a variable that is not named. -/
inductive HasCells : Tag → Text → Text → Text → Prop
  | param (param : Tag.Param) (labels : List Text) :
    HasCells ⟨.param param, labels⟩ param.type.text param.markedName param.description
  | returns (returns : Tag.Return) (labels : List Text) :
    HasCells ⟨.returns returns, labels⟩ returns.type.text [] returns.description
  | var (var : Tag.Var) (labels : List Text) :
    HasCells ⟨.var var, labels⟩ var.type.text var.markedName var.description
  | property (access : Tag.Access) (property : Tag.Property) (labels : List Text) :
    HasCells ⟨.property access property, labels⟩ property.type.text ('$' :: property.name)
      property.description

/-- The row of a tag has its cells. The left side is about the form of the tag, the right side
about the row. -/
theorem hasCells_iff {tag : Tag} {type token description : Text} :
    HasCells tag type token description ↔
      (Row.ofTag tag).declaration = some (type, token) ∧ (Row.ofTag tag).rest = description := by
  constructor
  · rintro (⟨_, _⟩ | ⟨_, _⟩ | ⟨_, _⟩ | ⟨_, _, _⟩) <;> exact ⟨rfl, rfl⟩
  · obtain ⟨content, labels⟩ := tag
    rintro ⟨declared, rfl⟩
    cases content with
    | param param =>
      obtain ⟨rfl, rfl⟩ := Prod.mk.inj (Option.some.inj declared)
      exact .param param labels
    | returns returns =>
      obtain ⟨rfl, rfl⟩ := Prod.mk.inj (Option.some.inj declared)
      exact .returns returns labels
    | var var =>
      obtain ⟨rfl, rfl⟩ := Prod.mk.inj (Option.some.inj declared)
      exact .var var labels
    | property access property =>
      obtain ⟨rfl, rfl⟩ := Prod.mk.inj (Option.some.inj declared)
      exact .property access property labels
    | generic generic => contradiction
    | method method => contradiction
    | mixin type => contradiction

/-- A tag without a declaration has its body for a rest. -/
theorem rest_of_undeclared {tag : Tag} (undeclared : (Row.ofTag tag).declaration = none) :
    (Row.ofTag tag).rest = tag.body := by
  obtain ⟨content, labels⟩ := tag
  cases content <;> first | rfl | contradiction

/-! The cells of each padded column, over a whole group. -/

/-- The cells of the first column: the keywords of all tags, with their signs. -/
def KeywordCell (tags : List Tag) (cell : Text) : Prop := ∃ tag ∈ tags, cell = '@' :: tag.name.text

/-- The cells of the second column: the types of the tags that have one there. -/
def TypeCell (tags : List Tag) (cell : Text) : Prop :=
  ∃ tag ∈ tags, ∃ token description, HasCells tag cell token description

/-- The cells of the third column: the variables, which may be empty. -/
def TokenCell (tags : List Tag) (cell : Text) : Prop :=
  ∃ tag ∈ tags, ∃ type description, HasCells tag type cell description

/-- The room that a column takes: none if all its cells are empty, and else that of its widest
cell and one space. -/
structure Takes (cells : Text → Prop) (room : Nat) : Prop where
  nothing : (∀ cell, cells cell → cell = []) → room = 0
  widest : (∃ cell, cells cell ∧ cell ≠ []) →
    (∀ cell, cells cell → cell.length + 1 ≤ room) ∧ ∃ cell, cells cell ∧ cell.length + 1 = room

/-- A cell stands in a line from a place on, up to blanks at its end, and nothing else stands in
the room that its column takes. -/
structure StandsIn (cell line : Text) (place room : Nat) : Prop where
  starts : trimEnd cell <+: line.drop place
  alone : trimEnd ((line.drop place).take room) = trimEnd cell

/-- The longest cell is one of them, unless there is none. -/
theorem exists_length_eq_widest {cells : List Text} (something : widest cells ≠ 0) :
    ∃ cell ∈ cells, cell.length = widest cells := by
  induction cells with
  | nil => exact absurd rfl something
  | cons first others inductionHypothesis =>
    have step : widest (first :: others) = max first.length (widest others) := rfl
    by_cases longest : widest others ≤ first.length
    · exact ⟨first, List.mem_cons_self, by omega⟩
    · obtain ⟨cell, member, same⟩ := inductionHypothesis (by omega)
      exact ⟨cell, List.mem_cons_of_mem first member, by omega⟩

/-- The length of a field of some width, with its space; a column without width has no field. -/
def room (width : Nat) : Nat := if width = 0 then 0 else width + 1

/-- A column of the width that its cells require takes its room. -/
theorem takes_room_widest {cells : Text → Prop} {listed : List Text}
    (same : ∀ cell, cell ∈ listed ↔ cells cell) : Takes cells (room (widest listed)) where
  nothing empty := by
    by_cases none : widest listed = 0
    · rw [room, if_pos none]
    · obtain ⟨cell, member, longest⟩ := exists_length_eq_widest none
      rw [empty cell ((same cell).mp member)] at longest
      exact absurd longest.symm none
  widest := by
    rintro ⟨visible, given, something⟩
    have wide : widest listed ≠ 0 := by
      have bound := length_le_widest ((same visible).mpr given)
      have long := List.length_pos_iff.mpr something
      omega
    rw [room, if_neg wide]
    refine ⟨fun cell cells => Nat.succ_le_succ (length_le_widest ((same cell).mpr cells)), ?_⟩
    obtain ⟨cell, member, longest⟩ := exists_length_eq_widest wide
    exact ⟨cell, (same cell).mp member, congrArg (· + 1) longest⟩

/-- A cell with the spaces behind it up to the next column, the one that sets columns apart
included. -/
def field (width : Nat) (cell : Text) : Text :=
  if width = 0 then [] else padded width cell ++ [' ']

/-- A field is as long as the room of its column, as long as its cell fits. -/
theorem length_field {width : Nat} {cell : Text} (fits : cell.length ≤ width) :
    (field width cell).length = room width := by
  rw [field, room]
  split
  · rfl
  · have long : max width cell.length = width := by omega
    rw [List.length_append, padded, List.length_rightpad, long]
    rfl

/-- A field has its cell and no more than spaces behind it. -/
theorem trimEnd_field {width : Nat} {cell : Text} (fits : cell.length ≤ width) :
    trimEnd (field width cell) = trimEnd cell := by
  rw [field]
  split
  · rename_i zero
    have empty : cell = [] := List.length_eq_zero_iff.mp (by omega)
    rw [empty]
  · have spaces : padded width cell ++ [' '] =
        cell ++ List.replicate (width - cell.length + 1) ' ' := by
      rw [List.replicate_succ', ← List.append_assoc]
      rfl
    rw [spaces, trimEnd_append_replicate]

/-- A space before a cell is a space behind the field before it. So the spaces between columns
can be counted to the fields. -/
theorem cellBehind_append_space (width : Nat) (cell : Text) :
    cellBehind width cell ++ [' '] = ' ' :: field width cell := by
  rw [cellBehind, field]
  split
  · rfl
  · rfl

/-- The fields of a row before its rest. A row without a declaration has the first alone. -/
def Row.fields (widths : Widths) (row : Row) : Text :=
  field widths.keyword row.keyword ++
    row.declaration.elim [] fun cells => field widths.type cells.1 ++ field widths.token cells.2

/-- With a space behind them, the cells before the rest of a row are its fields. -/
theorem Row.fields_eq {widths : Widths} (wide : widths.keyword ≠ 0) (row : Row) :
    padded widths.keyword row.keyword ++
        (row.declaration.elim [] fun cells =>
          cellBehind widths.type cells.1 ++ cellBehind widths.token cells.2) ++ [' '] =
      row.fields widths := by
  rw [Row.fields, field, if_neg wide]
  cases row.declaration with
  | none => simp
  | some cells =>
    have space : cellBehind widths.type cells.1 ++ cellBehind widths.token cells.2 ++ [' '] =
        ' ' :: (field widths.type cells.1 ++ field widths.token cells.2) := by
      rw [List.append_assoc, cellBehind_append_space, List.append_cons, cellBehind_append_space,
        List.cons_append]
    rw [Option.elim_some, Option.elim_some, List.append_assoc, space, List.append_assoc,
      List.singleton_append]

/-- A row is written as its fields and its rest, without the blanks at the end. The first column
must have a width. -/
theorem Row.written_eq_fields {widths : Widths} (wide : widths.keyword ≠ 0) (row : Row) :
    row.written widths = trimEnd (row.fields widths ++ row.rest) := by
  rw [Row.written_eq, ← Row.fields_eq wide, behindSpace]
  split
  · rename_i empty
    rw [empty, List.append_nil, List.append_nil]
    exact (trimEnd_concat (by decide) _).symm
  · rw [List.append_assoc _ [' '], List.singleton_append]

/-- A cell stands where its field stands, whatever is in front of the field and behind it. -/
theorem standsIn_field {cell filled : Text} (same : trimEnd filled = trimEnd cell)
    (before behind : Text) :
    StandsIn cell (trimEnd (before ++ (filled ++ behind))) before.length filled.length where
  starts := by
    rw [drop_trimEnd_append, ← same]
    rcases trimEnd_append_cases filled behind with kept | ⟨-, alone⟩
    · rw [kept]
      exact (trimEnd_isPrefix filled).trans (List.prefix_append _ _)
    · exact alone ▸ List.prefix_rfl
  alone := by rw [drop_trimEnd_append, trimEnd_take_trimEnd_append, same]

/-- Every line that a row is written as has its keyword in the first column. -/
theorem Row.standsIn_keyword {widths : Widths} (wide : widths.keyword ≠ 0) {row : Row}
    (fits : row.keyword.length ≤ widths.keyword) :
    StandsIn row.keyword (row.written widths) 0 (room widths.keyword) := by
  rw [Row.written_eq_fields wide, Row.fields, List.append_assoc, ← length_field fits]
  exact standsIn_field (trimEnd_field fits) [] _

/-- The cells of a declaration stand in its columns, and its rest behind them. -/
theorem Row.standsIn_declaration {widths : Widths} (wide : widths.keyword ≠ 0) {row : Row}
    (fits : row.keyword.length ≤ widths.keyword) (fit : widths.Fit row) {type token : Text}
    (declared : row.declaration = some (type, token)) :
    StandsIn type (row.written widths) (room widths.keyword) (room widths.type) ∧
      StandsIn token (row.written widths) (room widths.keyword + room widths.type)
        (room widths.token) ∧
      (row.written widths).drop
        (room widths.keyword + room widths.type + room widths.token) = trimEnd row.rest := by
  obtain ⟨typeFits, tokenFits⟩ := fit _ declared
  have fields : row.fields widths = field widths.keyword row.keyword ++
      (field widths.type type ++ field widths.token token) := by
    rw [Row.fields, declared, Option.elim_some]
  rw [Row.written_eq_fields wide, fields, ← length_field fits, ← length_field typeFits,
    ← length_field tokenFits, ← List.length_append, ← List.length_append]
  refine ⟨?_, ?_, ?_⟩
  · rw [List.append_assoc, List.append_assoc]
    exact standsIn_field (trimEnd_field typeFits) _ _
  · rw [← List.append_assoc, List.append_assoc]
    exact standsIn_field (trimEnd_field tokenFits) _ _
  · rw [← List.append_assoc (field widths.keyword _)]
    exact drop_trimEnd_append _ _

/-- The rest of a row without a declaration stands behind its keyword, in the place of the second
column. -/
theorem Row.drop_written {widths : Widths} (wide : widths.keyword ≠ 0) {row : Row}
    (fits : row.keyword.length ≤ widths.keyword) (undeclared : row.declaration = none) :
    (row.written widths).drop (room widths.keyword) = trimEnd row.rest := by
  have fields : row.fields widths = field widths.keyword row.keyword := by
    rw [Row.fields, undeclared, Option.elim_none, List.append_nil]
  rw [Row.written_eq_fields wide, fields, ← length_field fits]
  exact drop_trimEnd_append _ _

/-! Groups -/

/-- The keywords of a group, as its rows list them. -/
theorem mem_keywords_iff (tags : List Tag) (cell : Text) :
    cell ∈ (tags.map Row.ofTag).map (·.keyword) ↔ KeywordCell tags cell := by
  simp [KeywordCell, Row.ofTag, eq_comm]

/-- The types of a group, as its rows list them; rows without a declaration list none. -/
theorem mem_types_iff (tags : List Tag) (cell : Text) :
    cell ∈ (tags.map Row.ofTag).filterMap (fun row => row.declaration.map (·.1)) ↔
      TypeCell tags cell := by
  simp [TypeCell, hasCells_iff, List.mem_filterMap]

/-- The variables of a group, as its rows list them; rows without a declaration list none. -/
theorem mem_tokens_iff (tags : List Tag) (cell : Text) :
    cell ∈ (tags.map Row.ofTag).filterMap (fun row => row.declaration.map (·.2)) ↔
      TokenCell tags cell := by
  simp [TokenCell, hasCells_iff, List.mem_filterMap]

/-- The line of a tag in a group whose columns take the given room. In the line of a tag that has
a type, a variable and a description, each of them stands from the place on at which its column
begins, up to blanks at its own end. The body of any other tag stands behind its keyword. -/
structure LinedUp (keywords types tokens : Nat) (tag : Tag) (line : Text) : Prop where
  ends : EndsVisible line
  keyword : StandsIn ('@' :: tag.name.text) line 0 keywords
  cells : ∀ type token description, HasCells tag type token description →
    StandsIn type line keywords types ∧ StandsIn token line (keywords + types) tokens ∧
      line.drop (keywords + types + tokens) = trimEnd description
  body : (∀ type token description, ¬ HasCells tag type token description) →
    line.drop keywords = trimEnd tag.body

/-- The line of each tag of a group lines up with the others. The three rooms depend on the group
and not on the tag. -/
theorem linedUp_written {tags : List Tag} {tag : Tag} (member : tag ∈ tags) :
    let widths := Widths.ofRows (tags.map Row.ofTag)
    LinedUp (room widths.keyword) (room widths.type) (room widths.token) tag
      ((Row.ofTag tag).written widths) := by
  intro widths
  have present : Row.ofTag tag ∈ tags.map Row.ofTag := List.mem_map_of_mem member
  have fits : (Row.ofTag tag).keyword.length ≤ widths.keyword :=
    length_le_widest (List.mem_map_of_mem present)
  have wide : widths.keyword ≠ 0 := Nat.ne_of_gt (Nat.lt_of_lt_of_le (Nat.zero_lt_succ _) fits)
  refine ⟨trimEnd_eq_self_iff.mp (trimEnd_trimEnd _), Row.standsIn_keyword wide fits, ?_, ?_⟩
  · intro type token description cells
    obtain ⟨declared, rfl⟩ := hasCells_iff.mp cells
    exact Row.standsIn_declaration wide fits (fit_ofRows present) declared
  · intro without
    have undeclared : (Row.ofTag tag).declaration = none :=
      Option.eq_none_iff_forall_ne_some.mpr fun cells declared =>
        without cells.1 cells.2 _ (hasCells_iff.mpr ⟨declared, rfl⟩)
    rw [← rest_of_undeclared undeclared]
    exact Row.drop_written wide fits undeclared

/-- A group in columns has one line for each of its tags, in their order, and three places that
are common to all of them: types stand from the first on, variables from the second and
descriptions from the third. A column that is empty in the whole group takes no room; every other
one takes that of its widest cell and one space. -/
theorem inColumns_line_up (tags : List Tag) :
    ∃ keywords types tokens,
      Takes (KeywordCell tags) keywords ∧ Takes (TypeCell tags) types ∧
      Takes (TokenCell tags) tokens ∧
      List.Forall₂ (LinedUp keywords types tokens) tags (inColumns tags) := by
  refine ⟨_, _, _, takes_room_widest (mem_keywords_iff tags),
    takes_room_widest (mem_types_iff tags), takes_room_widest (mem_tokens_iff tags), ?_⟩
  apply List.forall₂_map_right_iff.mpr
  apply List.forall₂_map_right_iff.mpr
  exact List.forall₂_same.mpr fun tag member => linedUp_written member

/-- Properties of each access and a generic tag under the name of one of them. The generic one has
nothing but its keyword in common with the others, and one of these has no type. -/
example : inColumns [
    .unlabelled (.property .readWrite ⟨.ofText "int".toList, "id".toList, []⟩),
    .unlabelled (.property .readOnly ⟨.ofText [], "name".toList, "The name. ".toList⟩),
    .unlabelled (.generic (.ofBody .property "none".toList)),
    .unlabelled (.property .writeOnly ⟨.ofText "bool".toList, "on".toList, "A switch.".toList⟩)] =
    ["@property       int  $id",
      "@property-read       $name The name.",
      "@property       none",
      "@property-write bool $on   A switch."].map String.toList := by
  decide

end Layout

end DocComment
