import DocComment.Toml.Strings

/-!
# Reading a document

A document is read line by line: empty lines and comments, headers, and entries of
a dotted key and a value. Inside brackets and braces, line breaks and comments may stand
wherever spaces may, except around the dots of a key. Arrays and tables are nested to a
limited depth, which also bounds the recursion, and so are dotted keys. Anything that
departs from the format has no reading.

Nothing is proved about this reader. It serves one decoder of styles, with which the search for
a style can be run.
-/
namespace DocComment.Toml

/-- The text behind spaces and tabs. It may begin with a line break. -/
def skipSpaces (text : Text) : Text := text.dropWhile fun c => c == ' ' || c == '\t'

/-- The text behind spaces, line breaks and comments. A control in a comment, or a carriage
return alone, leaves no reading. -/
def skipGaps (inComment : Bool) : Text → Option Text
  | [] => some []
  | c :: rest =>
    if c = '\n' then skipGaps false rest
    else if c = '\r' then if startsWithBreak (c :: rest) then skipGaps false rest else none
    else if inComment then if isPlain c then skipGaps true rest else none
    else if c = ' ' ∨ c = '\t' then skipGaps false rest
    else if c = '#' then skipGaps true rest
    else some (c :: rest)

/-- A line ends at a line break or with the text. A comment may stand before its end. -/
def endsLine (text : Text) : Bool :=
  match skipSpaces text with
  | [] => true
  | '#' :: _ => true
  | rest => startsWithBreak rest

/-- Characters of a key without quotes: letters and digits of ASCII, `_` and `-`. -/
def isBareKeyCharacter (c : Char) : Bool := c.isAlphanum || c == '_' || c == '-'

/-- A key between quotes on one line, or without quotes and not empty. Between quotes it may be
empty. -/
def readKey (text : Text) : Option (Text × Text) :=
  match text with
  | '"' :: rest => readBasic rest.length rest
  | '\'' :: rest => readLiteral rest
  | _ =>
    let (key, rest) := text.span isBareKeyCharacter
    if key = [] then none else some (key, rest)

/-- Brackets and braces are nested at most so deep, and no dotted key has more parts. -/
def maximalDepth : Nat := 80

/-- Keys with dots between them, at most so many. Spaces may stand on both sides of a dot. -/
def readPath : (most : Nat) → Text → Option (List Text × Text)
  | 0, _ => none
  | most + 1, text => do
    let (key, rest) ← readKey text
    match skipSpaces rest with
    | '.' :: behind => do
      let (keys, rest) ← readPath most (skipSpaces behind)
      return (key :: keys, rest)
    | rest => return ([key], rest)

/-- A dotted key, an equals sign and a value; `skip` passes over what may stand on either side of
the sign. -/
def readEntry (skip : Text → Option Text) (readItem : Text → Option (Value × Text))
    (text : Text) : Option ((List Text × Value) × Text) := do
  let (path, rest) ← readPath maximalDepth text
  let rest ← behind? '=' (← skip rest)
  let (value, rest) ← readItem (← skip rest)
  return ((path, value), rest)

/-- Items with commas between them, and perhaps one behind the last, up to a closing bracket;
`fuel` bounds their number. -/
def readItems (readItem : Text → Option (α × Text)) (closing : Char) :
    (fuel : Nat) → Text → Option (List α × Text)
  | 0, _ => none
  | fuel + 1, text => do
    match ← skipGaps false text with
    | [] => none
    | c :: rest =>
      if c = closing then some ([], rest)
      else do
        let (item, rest) ← readItem (c :: rest)
        match ← skipGaps false rest with
        | [] => none
        | c :: rest =>
          if c = closing then some ([item], rest)
          else if c = ',' then do
            let (items, rest) ← readItems readItem closing fuel rest
            return (item :: items, rest)
          else none

/-- A value that is neither an array nor a table: a string, or one without quotes. -/
def readLeaf (text : Text) : Option (Value × Text) :=
  match text with
  | '"' :: _ | '\'' :: _ => (readString text).map fun (content, rest) => (.string content, rest)
  | _ => readScalar text

/-- A value in which brackets and braces are nested at most so deep. The recursion is on the
depth. -/
def readValue : (depth : Nat) → Text → Option (Value × Text)
  | 0, text => readLeaf text
  | depth + 1, text =>
    match text with
    | '[' :: rest => do
      let (items, rest) ← readItems (readValue depth) ']' text.length rest
      return (.array items, rest)
    | '\x7b' :: rest => do
      let readField := readEntry (skipGaps false) (readValue depth)
      let (entries, rest) ← readItems readField '\x7d' text.length rest
      return (.table .inline (← Fields.defineAll entries []), rest)
    | _ => readLeaf text

/-- A line that says something: a header, or an entry of the table that is open. -/
inductive Statement
  | header (header : Header)
  | entry (path : List Text) (value : Value)

/-- The dotted key of a header and its closing brackets. Spaces may stand on both sides of the
key. -/
def readHeader (repeated : Bool) (text : Text) : Option (Statement × Text) := do
  let (path, rest) ← readPath maximalDepth (skipSpaces text)
  let rest ← behind? ']' rest
  let rest ← if repeated then behind? ']' rest else some rest
  return (.header ⟨path, repeated⟩, rest)

/-- A header or an entry. Two brackets are looked for before one. -/
def readStatement : Text → Option (Statement × Text)
  | '[' :: '[' :: rest => readHeader true rest
  | '[' :: rest => readHeader false rest
  | text => do
    let ((path, value), rest) ← readEntry (some ∘ skipSpaces) (readValue maximalDepth) text
    return (.entry path value, rest)

/-- The statements of a text, each at the end of its line; `fuel` bounds their number. -/
def readStatements : (fuel : Nat) → Text → Option (List Statement)
  | 0, _ => none
  | fuel + 1, text => do
    match ← skipGaps false text with
    | [] => return []
    | first :: rest => do
      let (statement, rest) ← readStatement (first :: rest)
      if endsLine rest then return statement :: (← readStatements fuel rest) else none

/-- The entries before the first header, and each header with the entries behind it. -/
def groupStatements : List Statement → List (List Text × Value) × List Section
  | [] => ([], [])
  | .entry path value :: rest =>
    let (entries, sections) := groupStatements rest
    ((path, value) :: entries, sections)
  | .header header :: rest =>
    let (entries, sections) := groupStatements rest
    ([], ⟨header, entries⟩ :: sections)

/-- The document that a text holds, behind a byte order mark if there is one. -/
def read (text : Text) : Option Fields := do
  let text := if text.head? = some (Char.ofNat 0xfeff) then text.drop 1 else text
  let (entries, sections) := groupStatements (← readStatements (text.length + 1) text)
  Fields.ofSections entries sections

end DocComment.Toml
