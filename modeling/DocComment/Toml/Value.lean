import DocComment.Text.CodeRanges

/-!
# Values and tables of a configuration

A document in the format TOML is a table of values under keys, in the order in
which the keys appear. No key is given twice, and no table is opened twice: each
table knows how it was opened, since that decides what may still be added to it.

A document is made of sections. The entries before the first header belong to the
document itself, the others to the table that their header opens.

The reader of documents that is built on this serves one decoder of styles. Theorems about the
search for a style leave open how a text is decoded.
-/
namespace DocComment.Toml

/-- How a table came to be: by its own header, on the way to another header, by a
dotted key, or between braces. -/
inductive Origin
  | header
  | path
  | dotted
  | inline
  deriving DecidableEq

/-- The values of the format. Numbers that are not whole and points in time are kept
as written. So is a word in the place of a whole number that stands for none, such as a
base without digits: a document may hold it, but it is of no use as a number. -/
inductive Value
  | string (text : Text)
  | integer (number : Int)
  | unreadable (literal : Text)
  | float (literal : Text)
  | boolean (value : Bool)
  | dateTime (literal : Text)
  | array (items : List Value)
  | table (origin : Origin) (fields : List (Text × Value))
  | tables (elements : List (List (Text × Value)))

/-- The fields of a table, no key twice, in the order in which the keys appear. -/
abbrev Fields := List (Text × Value)

namespace Fields

/-- The fields with another value under a key that they have, in its place. -/
def replace (key : Text) (value : Value) (fields : Fields) : Fields :=
  fields.map fun field => if field.1 = key then (key, value) else field

/-- The fields with a new value at the end of a dotted key. The tables on the way are new or were
opened by dotted keys themselves. -/
def define (value : Value) : List Text → Fields → Option Fields
  | [], _ => none
  | [key], fields =>
    if (fields.lookup key).isSome then none else some (fields ++ [(key, value)])
  | key :: rest, fields =>
    match fields.lookup key with
    | none => do
      let inner ← define value rest []
      return fields ++ [(key, .table .dotted inner)]
    | some (.table .dotted inner) => do
      let inner ← define value rest inner
      return fields.replace key (.table .dotted inner)
    | some _ => none

/-- The fields with new values at the ends of several dotted keys, one after another. -/
def defineAll (entries : List (List Text × Value)) (fields : Fields) : Option Fields :=
  entries.foldlM (fun fields entry => define entry.2 entry.1 fields) fields

end Fields

/-- A header in brackets, or in double brackets if it adds to an array of tables. -/
structure Header where
  path : List Text
  repeated : Bool
  deriving DecidableEq

/-- A header with the entries that follow it, up to the next header. -/
structure Section where
  header : Header
  entries : List (List Text × Value)

namespace Fields

/-- The last table that a header names, with its entries. It is new, or so far was only on the
way to others, or it is one more of an array of tables. -/
def openLast (repeated : Bool) (entries : List (List Text × Value)) (key : Text)
    (fields : Fields) : Option Fields :=
  match repeated, fields.lookup key with
  | false, none => do
    let inner ← defineAll entries []
    return fields ++ [(key, .table .header inner)]
  | false, some (.table .path inner) => do
    let inner ← defineAll entries inner
    return fields.replace key (.table .header inner)
  | true, none => do
    let inner ← defineAll entries []
    return fields ++ [(key, .tables [inner])]
  | true, some (.tables elements) => do
    let inner ← defineAll entries []
    return fields.replace key (.tables (elements ++ [inner]))
  | _, _ => none

/-- The fields with a section below the tables that its header passes through. Of an array of
tables the last one is passed through; a table between braces is closed. -/
def openSection (repeated : Bool) (entries : List (List Text × Value)) :
    List Text → Fields → Option Fields
  | [], _ => none
  | [key], fields => openLast repeated entries key fields
  | key :: rest, fields =>
    match fields.lookup key with
    | none => do
      let inner ← openSection repeated entries rest []
      return fields ++ [(key, .table .path inner)]
    | some (.table .inline _) => none
    | some (.table origin inner) => do
      let inner ← openSection repeated entries rest inner
      return fields.replace key (.table origin inner)
    | some (.tables elements) => do
      let current ← elements.getLast?
      let inner ← openSection repeated entries rest current
      return fields.replace key (.tables (elements.dropLast ++ [inner]))
    | some _ => none

/-- The document of some leading entries and of sections, in the order of the text. -/
def ofSections (entries : List (List Text × Value)) (sections : List Section) :
    Option Fields := do
  let fields ← defineAll entries []
  sections.foldlM
    (fun fields part => openSection part.header.repeated part.entries part.header.path fields)
    fields

end DocComment.Toml.Fields
