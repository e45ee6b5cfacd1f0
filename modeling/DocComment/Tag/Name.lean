import DocComment.Text.Blank

/-!
# Tag names

A tag name is a keyword of ASCII letters, digits and a few signs. Eight of them
have a structure of their own. The three property keywords are one name to an
index: the aliased name of the read-only and the write-only one is that of the
plain one.
-/
namespace DocComment

/-- Tag names consist of ASCII letters and digits, `_`, `-`, `:` and `\`. None of these is blank,
so a name ends where a blank follows. -/
def isTagNameCharacter (c : Char) : Bool :=
  c.isAlphanum || c == '_' || c == '-' || c == ':' || c == '\\'

/-- A tag name is not empty and does not begin with a hyphen; a hyphen inside is common. -/
def isTagName (text : Text) : Bool :=
  text ≠ [] && text.head? ≠ some '-' && text.all isTagNameCharacter

/-- A keyword, without the `@` in front of it. The case of its letters counts: only the names
below as they are spelled have a form of their own. -/
structure TagName where
  text : Text
  valid : isTagName text
  deriving DecidableEq

namespace TagName

/-! The names whose tags have a structure of their own. -/

/-- A parameter of a function. -/
def param : TagName := ⟨"param".toList, by decide⟩

/-- The result of a function. -/
def returns : TagName := ⟨"return".toList, by decide⟩

/-- A variable, or a constant or field. -/
def var : TagName := ⟨"var".toList, by decide⟩

/-- A method that is answered without being declared. -/
def method : TagName := ⟨"method".toList, by decide⟩

/-- A class whose members are taken over. -/
def mixin : TagName := ⟨"mixin".toList, by decide⟩

/-- A property that may be read and written. -/
def property : TagName := ⟨"property".toList, by decide⟩

/-- A property that may be read. -/
def readOnlyProperty : TagName := ⟨"property-read".toList, by decide⟩

/-- A property that may be written. -/
def writeOnlyProperty : TagName := ⟨"property-write".toList, by decide⟩

/-- A text names a tag between blanks and behind at most one `@`. The blanks are taken away
first, so none may stand behind the sign. -/
def ofText? (text : Text) : Option TagName :=
  let keyword := match Text.trim text with
    | '@' :: rest => rest
    | whole => whole
  if valid : isTagName keyword then some ⟨keyword, valid⟩ else none

/-- The read-only and the write-only property are filed as properties; every other text, a tag
name or not, stands for itself. -/
def aliased (name : Text) : Text :=
  if name = readOnlyProperty.text ∨ name = writeOnlyProperty.text then property.text else name

/-- An alias is followed once: what it leads to stands for itself. So it makes no difference
whether a name has been aliased before it is looked up. -/
theorem aliased_aliased (name : Text) : aliased (aliased name) = aliased name := by
  by_cases isAlias : name = readOnlyProperty.text ∨ name = writeOnlyProperty.text
  · simp only [aliased, if_pos isAlias]
    decide
  · simp only [aliased, if_neg isAlias]

end DocComment.TagName
