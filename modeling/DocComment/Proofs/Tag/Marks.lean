import DocComment.Proofs.Tag.Argument
import DocComment.Proofs.Tag.ProperParts

/-!
# Marks in front of a variable

In front of its sign a variable may bear the mark of a reference, that of a variadic parameter, or
both in this order. Such a word is recognised as a variable wherever one may stand, but the readers
do not take the marks off alike. Main statements: the name of a parameter is stored without them,
while every other tag that declares a variable stores them as a part of its name and writes them
behind a sign of its own; and the type of an argument of a method is stored without the mark that
stands behind it, unless there are two of them. That reader starts from the sign and asks for the
mark of the reference first, which stands behind the other one there. So it takes the variadic mark
alone, and the mark of the reference becomes a part of the type.
-/
namespace DocComment.Tag

open Text Brackets

/-- The marks of a variable. A variable may have both, one of them or none. -/
structure Marks where
  reference : Bool
  variadic : Bool

/-- The marks as they stand in front of the sign: that of a reference first, then the dots. -/
def Marks.text (marks : Marks) : Text :=
  (if marks.reference then ['&'] else []) ++ (if marks.variadic then ['.', '.', '.'] else [])

/-! Variables -/

/-- A type that is set apart by the first blank outside its brackets. It is no variable, and no
result is expected behind it. -/
structure CompactType (type : Text) : Prop where
  something : type ≠ []
  nested : Nested NotBlank [] type
  unsigned : isVariable type = false
  ends : type.getLast? ≠ some ':'

/-- Whether a type is compact is decided by reading it once. -/
instance (type : Text) : Decidable (CompactType type) :=
  decidable_of_iff
    (type ≠ [] ∧ Nested NotBlank [] type ∧ isVariable type = false ∧ type.getLast? ≠ some ':')
    ⟨fun ⟨something, nested, unsigned, ends⟩ => ⟨something, nested, unsigned, ends⟩,
      fun ⟨something, nested, unsigned, ends⟩ => ⟨something, nested, unsigned, ends⟩⟩

/-- A compact type is not mistaken for anything else: the first blank behind it is where it
ends. -/
theorem CompactType.proper {type : Text} (compact : CompactType type) : ProperType type := by
  refine ⟨TypeExpr.wellFormed_of_nested compact.something compact.nested ?_, compact.unsigned⟩
  rintro ⟨⟨front, split⟩, -⟩
  exact compact.ends (by rw [← split]; simp)

/-- A name of word characters is stored as it is, as a sign is no word character. -/
theorem properName_of_word {name : Text} (named : name ≠ []) (word : name.all isWordCharacter) :
    ProperName name where
  something := named
  visible := visible_of_isWordCharacter word
  unsigned first := notMem_of_all word (by decide) (List.mem_of_mem_head? first)

variable {type name description : Text} {marks : Marks}

/-- Marks, a sign and a name make a visible word, which stands for a variable whatever the marks
are. -/
theorem Marks.variable_exact (marks : Marks) (visible : Visible name) :
    Visible (marks.text ++ '$' :: name) ∧ isVariable (marks.text ++ '$' :: name) :=
  markedName_exact ⟨.ofText [], name, marks.variadic, marks.reference, []⟩ visible

/-- Marks are visible: ampersands and dots are no blanks. -/
theorem Marks.visible (marks : Marks) : Visible marks.text := fun c member =>
  (marks.variable_exact (List.forall_mem_nil _)).1 c (List.mem_append_left _ member)

/-- Between a compact type and a description a marked variable is found with all its marks, which
the declaration keeps as a part of its word. -/
theorem ofBody_marked (marks : Marks) (description : Text) (typed : CompactType type)
    (visible : Visible name) :
    Declaration.ofBody (trim (type ++ ' ' :: (marks.text ++ '$' :: name ++ ' ' :: description))) =
      ⟨type, some (marks.text ++ '$' :: name), trim description⟩ := by
  obtain ⟨visibleWord, signed⟩ := marks.variable_exact visible
  generalize marks.text ++ '$' :: name = word at *
  have proper := typed.proper
  have something := ne_nil_of_isVariable signed
  have starts : StartsVisible (type ++ ' ' :: (word ++ ' ' :: description)) :=
    startsVisible_append typed.something (trim_eq_self_iff.mp proper.formed.trimmed).1
  have joined : type ++ ' ' :: (word ++ ' ' :: description) =
      (type ++ ' ' :: word) ++ ' ' :: description := by simp
  have ends : EndsVisible (type ++ ' ' :: word) :=
    endsVisible_append type (List.cons_ne_nil _ _)
      (endsVisible_cons something visibleWord.endsVisible)
  have apart : StartsBlank (trimEnd (' ' :: description)) := by
    obtain ⟨blanks, whole⟩ := trimEnd_isPrefix (' ' :: description)
    exact startsBlank_of_append (whole ▸ startsBlank_space description)
  rw [trim, trimStart_eq_self_iff.mpr starts, joined, trimEnd_append (by simp) ends,
    List.append_assoc, List.cons_append,
    ofBody_append proper.formed.isToken proper.unsigned visibleWord signed apart, trim_trimEnd]
  rfl

/-- A parameter is read with its marks taken off its name. The description may have any blanks at
its ends. -/
theorem read_param_marked (typed : CompactType type) (named : ProperName name) :
    read TagName.param.text (type ++ ' ' :: (marks.text ++ '$' :: name ++ ' ' :: description)) =
      .ok (unlabelled (.param
        ⟨.ofText type, name, marks.variadic, marks.reference, trim description⟩)) := by
  have parts := ofBody_marked marks description typed named.visible
  rw [read_text]
  refine readParam_marked ?_ (named.declaredName_eq .param)
  rw [parts]
  exact congrArg (fun type => (⟨type, _, _⟩ : Declaration)) typed.proper.formed.trimmed.symm

/-- A name with marks in front of its sign is another one than the name alone, as it is
longer. -/
theorem marked_ne (marks : Marks) (name : Text) : marks.text ++ '$' :: name ≠ name := by
  intro same
  have lengths := congrArg List.length same
  simp only [List.length_append, List.length_cons] at lengths
  omega

/-- The word of a variable gives its name alone if it has no marks, and is itself the name if it
has some. -/
theorem exists_declaredName_marked (marks : Marks) (named : ProperName name) (tag : TagName) :
    ∃ stored, declaredName tag (marks.text ++ '$' :: name) = .ok stored ∧
      (stored = name ↔ marks.text = []) ∧
      (stored ≠ name → stored = marks.text ++ '$' :: name) := by
  by_cases unmarked : marks.text = []
  · refine ⟨name, ?_, iff_of_true rfl unmarked, fun differs => absurd rfl differs⟩
    rw [unmarked]
    exact named.declaredName_eq tag
  · refine ⟨marks.text ++ '$' :: name, ?_, iff_of_false (marked_ne marks name) unmarked,
      fun _ => rfl⟩
    have kept : (marks.text ++ '$' :: name).dropWhile (· == '$') = marks.text ++ '$' :: name := by
      obtain ⟨reference, variadic⟩ := marks
      cases reference <;> cases variadic <;> simp_all [Marks.text]
    rw [declaredName, kept]
    exact if_neg (by simp)

/-- A variable tag is read with the name that the marked word gives, which need not be the one
behind the sign. -/
theorem read_var_marked {stored : Text} (typed : CompactType type) (visible : Visible name)
    (declared : declaredName .var (marks.text ++ '$' :: name) = .ok stored) :
    read TagName.var.text (type ++ ' ' :: (marks.text ++ '$' :: name ++ ' ' :: description)) =
      .ok (unlabelled (.var ⟨.ofText type, some stored, trim description⟩)) := by
  have parts := ofBody_marked marks description typed visible
  have something :
      trim (type ++ ' ' :: (marks.text ++ '$' :: name ++ ' ' :: description)) ≠ [] := by
    intro empty
    have nothing : Declaration.ofBody [] = ⟨[], none, []⟩ := rfl
    rw [empty, nothing] at parts
    exact Option.some_ne_none _ (congrArg Declaration.token parts).symm
  rw [read_text]
  change readVar _ = _
  rw [readVar, if_neg something, parts]
  simp only [Declaration.var, declared]
  rfl

/-- A property is read in the same way, whatever its access. -/
theorem read_property_marked {access : Access} {stored : Text} (typed : CompactType type)
    (visible : Visible name)
    (declared : declaredName access.tagName (marks.text ++ '$' :: name) = .ok stored) :
    read access.tagName.text
        (type ++ ' ' :: (marks.text ++ '$' :: name ++ ' ' :: description)) =
      .ok (unlabelled (.property access ⟨.ofText type, stored, trim description⟩)) := by
  rw [read_text, readBody_property, readProperty, ofBody_marked marks description typed visible]
  simp only [Declaration.property, declared]
  rfl

/-- The names whose tags declare a variable: the parameter, the variable and the three
properties. -/
def variableNames : List TagName :=
  [.param, .var, .property, .readOnlyProperty, .writeOnlyProperty]

/-- A keyword that declares a variable is that of a parameter, of a variable or of a property of
some access. -/
theorem eq_of_mem_variableNames {keyword : TagName} (declares : keyword ∈ variableNames) :
    keyword = .param ∨ keyword = .var ∨ ∃ access : Access, keyword = access.tagName := by
  simp only [variableNames, List.mem_cons, List.not_mem_nil, or_false] at declares
  rcases declares with rfl | rfl | rfl | rfl | rfl
  · exact .inl rfl
  · exact .inr (.inl rfl)
  · exact .inr (.inr ⟨.readWrite, rfl⟩)
  · exact .inr (.inr ⟨.readOnly, rfl⟩)
  · exact .inr (.inr ⟨.writeOnly, rfl⟩)

/-- Every tag that declares a variable is read from a compact type, a variable with marks and a
description. A parameter stores the name of the variable without the marks. Every other tag does
so exactly if there are no marks; otherwise the marks and the sign become a part of the name, and
a second sign is written in front of them. -/
theorem read_marked {keyword : TagName} (marks : Marks) (typed : CompactType type)
    (named : name ≠ []) (word : name.all isWordCharacter) (declares : keyword ∈ variableNames) :
    ∃ tag stored,
      read keyword.text (type ++ ' ' :: (marks.text ++ '$' :: name ++ ' ' :: description)) =
        .ok tag ∧
      tag.name = keyword ∧ tag.documentedVariable = some stored ∧
      tag.body = spaced [type, (if keyword = .param then marks.text else []) ++ '$' :: stored,
        trim description] ∧
      (stored = name ↔ keyword = .param ∨ marks.text = []) ∧
      (stored ≠ name → stored = marks.text ++ '$' :: name) := by
  have proper := properName_of_word named word
  have kept : (TypeExpr.ofText type).text = type := typed.proper.formed.trimmed
  rcases eq_of_mem_variableNames declares with rfl | rfl | ⟨access, rfl⟩
  · refine ⟨_, name, read_param_marked typed proper, rfl, rfl, ?_, iff_of_true rfl (.inl rfl),
      fun differs => absurd rfl differs⟩
    exact congrArg (fun type => spaced [type, _, _]) kept
  · obtain ⟨stored, declared, plain, marked⟩ := exists_declaredName_marked marks proper .var
    refine ⟨_, stored, read_var_marked typed proper.visible declared, rfl, rfl, ?_, ?_, marked⟩
    · exact congrArg (fun type => spaced [type, _, _]) kept
    · rw [plain]
      exact ⟨.inr, fun unmarked => unmarked.resolve_left (by decide)⟩
  · obtain ⟨stored, declared, plain, marked⟩ :=
      exists_declaredName_marked marks proper access.tagName
    have other : access.tagName ≠ .param := by cases access <;> decide
    refine ⟨_, stored, read_property_marked typed proper.visible declared, rfl, rfl, ?_, ?_,
      marked⟩
    · rw [if_neg other]
      exact congrArg (fun type => spaced [type, _, _]) kept
    · rw [plain]
      exact ⟨.inr, fun unmarked => unmarked.resolve_left other⟩

/-- A parameter with both marks, whose type has blanks within its brackets. -/
theorem read_marked_param :
    let type := "array<int, callable(A): B>|null".toList
    let name := "rest_1".toList
    CompactType type ∧ name ≠ [] ∧ name.all isWordCharacter ∧ TagName.param ∈ variableNames ∧
      ∃ tag, read TagName.param.text (type ++ ' ' :: ((⟨true, true⟩ : Marks).text ++ '$' :: name ++
          ' ' :: "the $rest of them".toList)) = .ok tag ∧
        tag.documentedVariable = some name := by
  intro type name
  have typed : CompactType type := by decide +kernel
  have word : name.all isWordCharacter := by decide +kernel
  obtain ⟨tag, stored, done, -, declared, -, kept, -⟩ :=
    read_marked ⟨true, true⟩ typed (by decide : name ≠ []) word
      (by decide : TagName.param ∈ variableNames)
  obtain rfl := kept.mpr (.inl rfl)
  exact ⟨typed, by decide, word, by decide, tag, done, declared⟩

/-- The mark of a reference stays in the name of a variable and of a property. When the tag is
written, the mark comes to stand behind a sign. -/
theorem marks_stay_in_names :
    CompactType "int".toList ∧ ∀ keyword ∈ variableNames, keyword ≠ .param →
      ∃ tag, read keyword.text "int &$count of all".toList = .ok tag ∧
        tag.documentedVariable = some "&$count".toList ∧
        tag.body = "int $&$count of all".toList := by
  refine ⟨by decide, fun keyword declares other => ?_⟩
  rcases eq_of_mem_variableNames declares with rfl | rfl | ⟨access, rfl⟩
  · contradiction
  · exact ⟨_, rfl, by decide +kernel, by decide +kernel⟩
  · cases access <;> exact ⟨_, rfl, by decide +kernel, by decide +kernel⟩

/-! Arguments -/

/-- No mark ends the text in front of a variable with its marks: it is empty, or a space sets the
type apart. -/
theorem reverse_typePart_unmarked (argument : Argument) :
    (typePart argument).reverse.dropWhile (· == '&') = (typePart argument).reverse ∧
      dropEllipses (typePart argument).reverse = (typePart argument).reverse := by
  have apart : (typePart argument).reverse = [] ∨
      ∃ rest, (typePart argument).reverse = ' ' :: rest := by
    rw [typePart]
    split
    · exact .inl rfl
    · exact .inr ⟨argument.type.text.reverse, by simp⟩
  rcases apart with empty | ⟨rest, spaced⟩
  · rw [empty]
    exact ⟨rfl, rfl⟩
  · rw [spaced]
    exact ⟨rfl, rfl⟩

/-- The type that stays in front of marks: the mark of a reference is a part of it if the
variadic one follows. -/
def Marks.typeBefore (marks : Marks) (type : TypeExpr) : TypeExpr :=
  if marks.reference && marks.variadic then .ofText (type.text ++ [' ', '&']) else type

/-- A mark behind a type shows in its text, so the type is kept exactly if not both marks stand
there. -/
theorem typeBefore_eq_iff {type : TypeExpr} (marks : Marks)
    (unmarked : type.text.getLast? ≠ some '&') :
    marks.typeBefore type = type ↔ ¬ (marks.reference ∧ marks.variadic) := by
  rw [Marks.typeBefore, ← Bool.and_eq_true]
  split
  · rename_i both
    refine iff_of_false (fun same => unmarked ?_) (not_not.mpr both)
    have kept : trim (type.text ++ [' ', '&']) = trimStart (type.text ++ [' ']) ++ ['&'] := by
      rw [trim, List.append_cons, trimStart_append_cons (by decide),
        trimEnd_append_cons (by decide)]
      rfl
    rw [← congrArg TypeExpr.text same]
    exact (congrArg List.getLast? kept).trans List.getLast?_concat
  · rename_i single
    exact iff_of_true rfl single

/-- Marks are looked for from the end of the text, that of a reference first. Behind a variadic
mark none is looked for, so one of two marks stays. -/
theorem argumentType_marked {argument : Argument} (legible : argument.Legible) (marks : Marks) :
    argumentType (typePart argument ++ marks.text) = marks.typeBefore argument.type := by
  by_cases unmarked : marks.text = []
  · have single : (marks.reference && marks.variadic) = false := by
      obtain ⟨reference, variadic⟩ := marks
      cases reference <;> cases variadic <;> simp_all [Marks.text]
    rw [unmarked, List.append_nil, argumentType_typePart legible, Marks.typeBefore, single]
    rfl
  have same : trim (typePart argument ++ marks.text) = typePart argument ++ marks.text :=
    trim_eq_self_iff.mpr ⟨startsVisible_declared argument marks.visible.startsVisible,
      endsVisible_append _ unmarked marks.visible.endsVisible⟩
  have typed : TypeExpr.ofText (typePart argument) = argument.type :=
    TypeExpr.ofText_eq (trim_typePart argument)
  obtain ⟨unreferenced, invariadic⟩ := reverse_typePart_unmarked argument
  rw [argumentType, same, List.reverse_append]
  rcases marks with ⟨_ | _, _ | _⟩
  · exact absurd rfl unmarked
  · -- variadic
    change TypeExpr.ofText (dropEllipses (typePart argument).reverse).reverse = argument.type
    rw [invariadic, List.reverse_reverse, typed]
  · -- a reference
    change TypeExpr.ofText
      (dropEllipses ((typePart argument).reverse.dropWhile (· == '&'))).reverse = argument.type
    rw [unreferenced, invariadic, List.reverse_reverse, typed]
  · -- both: the mark of the reference was not the last one when it was looked for
    change TypeExpr.ofText ('&' :: (typePart argument).reverse).reverse =
      .ofText (argument.type.text ++ [' ', '&'])
    rw [List.reverse_cons, List.reverse_reverse, typePart]
    split
    · rename_i untyped
      rw [List.isEmpty_iff.mp untyped]
      rfl
    · rw [List.append_assoc]
      rfl

/-- An entry of a parameter list with marks in front of its variable. Nothing within its parts
sets them apart from one another or from the next entry. -/
structure MarkedEntry where
  type : TypeExpr
  marks : Marks
  name : Text
  nested : Nested NotComma [] type.text
  assigns : '=' ∉ type.text
  unmarked : type.text.getLast? ≠ some '&' ∧ ¬ ['.', '.', '.'] <:+ type.text
  word : name.all isWordCharacter
  named : name ≠ []

namespace MarkedEntry

variable (entry : MarkedEntry)

/-- The entry as it stands between the commas: the type, a space, and the variable with its
marks. An entry without a type begins with that space. -/
def text : Text := entry.type.text ++ ' ' :: (entry.marks.text ++ '$' :: entry.name)

/-- Word characters are visible, so the name is a word. -/
theorem visible : Visible entry.name := visible_of_isWordCharacter entry.word

/-- The argument that the entry declares: its type and its name, and no default value. -/
def argument : Argument where
  name := entry.name
  type := entry.type
  defaultValue := none
  named := by
    rw [entry.visible.trim_eq]
    exact entry.named
  substantial := substantial_none

/-- The argument that is read from the entry. It differs from the declared one at most in its
type. -/
def read : Argument := { entry.argument with type := entry.marks.typeBefore entry.type }

/-- The parts of an entry do not hold the signs by which they are kept apart. -/
theorem legible : entry.argument.Legible :=
  Argument.WellFormed.legible
    { word := entry.word
      typeNested := entry.nested
      typeAssigns := entry.assigns
      typeMarks := entry.unmarked
      valueNested := nofun }

/-- Marks and a sign stand outside all brackets, so an entry is nested as its type is. -/
theorem nested_text : Nested NotComma [] entry.text := by
  have space : Nested NotComma [] [' '] := by decide
  have sign : Nested NotComma [] ['$'] := by decide
  have marks : Nested NotComma [] entry.marks.text := by
    obtain ⟨reference, variadic⟩ := entry.marks
    cases reference <;> cases variadic <;> decide
  have behind := marks.append (sign.append (nested_of_word entry.word))
  exact entry.nested.append (space.append behind)

/-- Between blanks an entry is its type, if it has one, and its variable with the marks. -/
theorem trim_text :
    trim entry.text = typePart entry.argument ++ entry.marks.text ++ '$' :: entry.name := by
  have visible := (entry.marks.variable_exact entry.visible).1
  have something : entry.marks.text ++ '$' :: entry.name ≠ [] := by simp
  have starts := startsVisible_declared entry.argument visible.startsVisible
  have ends := endsVisible_append (typePart entry.argument) something visible.endsVisible
  rw [List.append_assoc, ← trim_eq_self_iff.mpr ⟨starts, ends⟩, text, typePart]
  split
  · rename_i untyped
    have typeless : entry.type.text = [] := List.isEmpty_iff.mp untyped
    rw [typeless]
    rfl
  · rw [List.append_assoc]
    rfl

/-- Between blanks an entry holds no `=`, so none of it becomes a default value. -/
theorem notMem_trim_text : '=' ∉ trim entry.text := by
  have declared := mem_declared entry.legible
  have marks : '=' ∉ entry.marks.text := by
    obtain ⟨reference, variadic⟩ := entry.marks
    cases reference <;> cases variadic <;> decide
  rw [trim_text]
  simp only [List.mem_append, not_or] at declared ⊢
  exact ⟨⟨declared.1, marks⟩, declared.2⟩

/-- An entry is read with the type that its marks leave, and with its own name. -/
theorem readArgument_text (parameters : Text) :
    readArgument parameters (trim entry.text) = .ok entry.read := by
  have cut := readArgument_append parameters entry.notMem_trim_text
    (by simp : ∀ c ∈ ([] : Text).head?, c = '=') ((trim_trim entry.text).trans entry.trim_text)
    entry.legible.nameSigns
  have named : Argument.ofName entry.name (entry.marks.typeBefore entry.type) = .ok entry.read :=
    ofName_of_signless entry.argument.named entry.legible.nameSigns _
  rw [List.append_nil, argumentType_marked entry.legible] at cut
  exact cut.trans (congrArg (Except.map (assigned · [])) named)

end MarkedEntry

/-- A parameter list is read entry by entry, and none of them is lost or refused. -/
theorem readArguments_entries (entries : List MarkedEntry) :
    readArguments ([',', ' '].intercalate (entries.map MarkedEntry.text)) =
      .ok (entries.map MarkedEntry.read) := by
  have whole : ∀ piece ∈ entries.map MarkedEntry.text, Whole 0 piece :=
    List.forall_mem_map.mpr fun entry _ => entry.nested_text.whole
  have balanced : (entries.map MarkedEntry.text).Pairwise fun piece _ => depth piece = 0 :=
    List.pairwise_map.mpr (List.pairwise_of_forall fun entry _ => by
      simpa using entry.nested_text.depth_eq)
  have something : ((entries.map MarkedEntry.text).map trim).filter (· ≠ []) =
      entries.map fun entry => trim entry.text := by
    rw [List.map_map]
    refine List.filter_eq_self.mpr (List.forall_mem_map.mpr fun entry _ => ?_)
    simp [entry.trim_text]
  rw [readArguments, splitCommas_intercalate whole balanced, something]
  exact mapM_map_eq_ok fun entry _ => entry.readArgument_text _

/-- A parameter list with marks in front of its variables is always read: the names stand without
the marks, there are no default values, and the types are those that the entries state exactly if
no variable has both marks. Where one has, its type ends in the mark of the reference. -/
theorem readArguments_marked (entries : List MarkedEntry) :
    ∃ arguments,
      readArguments ([',', ' '].intercalate (entries.map MarkedEntry.text)) = .ok arguments ∧
      arguments.map Argument.name = entries.map MarkedEntry.name ∧
      (∀ argument ∈ arguments, argument.defaultValue = none) ∧
      arguments.map Argument.type = entries.map (fun entry =>
        if entry.marks.reference ∧ entry.marks.variadic then
          .ofText (entry.type.text ++ [' ', '&'])
        else entry.type) ∧
      (arguments.map Argument.type = entries.map MarkedEntry.type ↔
        ∀ entry ∈ entries, ¬ (entry.marks.reference ∧ entry.marks.variadic)) := by
  refine ⟨_, readArguments_entries entries, ?_, ?_, ?_, ?_⟩
  · rw [List.map_map]
    rfl
  · exact List.forall_mem_map.mpr fun _ _ => rfl
  · rw [List.map_map]
    refine List.map_congr_left fun entry _ => ?_
    simp only [Function.comp, MarkedEntry.read, Marks.typeBefore, Bool.and_eq_true]
  · rw [List.map_map, List.map_inj_left]
    exact forall₂_congr fun entry _ => typeBefore_eq_iff entry.marks entry.unmarked.1

/-- The mark of a reference stays in the type of a variadic argument, behind the space that set
the type apart. -/
theorem mark_stays_in_type :
    ∃ entry : MarkedEntry, entry.text = "int &...$x".toList ∧ entry.type.text = "int".toList ∧
      ∃ argument, readArguments entry.text = .ok [argument] ∧
        argument.type.text = "int &".toList := by
  refine ⟨⟨.ofText "int".toList, ⟨true, true⟩, ['x'], by decide, by decide, by decide, by decide,
    by decide⟩, by decide, by decide, _, rfl, by decide⟩

end DocComment.Tag
