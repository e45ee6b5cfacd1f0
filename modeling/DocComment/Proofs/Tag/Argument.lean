import DocComment.Proofs.Text.Classes
import DocComment.Proofs.TypeExpr.Nested
import DocComment.Tag.Signature

/-!
# Arguments read back

An argument is written as its type, its variable and its default value, and several are set
apart by commas. The reader cuts them at the commas outside all brackets, then each at its
first `=`, and at the last `$` before that. An argument reads back by itself when the signs of
the writer do not occur within its parts, and several read back together when each of them is
whole. Both hold of arguments whose types and default values are nested, keep their commas
within brackets and do not begin a default value or a mark of their own.
-/
namespace DocComment

open Text Brackets

/-- An argument that its written form shows as it is: a name of word characters, a nested type
that neither holds an `=` nor ends in a mark, and a nested default value. Commas may stand inside
brackets only, since a comma outside them would begin another argument. -/
structure Argument.WellFormed (argument : Argument) : Prop where
  word : argument.name.all isWordCharacter
  typeNested : Nested NotComma [] argument.type.text
  typeAssigns : '=' ∉ argument.type.text
  typeMarks : argument.type.text.getLast? ≠ some '&' ∧
    ¬ ['.', '.', '.'] <:+ argument.type.text
  valueNested : ∀ value ∈ argument.defaultValue, Nested NotComma [] value

/-- Whether an argument is well formed is decided by reading its parts, the default value only if
there is one. -/
instance (argument : Argument) : Decidable argument.WellFormed :=
  decidable_of_iff
    (argument.name.all isWordCharacter ∧ Nested NotComma [] argument.type.text ∧
      '=' ∉ argument.type.text ∧ (argument.type.text.getLast? ≠ some '&' ∧
        ¬ ['.', '.', '.'] <:+ argument.type.text) ∧
      ∀ value ∈ argument.defaultValue, Nested NotComma [] value)
    ⟨fun ⟨word, nested, assigns, marks, value⟩ => ⟨word, nested, assigns, marks, value⟩,
      fun ⟨word, nested, assigns, marks, value⟩ => ⟨word, nested, assigns, marks, value⟩⟩

/-- The type of an argument does not end in a mark that the reader takes off: in neither `&` nor
three dots. Marks inside the type do no harm. -/
def Argument.UnmarkedType (argument : Argument) : Prop :=
  argument.type.text.getLast? ≠ some '&' ∧ ¬ ['.', '.', '.'] <:+ argument.type.text

/-- Both marks are looked for at the end of the type. -/
instance (argument : Argument) : Decidable argument.UnmarkedType :=
  inferInstanceAs (Decidable (_ ∧ _))

/-- An argument whose parts do not hold the signs by which its written form keeps them apart. It
is weaker than being well formed: nothing is said about brackets, nor about the default value. -/
structure Argument.Legible (argument : Argument) : Prop where
  nameSigns : '$' ∉ argument.name
  nameAssigns : '=' ∉ argument.name
  nameEnds : EndsVisible argument.name
  typeAssigns : '=' ∉ argument.type.text
  typeMarks : argument.UnmarkedType

/-- A name of word characters holds no sign, no `=` and no blank at its end, so a well-formed
argument is legible. -/
theorem Argument.WellFormed.legible {argument : Argument} (wellFormed : argument.WellFormed) :
    argument.Legible where
  nameSigns := notMem_of_all wellFormed.word (by decide)
  nameAssigns := notMem_of_all wellFormed.word (by decide)
  nameEnds := (visible_of_isWordCharacter wellFormed.word).endsVisible
  typeAssigns := wellFormed.typeAssigns
  typeMarks := wellFormed.typeMarks

/-- The type that a text holds between blanks is the given one if the trimmed text is that
type's. -/
theorem TypeExpr.ofText_eq {text : Text} {type : TypeExpr} (same : trim text = type.text) :
    TypeExpr.ofText text = type := by
  obtain ⟨kept, trimmed⟩ := type
  simpa only [TypeExpr.ofText, TypeExpr.mk.injEq] using same

namespace Tag

/-- Word characters stand outside all brackets and are no commas, so a name can stand at the top
level of a parameter list. -/
theorem nested_of_word {word : Text} (allowed : word.all isWordCharacter) :
    Nested NotComma [] word := by
  refine nested_of_plain fun c member => ?_
  have part := List.all_eq_true.mp allowed c member
  have differs (other : Char) (apart : isWordCharacter other = false) : (c == other) = false := by
    simpa using ne_of_isWordCharacter part other apart
  refine ⟨?_, ?_, ne_of_isWordCharacter part ',' (by decide)⟩
  · rw [opens, differs '<' (by decide), differs '\x7b' (by decide), differs '(' (by decide),
      differs '[' (by decide)]
    rfl
  · rw [closes, differs '>' (by decide), differs '\x7d' (by decide), differs ')' (by decide),
      differs ']' (by decide)]
    rfl

/-- The type of an argument as it stands in front of the variable: with one space behind it, and
nothing at all for the empty type. -/
def typePart (argument : Argument) : Text :=
  if argument.type.isEmpty then [] else argument.type.text ++ [' ']

/-- The default value of an argument as it stands behind the variable: an `=` between two spaces
and the value, or nothing. -/
def valuePart (argument : Argument) : Text :=
  match argument.defaultValue with
  | some value => [' ', '=', ' '] ++ value
  | none => []

/-- The written form consists of the type's part, the variable with its sign, and the value's
part. -/
theorem written_eq (argument : Argument) :
    argument.written = typePart argument ++ '$' :: argument.name ++ valuePart argument := rfl

variable {argument : Argument}

/-- Nothing outside the brackets of an argument separates it from another one: its written form
is nested, and every comma of it stands inside a bracket. -/
theorem nested_written (wellFormed : argument.WellFormed) :
    Nested NotComma [] argument.written := by
  have space : Nested NotComma [] [' '] := by decide
  have equals : Nested NotComma [] [' ', '=', ' '] := by decide
  have sign : Nested NotComma [] ['$'] := by decide
  have before : Nested NotComma [] (typePart argument) := by
    rw [typePart]
    split
    · exact .ended
    · exact wellFormed.typeNested.append space
  have behind : Nested NotComma [] (valuePart argument) := by
    rw [valuePart]
    split
    · rename_i value given
      exact equals.append (wellFormed.valueNested value given)
    · exact .ended
  rw [written_eq]
  exact (before.append (sign.append (nested_of_word wellFormed.word))).append behind

/-- Without the space behind it, the part of the type is the type. An empty type has no space to
lose. -/
theorem trim_typePart (argument : Argument) : trim (typePart argument) = argument.type.text := by
  rw [typePart]
  split
  · rename_i empty
    rw [List.isEmpty_iff.mp empty]
    rfl
  · exact trim_append_space argument.type.trimmed

/-- The type is found again in front of the variable: there is no mark at its end that the reader
could take off. -/
theorem argumentType_typePart (legible : argument.Legible) :
    argumentType (typePart argument) = argument.type := by
  obtain ⟨unreferenced, invariadic⟩ := legible.typeMarks
  have referenceless : argument.type.text.reverse.dropWhile (· == '&') =
      argument.type.text.reverse := by
    cases reversed : argument.type.text.reverse with
    | nil => rfl
    | cons c rest =>
      have last : argument.type.text.getLast? = some c := by
        rw [← List.head?_reverse, reversed]
        rfl
      have other : c ≠ '&' := by
        rintro rfl
        exact unreferenced last
      simp [other]
  have dotless : dropEllipses argument.type.text.reverse = argument.type.text.reverse := by
    rw [dropEllipses]
    intro rest reversed
    refine invariadic ⟨rest.reverse, ?_⟩
    rw [← List.reverse_reverse argument.type.text, reversed]
    simp
  rw [argumentType, trim_typePart, referenceless, dotless, List.reverse_reverse,
    TypeExpr.ofText_text]

/-- A default value that is missing need not be trimmed, so it can be left out of any
argument. -/
theorem substantial_none : ∀ value ∈ (none : Option Text), value ≠ [] ∧ trim value = value :=
  nofun

/-- The argument without its default value, with the name and the type that it had. -/
def undefaulted (argument : Argument) : Argument :=
  { argument with defaultValue := none, substantial := substantial_none }

/-- An argument is itself once its default value is given back to it. The space that the written
form has behind the `=` is trimmed off. -/
theorem defaultingTo_undefaulted {value : Text} (given : argument.defaultValue = some value) :
    (undefaulted argument).defaultingTo (' ' :: value) = argument := by
  obtain ⟨something, trimmed⟩ := argument.substantial value given
  have kept : trim (' ' :: value) = value := by
    simpa [behindSpace, something] using trim_behindSpace trimmed
  obtain ⟨name, type, defaultValue, named, substantial⟩ := argument
  obtain rfl : defaultValue = some value := given
  simp only [Argument.defaultingTo, undefaulted, kept, ne_eq, something, not_false_eq_true,
    dif_pos]

/-- An argument that has no default value loses nothing. -/
theorem undefaulted_eq (missing : argument.defaultValue = none) :
    undefaulted argument = argument := by
  obtain ⟨name, type, defaultValue, named, substantial⟩ := argument
  obtain rfl : defaultValue = none := missing
  rfl

/-- A name without a sign is taken as it is, if it is not made of blanks alone. -/
theorem ofName_of_signless {name : Text} (named : trim name ≠ []) (signless : '$' ∉ name)
    (type : TypeExpr) :
    Argument.ofName name type = .ok ⟨name, type, none, named, substantial_none⟩ := by
  have dropped : dropSigil name = name := by
    rw [dropSigil]
    intro rest same
    exact signless (by rw [same]; exact List.mem_cons_self)
  simp only [Argument.ofName, dropped, named, ne_eq, not_false_eq_true, dif_pos]

/-- Neither the type nor the variable holds an `=`, so the first one of the written form belongs
to the default value. -/
theorem mem_declared (legible : argument.Legible) :
    '=' ∉ typePart argument ++ '$' :: argument.name := by
  have typed : '=' ∉ typePart argument := by
    rw [typePart]
    split
    · exact List.not_mem_nil
    · simpa using legible.typeAssigns
  simp [typed, legible.nameAssigns]

/-- The name is what follows the last sign of a declaration. The text in front may hold signs of
its own. -/
theorem name_of_declared (front : Text) {name : Text} (signless : '$' ∉ name) :
    ((front ++ '$' :: name).reverse.takeWhile (· != '$')).reverse = name := by
  have plain : ∀ c ∈ name.reverse, (c != '$') = true := by
    intro c member
    have inside := List.mem_reverse.mp member
    simpa using fun equal : c = '$' => signless (equal ▸ inside)
  have turned : (front ++ '$' :: name).reverse = name.reverse ++ '$' :: front.reverse := by simp
  rw [turned, List.takeWhile_append_of_pos plain, List.takeWhile_cons_of_neg (by decide),
    List.append_nil, List.reverse_reverse]

/-- The type is what precedes that sign: the name and the sign are taken off by their length. -/
theorem type_of_declared (front name : Text) :
    (front ++ '$' :: name).take ((front ++ '$' :: name).length - (name.length + 1)) = front := by
  rw [List.length_append, List.length_cons, Nat.add_sub_cancel]
  exact List.take_left

/-- The variable of an argument ends visibly: in the last character of its name, or in the sign
if the name is empty. -/
theorem endsVisible_variable (legible : argument.Legible) :
    EndsVisible ('$' :: argument.name) := by
  refine endsVisible_cons ?_ legible.nameEnds
  intro nameless
  exact argument.named (by rw [nameless]; rfl)

/-- What follows the type does not change where an argument starts. With an empty type it is what
follows that must start visibly. -/
theorem startsVisible_declared (argument : Argument) {behind : Text}
    (visible : StartsVisible behind) : StartsVisible (typePart argument ++ behind) := by
  rw [typePart]
  split
  · exact visible
  · rename_i something
    rw [List.append_assoc]
    exact startsVisible_append (by simpa [TypeExpr.isEmpty] using something)
      (trim_eq_self_iff.mp argument.type.trimmed).1

/-- A sign is visible, whatever name follows it. -/
theorem startsVisible_sign (name : Text) : StartsVisible ('$' :: name) :=
  startsVisible_cons.mpr (by decide)

/-- The declaration of an argument, its type and its variable, is trimmed: it starts visibly with
either and ends with the variable. -/
theorem trim_declared (legible : argument.Legible) :
    trim (typePart argument ++ '$' :: argument.name) =
      typePart argument ++ '$' :: argument.name :=
  trim_eq_self_iff.mpr ⟨startsVisible_declared argument (startsVisible_sign argument.name),
    endsVisible_append _ (List.cons_ne_nil _ _) (endsVisible_variable legible)⟩

/-- The written form of an argument is trimmed, whether it ends in the variable or in the default
value. -/
theorem trim_written (legible : argument.Legible) :
    trim argument.written = argument.written := by
  apply trim_eq_self_iff.mpr
  constructor
  · rw [written_eq, List.append_assoc]
    exact startsVisible_declared argument (startsVisible_sign (argument.name ++ valuePart argument))
  · rw [written_eq, valuePart]
    split
    · rename_i value given
      obtain ⟨something, trimmed⟩ := argument.substantial value given
      have ends := endsVisible_append [' ', '=', ' '] something
        (trim_eq_self_iff.mp trimmed).2
      exact endsVisible_append _ (List.append_ne_nil_of_right_ne_nil _ something) ends
    · rw [List.append_nil]
      exact endsVisible_append _ (List.cons_ne_nil _ _) (endsVisible_variable legible)

/-- The argument with what stands behind an `=` as its default value, or as it is in front of
nothing. The first character of the text is the `=` itself. -/
def assigned (argument : Argument) : Text → Argument
  | [] => argument
  | _ :: value => argument.defaultingTo value

/-- An argument is read from what its signs set apart: the name behind the last `$`, the type
with its marks in front of it, and the default value behind the first `=`. What the type's part
holds besides is left to `argumentType`. -/
theorem readArgument_append (parameters : Text) {declared value front name : Text}
    (unassigned : '=' ∉ declared) (assigns : ∀ c ∈ value.head?, c = '=')
    (same : trim declared = front ++ '$' :: name) (signless : '$' ∉ name) :
    readArgument parameters (declared ++ value) =
      (Argument.ofName name (argumentType front)).map (assigned · value) := by
  have cut : (declared ++ value).span (· != '=') = (declared, value) :=
    span_append (fun c member => by simpa using fun equal : c = '=' => unassigned (equal ▸ member))
      (fun c first => by simp [assigns c first])
  have signed : (front ++ '$' :: name).contains '$' := by simp
  simp only [readArgument, cut, same, signed, if_true, name_of_declared _ signless,
    type_of_declared]
  cases Argument.ofName name (argumentType front) <;> cases value <;> rfl

/-- A declaration is read as its type and its name, and what follows an `=` as the default value.
Blanks around the declaration make no difference. -/
theorem readArgument_declared (parameters : Text) {declared value : Text}
    (legible : argument.Legible) (unassigned : '=' ∉ declared)
    (assigns : ∀ c ∈ value.head?, c = '=')
    (same : trim declared = typePart argument ++ '$' :: argument.name) :
    readArgument parameters (declared ++ value) =
      .ok (assigned (undefaulted argument) value) := by
  rw [readArgument_append parameters unassigned assigns same legible.nameSigns,
    argumentType_typePart legible, ofName_of_signless argument.named legible.nameSigns]
  rfl

/-- An argument reads back from what it is written as, with and without a default value. -/
theorem readArgument_written (parameters : Text) (legible : argument.Legible) :
    readArgument parameters argument.written = .ok argument := by
  have unassigned := mem_declared legible
  have trimmed := trim_declared legible
  rw [written_eq]
  cases given : argument.defaultValue with
  | none =>
    have valueless : valuePart argument = [] := by rw [valuePart, given]
    rw [valueless, readArgument_declared parameters legible unassigned (by simp) trimmed]
    exact congrArg Except.ok (undefaulted_eq given)
  | some value =>
    have valued : typePart argument ++ '$' :: argument.name ++ valuePart argument =
        (typePart argument ++ '$' :: argument.name ++ [' ']) ++ '=' :: ' ' :: value := by
      rw [valuePart, given]
      simp
    have spaced : '=' ∉ typePart argument ++ '$' :: argument.name ++ [' '] := by
      rw [List.mem_append, not_or]
      exact ⟨unassigned, by decide⟩
    rw [valued, readArgument_declared parameters legible spaced (by simp)
      ((trim_append_space trimmed).trans rfl)]
    exact congrArg Except.ok (defaultingTo_undefaulted given)

/-! Several arguments -/

/-- The arguments as they stand between the parentheses, with a comma and a space between any
two. -/
def argumentsPart (arguments : List Argument) : Text :=
  [',', ' '].intercalate (arguments.map Argument.written)

/-- The first of several arguments is followed by a comma, a space and the others. -/
theorem argumentsPart_cons_cons (argument next : Argument) (others : List Argument) :
    argumentsPart (argument :: next :: others) =
      argument.written ++ ',' :: ' ' :: argumentsPart (next :: others) := by
  simp [argumentsPart, List.intercalate_cons_cons]

/-- A list of arguments is nested as a whole. Here commas count like any other character, since
it is the parentheses around the list that must not be mistaken. -/
theorem nested_argumentsPart {arguments : List Argument}
    (wellFormed : ∀ argument ∈ arguments, argument.WellFormed) :
    Nested Anywhere [] (argumentsPart arguments) := by
  induction arguments with
  | nil => exact .ended
  | cons argument others inductionHypothesis =>
    have first := (nested_written (wellFormed argument List.mem_cons_self)).anywhere
    have rest := inductionHypothesis fun other member =>
      wellFormed other (List.mem_cons_of_mem argument member)
    cases others with
    | nil => simpa [argumentsPart] using first
    | cons next others =>
      have comma : Nested Anywhere [] [',', ' '] := by decide
      rw [argumentsPart_cons_cons]
      exact first.append (comma.append rest)

/-- Arguments that stay apart when they are joined: no comma outside the brackets of one of them
splits it, and none of them leaves a bracket open in front of another. The last one may leave
brackets open, as nothing follows it. -/
structure Separable (arguments : List Argument) : Prop where
  legible : ∀ argument ∈ arguments, argument.Legible
  whole : ∀ argument ∈ arguments, Whole 0 argument.written
  balanced : arguments.Pairwise fun argument _ => depth argument.written = 0

/-- Nested arguments stay apart: each is a whole, and each closes the brackets that it opens. -/
theorem separable_of_wellFormed {arguments : List Argument}
    (wellFormed : ∀ argument ∈ arguments, argument.WellFormed) : Separable arguments where
  legible argument member := (wellFormed argument member).legible
  whole argument member := (nested_written (wellFormed argument member)).whole
  balanced := List.pairwise_of_forall_mem_list fun argument member _ _ => by
    simpa using (nested_written (wellFormed argument member)).depth_eq

/-- The space behind a comma may be counted to the piece that follows it. So what is joined by `,
` is also joined by `,` alone. -/
theorem intercalate_comma_space (piece : Text) (others : List Text) :
    [',', ' '].intercalate (piece :: others) =
      [','].intercalate (piece :: others.map (' ' :: ·)) := by
  induction others generalizing piece with
  | nil => rfl
  | cons next rest inductionHypothesis =>
    rw [List.map_cons, List.intercalate_cons_cons, List.intercalate_cons_cons,
      ← inductionHypothesis (' ' :: next)]
    cases rest <;> simp

/-- Pieces joined by commas are split at these commas, if no piece has another one outside its
brackets or leaves a bracket open in front of the next. Blank pieces are lost on both sides. -/
theorem splitCommas_intercalate {pieces : List Text} (whole : ∀ piece ∈ pieces, Whole 0 piece)
    (balanced : pieces.Pairwise fun piece _ => depth piece = 0) :
    ((splitCommas 0 ([',', ' '].intercalate pieces)).map trim).filter (· ≠ []) =
      (pieces.map trim).filter (· ≠ []) := by
  cases pieces with
  | nil => rfl
  | cons piece others =>
    obtain ⟨first, wholes⟩ := List.forall_mem_cons.mp whole
    obtain ⟨closed, later⟩ := List.pairwise_cons.mp balanced
    have level (other : Text) : depth (' ' :: other) = depth other := Int.zero_add _
    have spaced : ∀ other ∈ others.map (' ' :: ·), Whole 0 other :=
      List.forall_mem_map.mpr fun other member => ⟨by simp, wholes other member⟩
    have cut : splitCommas 0 ([',', ' '].intercalate (piece :: others)) =
        piece :: others.map (' ' :: ·) := by
      rw [intercalate_comma_space]
      refine splitCommas_eq_iff.mpr ⟨List.cons_ne_nil _ _, rfl,
        List.forall_mem_cons.mpr ⟨first, spaced⟩, List.pairwise_cons.mpr ⟨?_, ?_⟩⟩
      · exact List.forall_mem_map.mpr closed
      · simpa only [List.pairwise_map, level] using later
    have trimmed : (others.map (' ' :: ·)).map trim = others.map trim := by
      rw [List.map_map]
      rfl
    rw [cut, List.map_cons, trimmed, List.map_cons]

/-- Arguments joined by commas are split at these commas, and each piece is trimmed to the
argument that it was written from. None is lost, as the sign of a variable is visible. -/
theorem splitCommas_argumentsPart {arguments : List Argument} (separable : Separable arguments) :
    ((splitCommas 0 (argumentsPart arguments)).map trim).filter (· ≠ []) =
      arguments.map Argument.written := by
  have trimmed : (arguments.map Argument.written).map trim = arguments.map Argument.written := by
    rw [List.map_map]
    exact List.map_congr_left fun argument member =>
      trim_written (separable.legible argument member)
  rw [argumentsPart, splitCommas_intercalate (List.forall_mem_map.mpr separable.whole)
    (List.pairwise_map.mpr separable.balanced), trimmed]
  refine List.filter_eq_self.mpr (List.forall_mem_map.mpr fun argument _ => ?_)
  simp [written_eq]

/-- Texts that are read one by one are read in a row, with the results in the same order. -/
theorem mapM_map_eq_ok {α β : Type} {reader : Text → Except TagError β} {text : α → Text}
    {result : α → β} {items : List α}
    (read : ∀ item ∈ items, reader (text item) = .ok (result item)) :
    (items.map text).mapM reader = .ok (items.map result) := by
  induction items with
  | nil => rfl
  | cons item others inductionHypothesis =>
    have rest := inductionHypothesis fun other member =>
      read other (List.mem_cons_of_mem item member)
    rw [List.map_cons, List.mapM_cons, read item List.mem_cons_self, rest]
    rfl

/-- Arguments that stay apart read back from their written form. There may be none of them, and
then the form is empty. -/
theorem readArguments_argumentsPart {arguments : List Argument}
    (separable : Separable arguments) :
    readArguments (argumentsPart arguments) = .ok arguments := by
  have read : (arguments.map Argument.written).mapM (readArgument (argumentsPart arguments)) =
      .ok (arguments.map id) := mapM_map_eq_ok fun argument member =>
    readArgument_written (argumentsPart arguments) (separable.legible argument member)
  rw [readArguments, splitCommas_argumentsPart separable, read, List.map_id]

end DocComment.Tag
