import DocComment.Proofs.Tag.Argument
import DocComment.Proofs.Tag.Rereading

/-!
# Arguments that were read

What the reader makes of a parameter list has the brackets and commas of that list, piece by
piece: it takes blanks, marks and empty pieces away, and the writer adds no bracket. So the
written arguments nest and close as the list did, whether its brackets matched or not, and
they read back unless a mark is left behind a type.
-/
namespace DocComment.Tag

open Text Brackets

/-! One argument -/

/-- Trimming adds no character, so what is not in a text is not in the trimmed one. -/
theorem mem_of_mem_trim {text : Text} {c : Char} (member : c ∈ trim text) : c ∈ text :=
  (List.dropWhile_suffix isBlank).mem ((trimEnd_isPrefix (trimStart text)).mem member)

/-- The marks that are taken off a type are no brackets, so dots leave the skeleton as it is. -/
theorem skeleton_dropEllipses (text : Text) : skeleton (dropEllipses text) = skeleton text := by
  fun_induction dropEllipses text with
  | case1 rest inductionHypothesis => exact inductionHypothesis
  | case2 text other => rfl

/-- Reference marks leave the skeleton as it is as well, however many of them are taken off. -/
theorem skeleton_dropWhile_reference (text : Text) :
    skeleton (text.dropWhile (· == '&')) = skeleton text := by
  induction text with
  | nil => rfl
  | cons c rest inductionHypothesis =>
    by_cases reference : c = '&'
    · subst reference
      exact inductionHypothesis
    · simp [reference]

/-- The skeleton of a text read backwards is that of the text, read backwards. The reader takes
marks off the end of a type in this way. -/
theorem skeleton_reverse (text : Text) : skeleton text.reverse = (skeleton text).reverse :=
  List.filter_reverse

/-- The type of an argument has the brackets of the text in front of its variable: marks and
blanks are all that it lacks. -/
theorem skeleton_argumentType (text : Text) :
    skeleton (argumentType text).text = skeleton text := by
  have trimmed : (argumentType text).text =
      trim (dropEllipses ((trim text).reverse.dropWhile (· == '&'))).reverse := rfl
  rw [trimmed, skeleton_trim, skeleton_reverse, skeleton_dropEllipses,
    skeleton_dropWhile_reference, skeleton_reverse, List.reverse_reverse, skeleton_trim]

/-- The type of an argument is a part of the text in front of its variable, and so has no
character that the text has not. -/
theorem mem_of_mem_argumentType {text : Text} {c : Char} (member : c ∈ (argumentType text).text) :
    c ∈ text := by
  have inside := List.mem_reverse.mp (mem_of_mem_trim member)
  have unmarked := (List.dropWhile_suffix _).mem ((dropEllipses_suffix _).mem inside)
  exact mem_of_mem_trim (List.mem_reverse.mp unmarked)

/-- A text with a sign in it is cut at the last one, so there is no sign in the part behind. -/
theorem exists_last_sign {text : Text} (signed : '$' ∈ text) :
    ∃ front name, text = front ++ '$' :: name ∧ '$' ∉ name := by
  obtain ⟨before, behind, turned, signless⟩ :=
    List.eq_append_cons_of_mem (List.mem_reverse.mpr signed)
  refine ⟨behind.reverse, before.reverse, ?_, by simpa using signless⟩
  rw [← List.reverse_reverse text, turned]
  simp

/-- The parts of an argument as the reader cuts them from a text: its name and its type stand in
front of the first `=`, its default value behind it. -/
theorem readArgument_exact {parameters text : Text} {argument : Argument}
    (done : readArgument parameters text = .ok argument) :
    ∃ declared front value, text = declared ++ value ∧ '=' ∉ declared ∧
      (∀ c ∈ value.head?, c = '=') ∧ trim declared = front ++ '$' :: argument.name ∧
      '$' ∉ argument.name ∧ argument.type = argumentType front ∧
      argument.defaultValue.getD [] = trim value.tail := by
  obtain ⟨inside, stops, whole⟩ := span_parts (· != '=') text
  rw [readArgument] at done
  dsimp only at done
  generalize (text.span (· != '=')).1 = declared at *
  generalize (text.span (· != '=')).2 = value at *
  have unassigned : '=' ∉ declared := fun member => by simpa using inside '=' member
  have assigns : ∀ c ∈ value.head?, c = '=' := fun c first => by simpa using stops c first
  split at done
  · rename_i signed
    obtain ⟨front, name, split, signless⟩ := exists_last_sign (List.contains_iff_mem.mp signed)
    rw [split, name_of_declared front signless, type_of_declared] at done
    obtain ⟨undefaulted, named, done⟩ := exists_of_bind_eq_ok done
    have dropped : dropSigil name = name := by
      rw [dropSigil]
      intro rest same
      exact signless (by rw [same]; exact List.mem_cons_self)
    rw [Argument.ofName, dropped] at named
    split at named
    · obtain rfl := Except.ok.inj named
      refine ⟨declared, front, value, whole.symm, unassigned, assigns, ?_⟩
      cases value with
      | nil =>
        obtain rfl := Except.ok.inj done
        exact ⟨split, signless, rfl, rfl⟩
      | cons c rest =>
        obtain rfl := Except.ok.inj done
        rw [Argument.defaultingTo]
        split
        · exact ⟨split, signless, rfl, rfl⟩
        · rename_i blank
          exact ⟨split, signless, rfl, (not_not.mp blank).symm⟩
    · contradiction
  · contradiction

/-- An argument that was read holds no sign within its parts. That its type ends in no mark must
be known besides, since the reader may leave one there. -/
theorem legible_of_readArgument {parameters text : Text} {argument : Argument}
    (done : readArgument parameters text = .ok argument) (unmarked : argument.UnmarkedType) :
    argument.Legible := by
  obtain ⟨declared, front, value, -, unassigned, -, split, signless, typed, -⟩ :=
    readArgument_exact done
  have assignless : '=' ∉ front ++ '$' :: argument.name := fun inside =>
    unassigned (mem_of_mem_trim (split ▸ inside))
  refine ⟨signless, fun inside => assignless ?_, ?_, fun inside => assignless ?_, unmarked⟩
  · exact List.mem_append_right _ (List.mem_cons_of_mem _ inside)
  · have ends := endsVisible_trim declared
    rw [split] at ends
    exact endsVisible_of_append [_] (endsVisible_of_append front ends)
  · rw [typed] at inside
    exact List.mem_append_left _ (mem_of_mem_argumentType inside)

/-- The skeleton of an argument is that of its parts, in the order in which they are written. -/
theorem skeleton_written (argument : Argument) :
    skeleton argument.written =
      skeleton argument.type.text ++ skeleton argument.name ++
        skeleton (argument.defaultValue.getD []) := by
  have front : skeleton (typePart argument) = skeleton argument.type.text := by
    rw [typePart]
    split
    · rename_i empty
      rw [List.isEmpty_iff.mp empty]
    · rw [skeleton_append]
      exact List.append_nil _
  have behind : skeleton (valuePart argument) = skeleton (argument.defaultValue.getD []) := by
    rw [valuePart]
    split <;> rename_i value <;> rw [value] <;> rfl
  have sign : skeleton ('$' :: argument.name) = skeleton argument.name :=
    skeleton_cons_plain (by decide) argument.name
  rw [written_eq, skeleton_append, skeleton_append, front, behind, sign]

/-- Reading an argument and writing it keeps its brackets and commas, in their order. So the
written form is whole and balanced where the text was. -/
theorem skeleton_of_readArgument {parameters text : Text} {argument : Argument}
    (done : readArgument parameters text = .ok argument) :
    skeleton argument.written = skeleton text := by
  obtain ⟨declared, front, value, rfl, -, assigns, split, -, typed, valued⟩ :=
    readArgument_exact done
  have before : skeleton declared = skeleton argument.type.text ++ skeleton argument.name := by
    rw [← skeleton_trim declared, split, typed, skeleton_argumentType, skeleton_append,
      skeleton_cons_plain (by decide)]
  have behind : skeleton value = skeleton (argument.defaultValue.getD []) := by
    rw [valued, skeleton_trim]
    cases value with
    | nil => rfl
    | cons c rest =>
      obtain rfl : c = '=' := assigns c rfl
      exact skeleton_cons_plain (by decide) rest
  rw [skeleton_append, before, behind, skeleton_written]

/-! Several arguments -/

/-- Several arguments are read one after another, each from a piece of its own. The induction is
on the pieces, and the skeletons are kept one by one. -/
theorem pieces_of_mapM {parameters : Text} {pieces : List Text} {arguments : List Argument}
    (done : pieces.mapM (readArgument parameters) = .ok arguments) :
    arguments.map (fun argument => skeleton argument.written) = pieces.map skeleton ∧
      ∀ argument ∈ arguments, ∃ piece, readArgument parameters piece = .ok argument := by
  induction pieces generalizing arguments with
  | nil =>
    obtain rfl := Except.ok.inj done
    exact ⟨rfl, by simp⟩
  | cons piece others inductionHypothesis =>
    rw [List.mapM_cons] at done
    obtain ⟨argument, first, done⟩ := exists_of_bind_eq_ok done
    obtain ⟨behind, rest, done⟩ := exists_of_bind_eq_ok done
    obtain rfl := Except.ok.inj done
    obtain ⟨skeletons, read⟩ := inductionHypothesis rest
    refine ⟨by rw [List.map_cons, List.map_cons, skeletons, skeleton_of_readArgument first], ?_⟩
    intro other member
    rcases List.mem_cons.mp member with rfl | later
    · exact ⟨piece, first⟩
    · exact read other later

/-- The pieces of a parameter list that are not blank are whole, and depth zero is reached again
behind each of them that is not the last. -/
theorem whole_pieces (parameters : Text) :
    (∀ piece ∈ ((splitCommas 0 parameters).map trim).filter (· ≠ []), Whole 0 piece) ∧
      (((splitCommas 0 parameters).map trim).filter (· ≠ [])).Pairwise
        fun piece _ => depth piece = 0 := by
  obtain ⟨-, -, whole, balanced⟩ :=
    splitCommas_eq_iff.mp (show splitCommas 0 parameters = _ from rfl)
  have trimmed (piece : Text) : depth (trim piece) = depth piece := by
    rw [← depth_skeleton, skeleton_trim, depth_skeleton]
  constructor
  · intro piece member
    obtain ⟨untrimmed, inside, rfl⟩ := List.mem_map.mp (List.mem_filter.mp member).1
    rw [← whole_skeleton, skeleton_trim, whole_skeleton]
    exact whole untrimmed inside
  · refine List.Pairwise.filter _ (List.pairwise_map.mpr ?_)
    simpa only [trimmed] using balanced

/-- The arguments that are read from a parameter list stay apart when they are written: they have
the commas and brackets of the pieces that they were read from. -/
theorem separable_of_readArguments {parameters : Text} {arguments : List Argument}
    (done : readArguments parameters = .ok arguments)
    (unmarked : ∀ argument ∈ arguments, argument.UnmarkedType) : Separable arguments := by
  obtain ⟨skeletons, read⟩ := pieces_of_mapM done
  obtain ⟨whole, balanced⟩ := whole_pieces parameters
  refine ⟨fun argument member => ?_, fun argument member => ?_, ?_⟩
  · obtain ⟨piece, first⟩ := read argument member
    exact legible_of_readArgument first (unmarked argument member)
  · have kept : skeleton argument.written ∈
        arguments.map fun argument => skeleton argument.written := List.mem_map_of_mem member
    rw [skeletons] at kept
    obtain ⟨piece, inside, same⟩ := List.mem_map.mp kept
    rw [← whole_skeleton, ← same, whole_skeleton]
    exact whole piece inside
  · have apart : (arguments.map fun argument => skeleton argument.written).Pairwise
        fun piece _ => depth piece = 0 := by
      rw [skeletons, List.pairwise_map]
      simpa using balanced
    simpa [List.pairwise_map] using apart

/-- Blank pieces have no parentheses, so nothing is lost by leaving them out. -/
theorem flatMap_parentheses_trimmed (pieces : List Text) :
    ((pieces.map trim).filter (· ≠ [])).flatMap parentheses = pieces.flatMap parentheses := by
  induction pieces with
  | nil => rfl
  | cons piece others inductionHypothesis =>
    have kept : parentheses (trim piece) = parentheses piece := by
      rw [← parentheses_skeleton, skeleton_trim, parentheses_skeleton]
    rw [List.map_cons, List.flatMap_cons, ← kept]
    by_cases blank : trim piece = []
    · rw [List.filter_cons_of_neg (by simpa using blank), blank, inductionHypothesis]
      rfl
    · rw [List.filter_cons_of_pos (by simpa using blank), List.flatMap_cons, inductionHypothesis]

/-- The arguments that are read from a parameter list have its parentheses when they are written,
in the same order; commas and blanks have none. -/
theorem parentheses_of_readArguments {parameters : Text} {arguments : List Argument}
    (done : readArguments parameters = .ok arguments) :
    parentheses (argumentsPart arguments) = parentheses parameters := by
  obtain ⟨skeletons, -⟩ := pieces_of_mapM done
  have comma : parentheses [','] = [] := by decide
  have unskeletoned (texts : List Text) :
      (texts.map skeleton).flatMap parentheses = texts.flatMap parentheses := by
    simp only [List.flatMap_map, parentheses_skeleton]
  calc parentheses (argumentsPart arguments)
      = (arguments.map Argument.written).flatMap parentheses :=
        parentheses_intercalate (by decide) _
    _ = (arguments.map fun argument => skeleton argument.written).flatMap parentheses := by
        rw [← unskeletoned, List.map_map]
        rfl
    _ = (splitCommas 0 parameters).flatMap parentheses := by
        rw [skeletons, unskeletoned, flatMap_parentheses_trimmed]
    _ = parentheses parameters := by
        rw [← parentheses_intercalate comma, intercalate_splitCommas]

/-- A parameter list that closes what it opens still does so when it is written from what was
read. -/
theorem closes_of_readArguments {parameters : Text} {arguments : List Argument}
    (done : readArguments parameters = .ok arguments) (closes : Closes 0 parameters) :
    Closes 0 (argumentsPart arguments) := by
  rwa [← closes_parentheses, parentheses_of_readArguments done, closes_parentheses]

end DocComment.Tag
