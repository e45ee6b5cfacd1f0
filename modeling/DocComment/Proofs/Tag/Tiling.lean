import DocComment.Proofs.Tag.InPlace
import DocComment.Proofs.TypeExpr.WellFormed

/-!
# A body tiled by its declaration

A declaration is cut from a body by three rules that know nothing of one another: where a variable
begins the body there is no type, a type runs to the first blank outside its brackets, and the word
of a variable runs to the first blank of any kind. Still nothing falls between the parts, and no
part reaches into another: with the blanks between them they make up the body again, whatever its
brackets are and however wide its blanks. The word of the variable is the first word behind the
type, if marks and a sign begin that word; otherwise the description starts there.

That parts tile a body holds of many divisions of it, such as the one that never finds a type. The
type decides which of them it is: it is empty where a variable begins the body, and a well-formed
type is found whole.
-/
namespace DocComment.Tag

open Text

/-! What begins a variable -/

/-- Any number of reference marks, then any number of variadic marks, then a sign begin the text.
What follows the sign may be anything, or nothing. -/
def BeginsVariable (text : Text) : Prop :=
  ∃ references variadics name,
    text = List.replicate references '&' ++
      ((List.replicate variadics ['.', '.', '.']).flatten ++ '$' :: name)

/-- A text has groups of dots in front of what is left without them. One or two dots more stay
with what is left. -/
theorem exists_append_dropEllipses (text : Text) :
    ∃ variadics,
      text = (List.replicate variadics ['.', '.', '.']).flatten ++ dropEllipses text := by
  fun_induction dropEllipses text with
  | case1 rest inductionHypothesis =>
    obtain ⟨variadics, same⟩ := inductionHypothesis
    refine ⟨variadics + 1, ?_⟩
    rw [List.replicate_succ, List.flatten_cons, List.append_assoc, ← same]
    rfl
  | case2 text other => exact ⟨0, rfl⟩

/-- Groups of dots in front of a text are taken off, however many, and those of the text with
them. -/
theorem dropEllipses_flatten_append (variadics : Nat) (text : Text) :
    dropEllipses ((List.replicate variadics ['.', '.', '.']).flatten ++ text) =
      dropEllipses text := by
  induction variadics with
  | zero => rfl
  | succ variadics inductionHypothesis =>
    rw [List.replicate_succ, List.flatten_cons, List.append_assoc]
    exact inductionHypothesis

/-- Only marks and a sign in this order make a text begin with a variable. -/
theorem isVariable_iff {text : Text} : isVariable text ↔ BeginsVariable text := by
  constructor
  · intro signed
    have references : text.takeWhile (· == '&') =
        List.replicate (text.takeWhile (· == '&')).length '&' :=
      List.eq_replicate_of_mem fun c member => by
        simpa using List.all_eq_true.mp List.all_takeWhile c member
    obtain ⟨variadics, split⟩ := exists_append_dropEllipses (text.dropWhile (· == '&'))
    obtain ⟨name, sign⟩ := List.head?_eq_some_iff.mp (by simpa [isVariable] using signed)
    refine ⟨(text.takeWhile (· == '&')).length, variadics, name, ?_⟩
    rw [← references, ← sign, ← split, List.takeWhile_append_dropWhile]
  · rintro ⟨references, variadics, name, rfl⟩
    -- behind the reference marks stands a dot or the sign, so all of them are taken off and no more
    have unmarked : (List.replicate references '&' ++
        ((List.replicate variadics ['.', '.', '.']).flatten ++ '$' :: name)).dropWhile (· == '&') =
        (List.replicate variadics ['.', '.', '.']).flatten ++ '$' :: name := by
      rw [List.dropWhile_append_of_pos (by simp)]
      cases variadics <;> rfl
    rw [isVariable, unmarked, dropEllipses_flatten_append]
    rfl

/-- The test of the reader decides it. -/
instance (text : Text) : Decidable (BeginsVariable text) :=
  decidable_of_iff (isVariable text) isVariable_iff

/-! The parts -/

/-- The parts of a declaration lie in the body one behind another, with nothing but blanks
between them: the type up to a blank, if there is a type, then the first word if marks and a sign
begin it, then the description. -/
structure Declaration.Tiles (declaration : Declaration) (body : Text) : Prop where
  whole : ∃ gap space, (∀ c ∈ gap ++ space, isBlank c) ∧
    declaration.type ++ gap ++ declaration.token.getD [] ++ space ++ declaration.description = body
  typed : trim declaration.type = declaration.type
  described : trim declaration.description = declaration.description
  apart : ∀ behind, declaration.type ++ behind = body → declaration.type = [] ∨ StartsBlank behind
  named : ∀ behind, declaration.type ++ behind = body → ∀ word,
    declaration.token = some word ↔ (words behind).head? = some word ∧ BeginsVariable word

/-- A text that ends visibly has nothing but blanks in front of what is left by trimming it. -/
theorem exists_blanks_append_trim {text : Text} (ends : EndsVisible text) :
    ∃ blanks, (∀ c ∈ blanks, isBlank c) ∧ blanks ++ trim text = text := by
  refine ⟨text.takeWhile isBlank, fun c member => ?_, ?_⟩
  · exact List.all_eq_true.mp List.all_takeWhile c member
  · rw [← trimStart_eq_trim ends]
    exact List.takeWhile_append_dropWhile

/-- Behind its type a declaration is the word of its variable, blanks and its description.
Without a variable the blanks are none. -/
theorem behindType_tiles (type : Text) {rest : Text} (trimmed : trim rest = rest) :
    ∃ space, (∀ c ∈ space, isBlank c) ∧
      (Declaration.behindType type rest).token.getD [] ++ space ++
        (Declaration.behindType type rest).description = rest := by
  cases settled : isVariable rest with
  | true =>
    obtain ⟨-, -, whole⟩ := span_exact rest
    have ends := endsVisible_of_isSuffix ⟨_, whole⟩ trimmed
    obtain ⟨space, blank, described⟩ := exists_blanks_append_trim ends
    rw [← isVariable_span] at settled
    refine ⟨space, blank, ?_⟩
    simp only [Declaration.behindType, settled, if_true, Option.getD_some, List.append_assoc,
      described, whole]
  | false =>
    rw [behindType_of_not_isVariable type settled]
    exact ⟨[], List.forall_mem_nil _, trimmed⟩

/-- The word of the variable is the first word behind the type, if a variable begins that
word. -/
theorem token_behindType (type : Text) {rest : Text} (starts : StartsVisible rest) :
    (Declaration.behindType type rest).token = (words rest).head?.filter isVariable := by
  by_cases empty : rest = []
  · subst empty
    rw [words_nil]
    rfl
  · rw [head?_words starts empty, Declaration.behindType, List.span_eq_takeWhile_dropWhile,
      Option.filter_some]
    dsimp only
    split <;> rfl

/-- A declaration is found behind the type with which its body starts, and where there is a type
a blank follows it, unless the body ends there. -/
theorem exists_ofBody_eq (body : Text) :
    ∃ type behind, type ++ behind = body ∧ (type = [] ∨ StartsBlank behind) ∧
      Declaration.ofBody body = .behindType type (trimStart behind) := by
  cases settled : isVariable body with
  | true => exact ⟨[], body, rfl, .inl rfl, ofBody_of_isVariable settled⟩
  | false =>
    exact ⟨_, _, TypeExpr.append_splitToken body, .inr (TypeExpr.startsBlank_splitToken body),
      ofBody_of_not_isVariable settled⟩

/-- The declaration in a trimmed body tiles it, whatever parts it has. -/
theorem tiles_ofBody {body : Text} (trimmed : trim body = body) :
    (Declaration.ofBody body).Tiles body := by
  obtain ⟨typed, described, -⟩ := ofBody_exact trimmed
  obtain ⟨type, behind, whole, apart, found⟩ := exists_ofBody_eq body
  have ends := endsVisible_of_isSuffix ⟨type, whole⟩ trimmed
  rw [trimStart_eq_trim ends] at found
  rw [found] at typed described ⊢
  have same : (Declaration.behindType type (trim behind)).type = type := (behindType_exact _ _).1
  -- there is one place only where the type ends, and what stands behind it is what was scanned
  have cut (other : Text) (split : type ++ other = body) : other = behind :=
    List.append_cancel_left (split.trans whole.symm)
  refine ⟨?_, typed, described, ?_, ?_⟩
  · obtain ⟨gap, blankGap, parted⟩ := exists_blanks_append_trim ends
    obtain ⟨space, blankSpace, tiled⟩ := behindType_tiles type (trim_trim behind)
    refine ⟨gap, space, List.forall_mem_append.mpr ⟨blankGap, blankSpace⟩, ?_⟩
    rw [same, List.append_assoc, List.append_assoc, List.append_assoc, ← List.append_assoc _ space,
      tiled, parted, whole]
  · intro other split
    rw [same] at split ⊢
    rwa [cut other split]
  · intro other split word
    rw [same] at split
    rw [cut other split, token_behindType type (trim_eq_self_iff.mp (trim_trim behind)).1,
      words_trim, Option.filter_eq_some_iff, isVariable_iff]

/-- The parts of the declaration in a trimmed body tile it. There is no type in front of a
variable, and a well-formed type that is none is found whole. In a body of less than 2³¹
characters the parts are also cut in place. -/
theorem ofBody_returns_parts :
    (∀ body, trim body = body → (Declaration.ofBody body).Tiles body) ∧
      (∀ body, BeginsVariable body → (Declaration.ofBody body).type = []) ∧
      (∀ type behind, TypeExpr.WellFormed type → ¬ BeginsVariable type → StartsBlank behind →
        (Declaration.ofBody (type ++ behind)).type = type) ∧
      ∀ body, body.length < 2147483648 → InPlace.declaration body = .ok (.ofBody body) := by
  refine ⟨fun body => tiles_ofBody, fun body begins => ?_, fun type behind formed plain apart => ?_,
    fun body short => InPlace.declaration_eq short⟩
  · rw [ofBody_of_isVariable (isVariable_iff.mpr begins), (behindType_exact _ _).1]
  · have other : isVariable (type ++ behind) = false := by
      rw [isVariable_append apart, Bool.eq_false_iff]
      exact fun signed => plain (isVariable_iff.mp signed)
    rw [ofBody_of_not_isVariable other, (behindType_exact _ _).1, formed.isToken behind apart]

/-- A callable with a wide blank in front of its result, a variable with both marks between wide
blanks, and a description with a gap of its own; and a body that begins with its variable. -/
theorem ofBody_returns_parts_marked :
    let type := "callable(int): \u00a0A<B>".toList
    let behind := " \u3000&...$rest\u2003 of  it".toList
    let declaration : Declaration := ⟨type, some "&...$rest".toList, "of  it".toList⟩
    trim (type ++ behind) = type ++ behind ∧ TypeExpr.WellFormed type ∧ ¬ BeginsVariable type ∧
      StartsBlank behind ∧ (type ++ behind).length < 2147483648 ∧
      Declaration.ofBody (type ++ behind) = declaration ∧ declaration.Tiles (type ++ behind) ∧
      (Declaration.ofBody (type ++ behind)).type = type ∧
      InPlace.declaration (type ++ behind) = .ok declaration ∧
      BeginsVariable "&$a<b c>".toList ∧ (Declaration.ofBody "&$a<b c>".toList).type = [] := by
  intro type behind declaration
  have trimmed : trim (type ++ behind) = type ++ behind := by decide +kernel
  have formed : TypeExpr.WellFormed type := by decide +kernel
  have plain : ¬ BeginsVariable type := by decide +kernel
  have apart : StartsBlank behind := startsBlank_space _
  have short : (type ++ behind).length < 2147483648 := by decide +kernel
  have found : Declaration.ofBody (type ++ behind) = declaration := by decide +kernel
  have begins : BeginsVariable "&$a<b c>".toList := by decide +kernel
  obtain ⟨tiles, untyped, typed, inPlace⟩ := ofBody_returns_parts
  exact ⟨trimmed, formed, plain, apart, short, found, found ▸ tiles _ trimmed,
    typed type behind formed plain apart, found ▸ inPlace _ short, begins, untyped _ begins⟩

/-- A bracket that closes nothing ends no type, and one that is never closed takes the rest of the
body into the type, with the word that would be a variable. -/
example :
    Declaration.ofBody "a>b $c d".toList = ⟨"a>b".toList, some "$c".toList, "d".toList⟩ ∧
      Declaration.ofBody "a<b $c d".toList = ⟨"a<b $c d".toList, none, []⟩ := by
  decide +kernel

end DocComment.Tag
