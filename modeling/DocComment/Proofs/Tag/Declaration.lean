import DocComment.Proofs.TypeExpr.Token
import DocComment.Tag.Declaration

/-!
# Declarations read back

A declaration is cut from a body at two places: where the type ends and where the word of
the variable ends. The parts joined by single spaces are cut at the same places again,
since a type that was cut off in front of a blank is cut off in front of every blank, and
since whether a text begins with a variable is settled within its first word. The word of
the variable may be replaced by any other word that stands for a variable.
-/
namespace DocComment.Tag

open Text

/-- What starts with a blank does not start with any other character, nor does the empty text. -/
theorem head?_ne_of_startsBlank {behind : Text} {c : Char} (apart : StartsBlank behind)
    (visible : isBlank c = false) : behind.head? ≠ some c := by
  intro first
  rw [apart c first] at visible
  contradiction

/-- Groups of dots are taken off the front of a text alike, whatever follows a blank. No group
reaches over the blank. -/
theorem dropEllipses_append {text behind : Text} (apart : StartsBlank behind) :
    dropEllipses (text ++ behind) = dropEllipses text ++ behind := by
  fun_induction dropEllipses text with
  | case1 rest inductionHypothesis => simpa [dropEllipses] using inductionHypothesis
  | case2 text other =>
    have dotless := head?_ne_of_startsBlank apart (c := '.') (by decide)
    -- three dots across the border would put one at the start of what follows
    rw [dropEllipses]
    intro rest same
    rcases text with _ | ⟨a, _ | ⟨b, _ | ⟨c, others⟩⟩⟩
    · exact dotless (by simp_all)
    · exact dotless (by simp_all)
    · exact dotless (by simp_all)
    · exact other others (by simp_all)

/-- Reference marks are taken off alike as well, since a blank is no mark. -/
theorem dropWhile_reference_append {text behind : Text} (apart : StartsBlank behind) :
    (text ++ behind).dropWhile (· == '&') = text.dropWhile (· == '&') ++ behind := by
  have markless := head?_ne_of_startsBlank apart (c := '&') (by decide)
  rw [List.dropWhile_append]
  split
  · rename_i emptied
    rw [List.isEmpty_iff.mp emptied, List.nil_append]
    cases behind with
    | nil => rfl
    | cons c rest =>
      have other : c ≠ '&' := fun same => markless (congrArg some same)
      simp [other]
  · rfl

/-- Whether a text begins with a variable is settled in front of its first blank: marks and the
sign stand in one word. -/
theorem isVariable_append {text behind : Text} (apart : StartsBlank behind) :
    isVariable (text ++ behind) = isVariable text := by
  have signless := head?_ne_of_startsBlank apart (c := '$') (by decide)
  rw [isVariable, isVariable, dropWhile_reference_append apart, dropEllipses_append apart]
  cases dropEllipses (text.dropWhile (· == '&')) with
  | nil => simpa using signless
  | cons => rfl

/-- The word of a variable is not empty: it has a sign. -/
theorem ne_nil_of_isVariable {token : Text} (signed : isVariable token) : token ≠ [] := by
  rintro rfl
  exact absurd signed (by decide)

/-- A body that begins with its variable has an empty type, and all of it is taken apart as what
follows a type. -/
theorem ofBody_of_isVariable {body : Text} (signed : isVariable body) :
    Declaration.ofBody body = .behindType [] (trimStart body) := by
  simp only [Declaration.ofBody, signed, if_true, Declaration.behindType]

/-- A body that begins otherwise has its type cut off in front, and what follows is taken apart
without the blanks between. -/
theorem ofBody_of_not_isVariable {body : Text} (typed : isVariable body = false) :
    Declaration.ofBody body =
      .behindType (TypeExpr.splitToken body).1 (trimStart (TypeExpr.splitToken body).2) := by
  simp only [Declaration.ofBody, typed, Bool.false_eq_true, if_false, Declaration.behindType]

/-- A word that stands for a variable is found behind the type, and so is the description behind
it. -/
theorem behindType_append {type word behind : Text} (visible : Visible word)
    (signed : isVariable word) (apart : StartsBlank behind) :
    Declaration.behindType type (word ++ behind) = ⟨type, some word, trim behind⟩ := by
  simp only [Declaration.behindType, span_visible visible apart, signed, if_true]

/-- Whether a text begins with a variable is settled by its first word, which is what the reader
looks at. -/
theorem isVariable_span (text : Text) :
    isVariable (text.span fun c => !isBlank c).1 = isVariable text := by
  obtain ⟨-, apart, whole⟩ := span_exact text
  conv_rhs => rw [← whole, isVariable_append apart]

/-- Where a variable begins the text behind the type, it is the first word of that text, and the
description is what follows that word. -/
theorem behindType_of_isVariable (type : Text) {rest : Text} (signed : isVariable rest) :
    ∃ word description, Visible word ∧ isVariable word ∧
      Declaration.behindType type rest = ⟨type, some word, trim description⟩ := by
  obtain ⟨visible, -, -⟩ := span_exact rest
  rw [← isVariable_span] at signed
  refine ⟨_, (rest.span fun c => !isBlank c).2, visible, signed, ?_⟩
  simp only [Declaration.behindType, signed, if_true]

/-- Without a variable behind the type, all that is left is the description. A sign further
behind makes no difference. -/
theorem behindType_of_not_isVariable (type : Text) {rest : Text}
    (plain : isVariable rest = false) :
    Declaration.behindType type rest = ⟨type, none, trim rest⟩ := by
  rw [← isVariable_span] at plain
  simp only [Declaration.behindType, plain, Bool.false_eq_true, if_false]

/-- Whatever is found behind the type, the type stays and the description is trimmed, and a word
is found only where a variable begins the text. -/
theorem behindType_exact (type rest : Text) :
    (Declaration.behindType type rest).type = type ∧
      trim (Declaration.behindType type rest).description =
        (Declaration.behindType type rest).description ∧
      (∀ word ∈ (Declaration.behindType type rest).token, Visible word ∧ isVariable word) := by
  cases settled : isVariable rest with
  | true =>
    obtain ⟨word, description, visible, signed, same⟩ := behindType_of_isVariable type settled
    rw [same]
    refine ⟨rfl, trim_trim description, ?_⟩
    rintro _ ⟨⟩
    exact ⟨visible, signed⟩
  | false =>
    rw [behindType_of_not_isVariable type settled]
    exact ⟨rfl, trim_trim rest, by simp⟩

/-- The parts of a declaration: its type and its description are trimmed, and its token is a
visible word that stands for a variable. -/
theorem ofBody_exact {body : Text} (trimmed : trim body = body) :
    trim (Declaration.ofBody body).type = (Declaration.ofBody body).type ∧
      trim (Declaration.ofBody body).description = (Declaration.ofBody body).description ∧
      (∀ word ∈ (Declaration.ofBody body).token, Visible word ∧ isVariable word) := by
  cases settled : isVariable body with
  | true =>
    rw [ofBody_of_isVariable settled]
    obtain ⟨typed, others⟩ := behindType_exact [] (trimStart body)
    exact ⟨by rw [typed]; rfl, others⟩
  | false =>
    obtain ⟨-, -, trimmedType, -⟩ := TypeExpr.splitToken_exact trimmed
    rw [ofBody_of_not_isVariable settled]
    obtain ⟨typed, others⟩ := behindType_exact (TypeExpr.splitToken body).1
      (trimStart (TypeExpr.splitToken body).2)
    exact ⟨by rw [typed, trimmedType], others⟩

/-- The type in front of a variable is missing, or it is cut off in front of every blank and is
no variable itself. So it can be put back in front of that variable. -/
theorem type_of_ofBody {body token : Text} (trimmed : trim body = body)
    (found : (Declaration.ofBody body).token = some token) :
    (Declaration.ofBody body).type = [] ∨
      TypeExpr.IsToken (Declaration.ofBody body).type ∧
        isVariable (Declaration.ofBody body).type = false := by
  cases settled : isVariable body with
  | true =>
    rw [ofBody_of_isVariable settled, (behindType_exact [] (trimStart body)).1]
    exact .inl rfl
  | false =>
    obtain ⟨whole, apart, -, entire | cutOff⟩ := TypeExpr.splitToken_exact trimmed
    · -- a type that takes the whole body leaves no variable behind it
      rw [ofBody_of_not_isVariable settled, entire] at found
      contradiction
    · rw [ofBody_of_not_isVariable settled, (behindType_exact _ _).1]
      rw [← whole, isVariable_append apart] at settled
      exact .inr ⟨cutOff, settled⟩

/-- A word that is visible and stands for a variable starts visibly, whatever follows it; it is
not empty, so it is its own first character that counts. -/
theorem startsVisible_variable {word : Text} (visible : Visible word) (signed : isVariable word)
    (behind : Text) : StartsVisible (word ++ behind) :=
  startsVisible_append (ne_nil_of_isVariable signed) visible.startsVisible

/-- A word for a variable is found behind a type that every blank ends, if the type begins with
no variable itself. -/
theorem ofBody_append {type word behind : Text} (cutOff : TypeExpr.IsToken type)
    (plain : isVariable type = false) (visible : Visible word) (signed : isVariable word)
    (apart : StartsBlank behind) :
    Declaration.ofBody (type ++ ' ' :: (word ++ behind)) = ⟨type, some word, trim behind⟩ := by
  have spaced := startsBlank_space (word ++ behind)
  have starts := startsVisible_variable visible signed behind
  rw [ofBody_of_not_isVariable ((isVariable_append spaced).trans plain), cutOff _ spaced]
  change Declaration.behindType type (trimStart (word ++ behind)) = _
  rw [trimStart_eq_self_iff.mpr starts, behindType_append visible signed apart]

/-- A word for a variable in front of a description, behind a type or without one. Parts that are
empty take no space either. -/
theorem ofBody_spaced {type word description : Text}
    (typed : type = [] ∨ TypeExpr.IsToken type ∧ isVariable type = false)
    (visible : Visible word) (signed : isVariable word)
    (trimmed : trim description = description) :
    Declaration.ofBody (spaced [type, word, description]) = ⟨type, some word, description⟩ := by
  have something := ne_nil_of_isVariable signed
  have apart := startsBlank_behindSpace description
  have joined : spaced [word, description] = word ++ behindSpace description := by
    rw [spaced_cons something, spaced_singleton]
  by_cases untyped : type = []
  · have begins : isVariable (word ++ behindSpace description) := by
      rwa [isVariable_append apart]
    have starts := startsVisible_variable visible signed (behindSpace description)
    rw [untyped, spaced_nil_cons, joined, ofBody_of_isVariable begins,
      trimStart_eq_self_iff.mpr starts, behindType_append visible signed apart,
      trim_behindSpace trimmed]
  · obtain ⟨cutOff, plain⟩ := typed.resolve_left untyped
    have nonempty : word ++ behindSpace description ≠ [] :=
      List.append_ne_nil_of_left_ne_nil something _
    rw [spaced_cons untyped, joined, behindSpace, if_neg nonempty,
      ofBody_append cutOff plain visible signed apart, trim_behindSpace trimmed]

/-- The parts of a declaration joined again, with a word in the place of its variable. For a
declaration without one the word is empty. -/
def Declaration.rejoined (declaration : Declaration) (word : Text) : Text :=
  spaced [declaration.type, word, declaration.description]

/-- The parts joined again around a visible word are trimmed, since each of them is. -/
theorem trim_rejoined {body word : Text} (trimmed : trim body = body) (visible : Visible word) :
    trim ((Declaration.ofBody body).rejoined word) = (Declaration.ofBody body).rejoined word := by
  obtain ⟨typed, described, -⟩ := ofBody_exact trimmed
  refine trim_spaced fun piece member => ?_
  simp only [List.mem_cons, List.not_mem_nil, or_false] at member
  rcases member with rfl | rfl | rfl
  · exact typed
  · exact visible.trim_eq
  · exact described

/-- A declaration with a variable reads back from its parts, also when another word for a
variable takes the place of its own. -/
theorem ofBody_rejoined {body token word : Text} (trimmed : trim body = body)
    (found : (Declaration.ofBody body).token = some token) (visible : Visible word)
    (signed : isVariable word) :
    Declaration.ofBody ((Declaration.ofBody body).rejoined word) =
      { Declaration.ofBody body with token := some word } :=
  ofBody_spaced (type_of_ofBody trimmed found) visible signed (ofBody_exact trimmed).2.1

/-- A body whose declaration has no variable does not begin with one: the word would have been
found in front. -/
theorem isVariable_of_ofBody {body : Text} (trimmed : trim body = body)
    (found : (Declaration.ofBody body).token = none) : isVariable body = false := by
  cases settled : isVariable body with
  | false => rfl
  | true =>
    have starts := trimStart_eq_self_iff.mpr (trim_eq_self_iff.mp trimmed).1
    obtain ⟨word, description, -, -, same⟩ := behindType_of_isVariable [] settled
    rw [ofBody_of_isVariable settled, starts, same] at found
    contradiction

/-- The type in front of the trimmed rest begins with a variable only if the body does. Spacing
the two out anew does not bring a sign to the front. -/
theorem isVariable_spaced_splitToken {body : Text} (trimmed : trim body = body) :
    isVariable (spaced [(TypeExpr.splitToken body).1, trim (TypeExpr.splitToken body).2]) =
      isVariable body := by
  obtain ⟨whole, apart, -, -⟩ := TypeExpr.splitToken_exact trimmed
  by_cases empty : (TypeExpr.splitToken body).1 = []
  · obtain rfl := TypeExpr.eq_nil_of_splitToken (trim_eq_self_iff.mp trimmed).1 empty
    rfl
  · rw [spaced_cons empty, spaced_singleton, isVariable_append (startsBlank_behindSpace _)]
    conv_rhs => rw [← whole, isVariable_append apart]

/-- Without a variable a body that is not empty has a type, which is at least its first word. -/
theorem type_ne_nil_of_ofBody {body : Text} (trimmed : trim body = body) (something : body ≠ [])
    (found : (Declaration.ofBody body).token = none) : (Declaration.ofBody body).type ≠ [] := by
  rw [ofBody_of_not_isVariable (isVariable_of_ofBody trimmed found), (behindType_exact _ _).1]
  intro empty
  exact something (TypeExpr.eq_nil_of_splitToken (trim_eq_self_iff.mp trimmed).1 empty)

/-- A declaration without a variable reads back from its type and its description, with one space
between them whatever stood there before. -/
theorem ofBody_rejoined_nil {body : Text} (trimmed : trim body = body)
    (found : (Declaration.ofBody body).token = none) :
    Declaration.ofBody ((Declaration.ofBody body).rejoined []) = Declaration.ofBody body := by
  have plain := isVariable_of_ofBody trimmed found
  have read := ofBody_of_not_isVariable plain
  rw [TypeExpr.trimStart_splitToken trimmed] at read
  have parts : Declaration.ofBody body =
      ⟨(TypeExpr.splitToken body).1, none, trim (TypeExpr.splitToken body).2⟩ := by
    cases settled : isVariable (trim (TypeExpr.splitToken body).2) with
    | true =>
      obtain ⟨word, description, -, -, same⟩ := behindType_of_isVariable _ settled
      rw [read, same] at found
      contradiction
    | false => rw [read, behindType_of_not_isVariable _ settled, trim_trim]
  have starts := (trim_eq_self_iff.mp (trim_trim (TypeExpr.splitToken body).2)).1
  rw [Declaration.rejoined, spaced_cons_nil_cons, parts]
  dsimp only
  rw [ofBody_of_not_isVariable ((isVariable_spaced_splitToken trimmed).trans plain),
    TypeExpr.splitToken_spaced trimmed, trimStart_behindSpace starts, ← read, parts]

end DocComment.Tag
