import DocComment.Proofs.Tag.Declaration
import DocComment.Proofs.Text.Slices
import DocComment.Tag.InPlace.Declaration

/-!
# Declarations are read in place as they are taken apart

Each law says that the part sliced out is the part taken: reading in place halts only where a
reader is `insideCharacter`, as long as no count can leave its range, for which a bound on the
length of the text is enough. A reader in steps is followed step by step, and a scan by what it
has come to, its place and its depth.
-/
namespace DocComment.Tag

open Text Brackets

namespace InPlace

/-- Every error but that of a place inside a character stops a reader as a fault, with the
message that it has. -/
theorem Stop.ofError_eq {error : TagError} (fault : error ≠ .insideCharacter) :
    Stop.ofError error = .fault error := by
  cases error with
  | insideCharacter => contradiction
  | _ => rfl

/-- A result that is there stays as it is. Only errors are seen differently in place. -/
@[simp]
theorem stopped_ok {α : Type} (value : α) : stopped (.ok value) = .ok value := rfl

/-- A step that has a result is followed by the next step with that result. -/
@[simp]
theorem ok_bind {α β : Type} (value : α) (next : α → Except Stop β) :
    (Except.ok value >>= next) = next value := rfl

/-- A reader in steps is followed step by step: where the first step has a result, it is enough
that the next ones agree on it. An error of the first step ends both. -/
theorem stopped_bind {α β : Type} {first : Except TagError α} {next : α → Except TagError β}
    {following : α → Except Stop β}
    (followed : ∀ value, first = .ok value → following value = stopped (next value)) :
    (stopped first >>= following) = stopped (first >>= next) := by
  cases first with
  | error fault => rfl
  | ok value => exact followed value rfl

/-- Reading one after another is followed likewise. The induction is on the texts; an error at
one of them leaves the rest unread on both sides. -/
theorem stopped_mapM {α β : Type} {reader : α → Except TagError β} {following : α → Except Stop β}
    (followed : ∀ text, following text = stopped (reader text)) (texts : List α) :
    texts.mapM following = stopped (texts.mapM reader) := by
  induction texts with
  | nil => rfl
  | cons text others inductionHypothesis =>
    rw [List.mapM_cons, List.mapM_cons, followed, inductionHypothesis]
    exact stopped_bind fun value _ => stopped_bind fun values _ => rfl

/-- A part that has its place is what the reader goes on with. -/
@[simp]
theorem orHalt_some (part : Text) : orHalt (some part) = .ok part := rfl

/-- A count within 32 bits is kept. The bound is symmetric, which leaves out the one count below
all others. -/
theorem counted_eq {count : Int} (small : count.natAbs < 2147483648) :
    counted count = .ok count :=
  if_pos (by omega)

/-- A character changes the depth by one at most. So the depth cannot grow faster than the text
does, and the length of the text bounds all counts. -/
theorem natAbs_add_step_le (depth : Int) (c : Char) :
    (depth + step c).natAbs ≤ depth.natAbs + 1 := by
  have bounds : -1 ≤ step c ∧ step c ≤ 1 := by
    rw [step]
    split
    · decide
    · split <;> decide
  omega

/-! The type at the start -/

/-- The scan ends behind the type, at the place where it began and the octets of the type
further. The depth at the start and the length of the text together keep the counts within their
range. -/
theorem tokenEnd_eq (depth : Int) (passed : TypeExpr.Passed) (place : Nat) {text : Text}
    (short : depth.natAbs + text.length < 2147483648) :
    tokenEnd depth passed place text =
      .ok (place + octets (TypeExpr.scanToken depth passed text).1) := by
  induction text generalizing depth passed place with
  | nil => rfl
  | cons c rest inductionHypothesis =>
    rw [List.length_cons] at short
    have moved (type : Text) :
        place + octets (c :: type) = place + c.utf8Size + octets type := by
      rw [octets, Nat.add_assoc]
    rw [tokenEnd, TypeExpr.scanToken]
    split
    · split
      · rw [inductionHypothesis _ _ _ (by omega), ← moved]
      · split
        · rfl
        · rw [inductionHypothesis _ _ _ (by omega), ← moved]
    · have change := natAbs_add_step_le depth c
      rw [counted_eq (by omega)]
      dsimp only
      rw [moved]
      exact inductionHypothesis _ _ _ (by omega)

/-- In place a text is cut behind its type as it is without places, and both slices are there:
the cut is made between two characters. -/
theorem splitToken_eq {text : Text} (short : text.length < 2147483648) :
    splitToken text = .ok (TypeExpr.splitToken text) := by
  have whole := TypeExpr.append_splitToken text
  have stop : tokenEnd 0 .other 0 text = .ok (0 + octets (TypeExpr.splitToken text).1) :=
    tokenEnd_eq 0 .other 0 (by simpa using short)
  rw [Nat.zero_add] at stop
  rw [splitToken, stop]
  simp only [ok_bind, sliceTo_octets whole, sliceFrom_octets whole, orHalt_some]
  rfl

/-! Declarations -/

/-- What follows the type is taken apart in place without a halt, whatever its length, since
nothing is counted here. -/
theorem behindType_eq (type rest : Text) :
    behindType type rest = .ok (.behindType type rest) := by
  have whole : (rest.takeWhile fun c => !isBlank c) ++ (rest.dropWhile fun c => !isBlank c) =
      rest := List.takeWhile_append_dropWhile
  rw [behindType, Declaration.behindType, List.span_eq_takeWhile_dropWhile,
    sliceFrom_octets whole]
  dsimp only
  split <;> rfl

/-- A declaration is cut into the same three parts in place. -/
theorem declaration_eq {body : Text} (short : body.length < 2147483648) :
    declaration body = .ok (.ofBody body) := by
  rw [declaration]
  split
  · rename_i signed
    rw [behindType_eq, ofBody_of_isVariable signed]
  · rename_i typed
    rw [splitToken_eq short, ofBody_of_not_isVariable (Bool.eq_false_iff.mpr typed)]
    exact behindType_eq _ _

/-! Tags that begin with a type -/

variable {body : Text}

/-- A parameter is read in place as it is read otherwise: the same tag, or the same fault. -/
theorem readParam_eq (short : body.length < 2147483648) :
    readParam body = stopped (Tag.readParam body) := by
  rw [readParam, declaration_eq short, ok_bind, Tag.readParam]

/-- A variable is read in place as it is read otherwise, with a name or without one. -/
theorem readVar_eq (short : body.length < 2147483648) :
    readVar body = stopped (Tag.readVar body) := by
  rw [readVar]
  split
  · rename_i empty
    rw [Tag.readVar, if_pos empty]
  · rename_i something
    rw [declaration_eq short, ok_bind, Tag.readVar, if_neg something]

/-- A property is read in place as it is read otherwise, however it may be accessed. -/
theorem readProperty_eq (access : Access) (short : body.length < 2147483648) :
    readProperty access body = stopped (Tag.readProperty access body) := by
  rw [readProperty, declaration_eq short, ok_bind, Tag.readProperty]

/-- A return type and its description are read in place as they are read otherwise. -/
theorem readReturn_eq (short : body.length < 2147483648) :
    readReturn body = stopped (Tag.readReturn body) := by
  rw [readReturn, splitToken_eq short, ok_bind, Tag.readReturn]

/-- A mixin is read in place as it is read otherwise. What follows its type is passed over. -/
theorem readMixin_eq (short : body.length < 2147483648) :
    readMixin body = stopped (Tag.readMixin body) := by
  rw [readMixin, splitToken_eq short, ok_bind, Tag.readMixin]

end InPlace

end DocComment.Tag
