import DocComment.Text.Fill
import Mathlib.Data.List.Forall2

/-!
# Filling with the fewest breaks

A line is broken by putting line breaks in the place of some of its spaces. The pieces between
the breaks, joined by spaces, are the line again, and every list of texts that joins to the line
is one choice of spaces. Filling decides word by word and looks at no word to come, yet no other
choice whose pieces fit has fewer of them.

The reason is that filling stays ahead of every other choice. In front of each word it has begun
no more pieces than the other choice has, and when both have begun equally many, the last piece of
filling is not longer. A word that still fits behind the other's piece then fits behind its own.
-/
namespace DocComment.Text

/-- A piece is not longer than the width, or it has no space at which it could be broken. So a
long word fits as well: there is no better place for it. -/
def Fits (width : Nat) (piece : Text) : Prop := piece.length ≤ width ∨ ' ' ∉ piece

/-- The line is broken at some of its spaces into pieces that fit. The pieces are the line again
when spaces join them, which says that nothing but these spaces was taken out. -/
structure BrokenInto (width : Nat) (line : Text) (pieces : List Text) : Prop where
  something : pieces ≠ []
  joined : [' '].intercalate pieces = line
  fit : ∀ piece ∈ pieces, Fits width piece

/-- A text that is cut at a character has that character in no piece. The words that filling sets
have no space for this reason. -/
theorem notMem_of_mem_splitOn {c : Char} {text piece : Text} (member : piece ∈ text.splitOn c) :
    c ∉ piece := by
  induction text generalizing piece with
  | nil => simp_all
  | cons d rest inductionHypothesis =>
    rw [List.splitOn_cons_eq_if_modifyHead] at member
    split at member
    · rcases List.mem_cons.mp member with rfl | later
      · exact List.not_mem_nil
      · exact inductionHypothesis later
    · rename_i other
      obtain ⟨first, others, same⟩ := List.exists_cons_of_ne_nil (List.splitOn_ne_nil c rest)
      rw [same, List.modifyHead_cons] at member
      rcases List.mem_cons.mp member with rfl | later
      · have inside : c ∉ first := inductionHypothesis (by rw [same]; exact List.mem_cons_self)
        have apart : c ≠ d := fun equal => other (by simp [equal])
        simp [apart, inside]
      · exact inductionHypothesis (by rw [same]; exact List.mem_cons_of_mem first later)

/-! The pieces of filling -/

/-- The pieces into which filling breaks a line: one that has begun, and those of the words
behind it. It makes the same choices as the writer of the filled line does, and keeps the pieces
apart. -/
def piecesFrom (width : Nat) (begun : Text) : List Text → List Text
  | [] => [begun]
  | word :: rest =>
    if begun.length + 1 + word.length ≤ width then piecesFrom width (begun ++ ' ' :: word) rest
    else begun :: piecesFrom width word rest

/-- There is always a piece, the one that has begun. -/
theorem piecesFrom_ne_nil (width : Nat) (begun : Text) (rest : List Text) :
    piecesFrom width begun rest ≠ [] := by
  induction rest generalizing begun with
  | nil => exact List.cons_ne_nil begun []
  | cons word rest inductionHypothesis =>
    rw [piecesFrom]
    split
    · exact inductionHypothesis _
    · exact List.cons_ne_nil _ _

/-- A word behind a space makes a piece longer by both, which is what the writer adds to its
column. -/
theorem length_append_word (begun word : Text) :
    (begun ++ ' ' :: word).length = begun.length + 1 + word.length := by
  rw [List.length_append, List.length_cons]
  omega

/-- Filling writes its pieces with line breaks between them. The column that the writer keeps is
the length of the piece that has begun. -/
theorem append_fillFrom (width : Nat) (begun : Text) (rest : List Text) :
    begun ++ fillFrom width begun.length rest =
      ['\n'].intercalate (piecesFrom width begun rest) := by
  induction rest generalizing begun with
  | nil => simp [fillFrom, piecesFrom]
  | cons word rest inductionHypothesis =>
    rw [fillFrom, piecesFrom]
    split
    · rw [← inductionHypothesis, length_append_word, List.append_assoc, List.cons_append]
    · rw [List.intercalate_cons_of_ne_nil (piecesFrom_ne_nil width word rest),
        ← inductionHypothesis, List.append_assoc, List.singleton_append]

/-- Joined by spaces, the pieces of filling are the line that was broken, so no character is lost
at a break but the space that stood there. -/
theorem intercalate_piecesFrom (width : Nat) (begun : Text) (rest : List Text) :
    [' '].intercalate (piecesFrom width begun rest) = [' '].intercalate (begun :: rest) := by
  induction rest generalizing begun with
  | nil => rfl
  | cons word rest inductionHypothesis =>
    rw [piecesFrom, List.intercalate_cons_cons]
    split
    · rw [inductionHypothesis]
      cases rest with
      | nil => simp
      | cons next others => simp [List.intercalate_cons_cons]
    · rw [List.intercalate_cons_of_ne_nil (piecesFrom_ne_nil width word rest),
        inductionHypothesis]

/-- Filling goes beyond the width only with a word that stands alone. The piece that has begun
fits by assumption, since a first word is set whatever its length. -/
theorem fits_piecesFrom {width : Nat} {begun : Text} {rest : List Text}
    (fits : Fits width begun) (unspaced : ∀ word ∈ rest, ' ' ∉ word) :
    ∀ piece ∈ piecesFrom width begun rest, Fits width piece := by
  induction rest generalizing begun with
  | nil => simpa [piecesFrom] using fits
  | cons word rest inductionHypothesis =>
    obtain ⟨first, others⟩ := List.forall_mem_cons.mp unspaced
    rw [piecesFrom]
    split
    · rename_i short
      rw [← length_append_word] at short
      exact inductionHypothesis (.inl short) others
    · exact List.forall_mem_cons.mpr ⟨fits, inductionHypothesis (.inr first) others⟩

/-! Other choices -/

/-- Any choice of breaks, word by word: behind a piece that has begun, the next word joins it
behind a space or begins a piece of its own. Nothing is said of a width here; it is the relation
that filling is compared within. -/
inductive Divided : Text → List Text → List Text → Prop
  | ended {begun : Text} : Divided begun [] [begun]
  | joined {begun word : Text} {rest pieces : List Text}
      (behind : Divided (begun ++ ' ' :: word) rest pieces) : Divided begun (word :: rest) pieces
  | broken {begun word : Text} {rest pieces : List Text}
      (behind : Divided word rest pieces) : Divided begun (word :: rest) (begun :: pieces)

/-- The first piece goes on from what has begun: it can only become longer. -/
theorem Divided.exists_first {begun : Text} {rest pieces : List Text}
    (divided : Divided begun rest pieces) : ∃ tail others, pieces = (begun ++ tail) :: others := by
  induction divided with
  | @ended begun => exact ⟨[], [], by rw [List.append_nil]⟩
  | joined _ inductionHypothesis =>
    obtain ⟨tail, others, rfl⟩ := inductionHypothesis
    exact ⟨_, others, by rw [List.append_assoc]⟩
  | @broken begun word rest pieces _ _ => exact ⟨[], pieces, by rw [List.append_nil]⟩

/-- Several words may join a piece one after the other, which gives a piece of a choice in one
step. -/
theorem Divided.join {begun : Text} {group rest pieces : List Text}
    (divided : Divided ([' '].intercalate (begun :: group)) rest pieces) :
    Divided begun (group ++ rest) pieces := by
  induction group generalizing begun with
  | nil => simpa using divided
  | cons word group inductionHypothesis =>
    refine .joined (inductionHypothesis ?_)
    have same : [' '].intercalate ((begun ++ ' ' :: word) :: group) =
        [' '].intercalate (begun :: word :: group) := by
      cases group <;> simp [List.intercalate_cons_cons]
    rwa [same]

/-- Every list of pieces that joins to a line is such a choice, whatever spaces the pieces have
inside. This is how an arbitrary division of the line is followed word by word. -/
theorem divided_intercalate {pieces : List Text} (something : pieces ≠ []) :
    ∃ word rest, ([' '].intercalate pieces).splitOn ' ' = word :: rest ∧
      Divided word rest pieces := by
  induction pieces with
  | nil => contradiction
  | cons piece others inductionHypothesis =>
    obtain ⟨word, group, cut⟩ := List.exists_cons_of_ne_nil (List.splitOn_ne_nil ' ' piece)
    have whole : [' '].intercalate (word :: group) = piece := by
      rw [← cut, List.intercalate_splitOn]
    cases others with
    | nil =>
      refine ⟨word, group ++ [], ?_, .join (whole.symm ▸ .ended)⟩
      rw [List.intercalate_singleton, cut, List.append_nil]
    | cons next more =>
      obtain ⟨nextWord, rest, cutBehind, behind⟩ := inductionHypothesis (List.cons_ne_nil _ _)
      refine ⟨word, group ++ nextWord :: rest, ?_, .join (whole.symm ▸ .broken behind)⟩
      rw [List.intercalate_cons_cons, List.append_assoc, List.singleton_append,
        List.splitOn_append_cons_self, cut, cutBehind, List.cons_append]

/-- Filling stays ahead: from a piece that is not longer it needs no more pieces than any other
choice does, and from a longer one at most one more. The induction is on the other choice, with
the piece of filling left free, since the two may stand at different columns. -/
theorem Divided.length_piecesFrom_le {width : Nat} {begun : Text} {rest pieces : List Text}
    (divided : Divided begun rest pieces) (fit : ∀ piece ∈ pieces, Fits width piece)
    (current : Text) :
    (piecesFrom width current rest).length ≤
      pieces.length + if current.length ≤ begun.length then 0 else 1 := by
  induction divided generalizing current with
  | ended => simp [piecesFrom]
  | @joined begun word rest pieces behind inductionHypothesis =>
    -- the other choice has room for the word, so that filling has it unless it is behind by length
    have room : begun.length + 1 + word.length ≤ width := by
      obtain ⟨tail, others, rfl⟩ := behind.exists_first
      have first : Fits width (begun ++ ' ' :: word ++ tail) := fit _ List.mem_cons_self
      have short := first.resolve_right fun unspaced => unspaced (by simp)
      rw [List.length_append, length_append_word] at short
      omega
    rw [piecesFrom]
    split
    · have ahead := inductionHypothesis fit (current ++ ' ' :: word)
      rw [length_append_word, length_append_word] at ahead
      split at ahead <;> split <;> omega
    · have ahead := inductionHypothesis fit word
      rw [length_append_word, if_pos (by omega)] at ahead
      rw [if_neg (by omega), List.length_cons]
      omega
  | @broken begun word rest pieces behind inductionHypothesis =>
    have fitBehind := (List.forall_mem_cons.mp fit).2
    rw [piecesFrom, List.length_cons]
    split
    · have ahead := inductionHypothesis fitBehind (current ++ ' ' :: word)
      split at ahead <;> omega
    · have ahead := inductionHypothesis fitBehind word
      rw [if_pos (Nat.le_refl _)] at ahead
      rw [List.length_cons]
      omega

/-- A line is broken into pieces that fit, and no other choice of spaces whose pieces fit has
fewer of them. All choices are compared, not only those that fill the lines one after another. -/
def BrokenFewest (width : Nat) (line : Text) (pieces : List Text) : Prop :=
  BrokenInto width line pieces ∧
    ∀ others, BrokenInto width line others → pieces.length ≤ others.length

/-- Filling breaks a line into the fewest pieces, at every width. What it writes are these pieces
with line breaks between them. -/
theorem filledLine_fewest (width : Nat) (line : Text) :
    ∃ pieces, BrokenFewest width line pieces ∧
      filledLine width line = ['\n'].intercalate pieces := by
  obtain ⟨word, rest, cut⟩ := List.exists_cons_of_ne_nil (List.splitOn_ne_nil ' ' line)
  have unspaced : ∀ each ∈ word :: rest, ' ' ∉ each := fun each member =>
    notMem_of_mem_splitOn (cut ▸ member)
  obtain ⟨first, others⟩ := List.forall_mem_cons.mp unspaced
  refine ⟨piecesFrom width word rest, ⟨⟨piecesFrom_ne_nil width word rest, ?_,
    fits_piecesFrom (.inr first) others⟩, ?_⟩, ?_⟩
  · rw [intercalate_piecesFrom, ← cut, List.intercalate_splitOn]
  · rintro pieces ⟨something, joined, fit⟩
    obtain ⟨otherWord, otherRest, otherCut, divided⟩ := divided_intercalate something
    rw [joined, cut] at otherCut
    obtain ⟨rfl, rfl⟩ := List.cons.inj otherCut
    have ahead := divided.length_piecesFrom_le fit word
    rwa [if_pos (Nat.le_refl _)] at ahead
  · rw [filledLine, cut]
    exact append_fillFrom width word rest

/-- A text is filled line by line, where a carriage return at the end of a line is dropped. In
each line some of the spaces are replaced by line breaks, such that every piece between these is
within the width or has no space, and no other choice of spaces with that property gives fewer
pieces. -/
theorem filled_fewest (text : Text) (width : Nat) :
    ∃ breaks, List.Forall₂ (BrokenFewest width) ((text.splitOn '\n').map dropReturn) breaks ∧
      filled text width = ['\n'].intercalate (breaks.map ['\n'].intercalate) := by
  have eachLine (lines : List Text) :
      ∃ breaks, List.Forall₂ (BrokenFewest width) lines breaks ∧
        lines.map (filledLine width) = breaks.map ['\n'].intercalate := by
    induction lines with
    | nil => exact ⟨[], .nil, rfl⟩
    | cons line lines inductionHypothesis =>
      obtain ⟨pieces, fewest, first⟩ := filledLine_fewest width line
      obtain ⟨breaks, others, behind⟩ := inductionHypothesis
      exact ⟨pieces :: breaks, .cons fewest others, by
        rw [List.map_cons, List.map_cons, first, behind]⟩
  obtain ⟨breaks, fewest, same⟩ := eachLine ((text.splitOn '\n').map dropReturn)
  refine ⟨breaks, fewest, ?_⟩
  rw [← same, filled, List.map_map]
  rfl

end DocComment.Text
