import DocComment.Proofs.Tag.ReadArguments
import DocComment.Proofs.Tag.Signature

/-!
# Signatures that were read

What the scans of a signature take from a text tells what they passed over: the text in front
of a parameter list has balanced brackets and a last word that opens the list, and no earlier
parenthesis at depth zero stands behind such a word. Where no list was found, that holds of
every parenthesis in the text. All of this is settled by the words in front of a parenthesis,
so that it outlives any change of the blanks between them.
-/
namespace DocComment.Tag

open Text Brackets

/-! Last words -/

/-- A last word that was found by octets is the last word. The other direction needs narrow
blanks. -/
theorem lastWord_of_lastWordByOctet {text before word : Text}
    (found : lastWordByOctet text = some (before, word)) : lastWord text = (before, word) := by
  rw [lastWordByOctet] at found
  dsimp only at found
  split at found
  · exact Option.some.inj found
  · split at found
    · exact Option.some.inj found
    · contradiction

/-- The last word of a text stands at its end, behind a blank or alone. A text that ends with a
blank has an empty last word. -/
theorem append_of_lastWord {text before word : Text} (found : lastWord text = (before, word)) :
    text = before ++ word ∧ EndsBlank before := by
  obtain ⟨front, last, rfl, visible, apart⟩ := exists_lastWord text
  obtain ⟨rfl, rfl⟩ := Prod.mk.inj ((lastWord_append visible apart).symm.trans found)
  exact ⟨rfl, apart⟩

/-! The static mark and the announced name -/

/-- A text that does not bear the mark is left as it is: blanks go only where the mark goes. -/
theorem splitStatic_of_unmarked {text : Text} (unmarked : (splitStatic text).1 = false) :
    (splitStatic text).2 = text := by
  rw [splitStatic] at unmarked ⊢
  split
  · split
    · rename_i found blank
      rw [found] at unmarked
      simp only [if_pos blank] at unmarked
      contradiction
    · rfl
  · rfl

/-- What is left behind the static mark ends the text, with the mark and without it. -/
theorem splitStatic_isSuffix (text : Text) : (splitStatic text).2 <:+ text := by
  rw [splitStatic]
  split
  · rename_i behind found
    split
    · rw [← List.append_eq_of_isPrefixOf?_eq_some found]
      exact (List.dropWhile_suffix isBlank).trans (List.suffix_append _ _)
    · exact List.suffix_refl text
  · exact List.suffix_refl text

/-- A text that does not bear the mark has another first word, or is that word. The mark needs a
blank behind it, so the word alone is a name. -/
theorem eq_static_of_splitStatic {text : Text} (starts : StartsVisible text)
    (first : (words text).head? = some "static".toList)
    (unmarked : (splitStatic text).1 = false) : text = "static".toList := by
  obtain ⟨others, found⟩ := List.head?_eq_some_iff.mp first
  obtain ⟨blanks, rest, rfl, blank, apart, -⟩ := exists_of_words_cons found
  cases blanks with
  | cons c blanks =>
    have visible := startsVisible_cons.mp starts
    rw [blank c List.mem_cons_self] at visible
    contradiction
  | nil =>
    cases rest with
    | nil => rfl
    | cons c rest =>
      have marked : (splitStatic ("static".toList ++ c :: rest)).1 = true := by
        have cut : splitStatic ("static".toList ++ c :: rest) =
            if isBlank c then (true, trimStart (c :: rest))
            else (false, "static".toList ++ c :: rest) := rfl
        rw [cut, if_pos (apart c rfl)]
      rw [List.nil_append, marked] at unmarked
      exact absurd unmarked.symm Bool.false_ne_true

/-- A text is kept, or the name in front of an empty parameter list is taken out of it with that
list. The name stands behind a blank or at the start, and the blanks behind the list go with
it. -/
theorem skipName_exact {passed text kept : Text} (done : skipName passed text = .ok kept) :
    kept = passed.reverse ++ text ∨
      ∃ before name behind, passed.reverse ++ text = before ++ (name ++ '(' :: ')' :: behind) ∧
        EndsBlank before ∧ kept = before ++ trimStart behind ∧ isSkippedName name behind := by
  fun_induction skipName passed text with
  | case1 => contradiction
  | case2 passed behind before name last skipped =>
    obtain rfl := Except.ok.inj done
    obtain ⟨split, apart⟩ := append_of_lastWord (lastWord_of_lastWordByOctet last)
    exact .inr ⟨before, name, behind, by rw [split, List.append_assoc], apart, rfl, skipped⟩
  | case3 passed behind before name last kept inductionHypothesis =>
    simpa using inductionHypothesis done
  | case4 passed c rest other inductionHypothesis => simpa using inductionHypothesis done
  | case5 passed => exact .inl (by simpa using (Except.ok.inj done).symm)

/-- Skipping a name adds nothing to the text, and what it leaves stays in order. -/
theorem sublist_of_skipName {text kept : Text} (done : skipName [] text = .ok kept) :
    kept.Sublist text := by
  obtain rfl | ⟨before, name, behind, whole, -, rfl, -⟩ := skipName_exact done
  · exact List.Sublist.refl _
  · rw [List.reverse_nil, List.nil_append] at whole
    have within : behind <:+ name ++ '(' :: ')' :: behind :=
      (List.suffix_append ['(', ')'] behind).trans (List.suffix_append name _)
    rw [whole]
    exact ((List.dropWhile_suffix isBlank).trans within).sublist.append_left before

/-- The first word of a text stays when a name is taken out of it, unless the next word comes in
its place, which has a parenthesis inside. -/
theorem head?_words_of_skipName {text kept word : Text} (starts : StartsVisible text)
    (done : skipName [] text = .ok kept) (first : (words kept).head? = some word)
    (plain : '(' ∉ word) : (words text).head? = some word := by
  obtain rfl | ⟨before, name, behind, rfl, apart, rfl, skipped⟩ := skipName_exact done
  · exact first
  · rw [words_append_of_endsBlank apart] at first ⊢
    by_cases nothing : before = []
    · subst nothing
      simp only [isSkippedName, Bool.and_eq_true, List.contains_iff_mem] at skipped
      have inside := skipped.1.2
      have something : trimStart behind ≠ [] := by
        intro empty
        simp [empty] at inside
      have visible := trimStart_eq_self_iff.mp (trimStart_trimStart behind)
      rw [words_nil, List.nil_append, head?_words visible something] at first
      exact absurd (Option.some.inj first ▸ inside) plain
    · have front := head?_words (startsVisible_of_append starts) nothing
      rw [List.head?_append, front, Option.some_or] at first ⊢
      exact first

/-! The parameter list -/

/-- A text opens no parameter list, or it is cut at the parenthesis that opens it: the brackets
in front of it are balanced, the last word there opens it and no other does. -/
def Found (outer : Int) (passed text : Text) : Option (Text × Text) → Prop
  | none => Unopened outer passed.reverse text
  | some (head, behind) => ∃ inside, head = passed.reverse ++ inside ∧
      text = inside ++ '(' :: behind ∧ Unopened outer passed.reverse inside ∧
      outer + depth inside = 0 ∧ OpensParameters (wordBefore head)

/-- One step of the scan keeps what it finds behind: the character goes from the text to what has
been passed, and the depth changes with it. The character must not open the list itself. -/
theorem Found.cons {outer : Int} {passed rest : Text} {c : Char} {result : Option (Text × Text)}
    (here : c = '(' → outer = 0 → ¬ OpensParameters (wordBefore passed.reverse))
    (found : Found (outer + step c) (c :: passed) rest result) :
    Found outer passed (c :: rest) result := by
  cases result with
  | none => exact unopened_cons.mpr ⟨here, found⟩
  | some cut =>
    obtain ⟨inside, head, rfl, unopened, balanced, opens⟩ := found
    refine ⟨c :: inside, by rw [head]; simp, rfl, unopened_cons.mpr ⟨here, unopened⟩, ?_, opens⟩
    rw [depth_cons, ← Int.add_assoc]
    exact balanced

/-- The scan for the parameter list finds it or finds that there is none. The induction is on the
text, with one step for each character. -/
theorem found_of_openParameters {outer : Int} {passed text : Text} {result : Option (Text × Text)}
    (done : openParameters outer passed text = .ok result) : Found outer passed text result := by
  fun_induction openParameters outer passed text with
  | case1 outer passed =>
    obtain rfl := Except.ok.inj done
    exact unopened_nil outer passed.reverse
  | case2 => contradiction
  | case3 outer passed c rest parenthesis before word last name opens =>
    obtain rfl := Except.ok.inj done
    obtain ⟨rfl, rfl⟩ := parenthesis
    refine ⟨[], (List.append_nil _).symm, rfl, unopened_nil 0 passed.reverse, rfl, ?_⟩
    rw [OpensParameters, wordBefore, lastWord_of_lastWordByOctet last]
    exact ⟨opens.1, by simpa using opens.2⟩
  | case4 outer passed c rest parenthesis before word last name type inductionHypothesis =>
    refine (inductionHypothesis done).cons fun _ _ => ?_
    rw [OpensParameters, wordBefore, lastWord_of_lastWordByOctet last, ← Bool.not_eq_true]
    exact type
  | case5 outer passed c rest other inductionHypothesis =>
    exact (inductionHypothesis done).cons fun parenthesis outside =>
      absurd ⟨parenthesis, outside⟩ other

/-! The cut of a signature -/

/-- What is known of a signature that was cut from a text: its head begins the text and opens no
parameter list inside, and a list that was found stands behind it. -/
structure Signature.CutFrom (signature : Signature) (text : Text) : Prop where
  /-- The head begins the text, and no parenthesis within it opens a parameter list. -/
  front : signature.head <+: text
  unopened : Unopened 0 [] signature.head
  /-- A parameter list stands behind a balanced head that opens it, and closes what it opens. -/
  opened : ∀ parameters ∈ signature.parameters, depth signature.head = 0 ∧
    OpensParameters (wordBefore signature.head) ∧ Closes 0 parameters
  withoutParameters : signature.parameters = none →
    Signature.withoutParameters text = .ok signature

/-- A text that opens no parameter list is cut behind its first words, and a part of its start
opens none either. -/
theorem Signature.cutFrom_withoutParameters {text : Text} {signature : Signature}
    (unopened : Unopened 0 [] text)
    (done : Signature.withoutParameters text = .ok signature) : signature.CutFrom text := by
  have whole := done
  rw [Signature.withoutParameters, List.span_eq_takeWhile_dropWhile] at done
  dsimp only at done
  split at done
  · obtain rfl := Except.ok.inj done
    obtain ⟨behind, split⟩ := List.takeWhile_prefix (fun c => !isBlank c) (l := text)
    exact ⟨⟨behind, split⟩, Unopened.front (by rwa [split]), by simp, fun _ => whole⟩
  · split at done
    · rename_i head description cut
      obtain rfl := Except.ok.inj done
      have split := append_of_cutAt cut
      exact ⟨⟨description, split⟩, Unopened.front (by rwa [split]), by simp, fun _ => whole⟩
    · contradiction

/-- Without a parameter list the head is the first two words, where a single narrow blank sets
them apart. What follows the second word is the description. -/
theorem Signature.withoutParameters_two {first second behind : Text} {c : Char}
    (visible : Visible first) (blank : isBlank c) (narrow : c.utf8Size = 1)
    (visibleSecond : Visible second) (something : second ≠ []) (apart : StartsBlank behind) :
    Signature.withoutParameters (first ++ c :: (second ++ behind)) =
      .ok ⟨first ++ c :: second, none, trim behind⟩ := by
  have startsBlank : StartsBlank (c :: (second ++ behind)) := by simpa [StartsBlank] using blank
  have cut := span_visible visible startsBlank
  have next := span_visible visibleSecond apart
  rw [List.span_eq_takeWhile_dropWhile] at next
  have taken := (Prod.mk.inj next).1
  have counted : octets first + 1 + octets second = octets (first ++ c :: second) := by
    rw [octets_append, octets, narrow, Nat.add_assoc]
  have joined : first ++ c :: (second ++ behind) = (first ++ c :: second) ++ behind := by simp
  rw [Signature.withoutParameters, cut]
  dsimp only
  rw [List.drop_one, List.tail_cons, taken, if_neg something, counted, joined, cutAt_octets]

/-- A signature is cut from the text, whether a parameter list was found or not. -/
theorem Signature.cutFrom_ofText {body text : Text} {signature : Signature}
    (done : Signature.ofText body text = .ok signature) : signature.CutFrom text := by
  rw [Signature.ofText] at done
  obtain ⟨result, scanned, done⟩ := exists_of_bind_eq_ok done
  have found := found_of_openParameters scanned
  cases result with
  | none => exact cutFrom_withoutParameters found done
  | some cut =>
    obtain ⟨head, behind⟩ := cut
    obtain ⟨inside, rfl, rfl, unopened, balanced, opens⟩ := found
    dsimp only at done
    split at done
    · rename_i parameters description closed
      obtain rfl := Except.ok.inj done
      refine ⟨⟨'(' :: behind, rfl⟩, unopened, fun given member => ?_, nofun⟩
      obtain rfl := Option.some.inj member
      exact ⟨by simpa using balanced, opens, closes_of_splitClosing closed⟩
    · contradiction

/-- A signature that is cut by its words has no parameter list, not even an empty one. -/
theorem Signature.parameters_withoutParameters {text : Text} {signature : Signature}
    (done : Signature.withoutParameters text = .ok signature) : signature.parameters = none := by
  rw [Signature.withoutParameters] at done
  dsimp only at done
  split at done
  · obtain rfl := Except.ok.inj done
    rfl
  · split at done
    · obtain rfl := Except.ok.inj done
      rfl
    · contradiction

/-- A parameter list is a part of the text, so it is no longer. -/
theorem Signature.length_parameters_le {body text : Text} {signature : Signature}
    (done : Signature.ofText body text = .ok signature) :
    ∀ parameters ∈ signature.parameters, parameters.length ≤ text.length := by
  rw [Signature.ofText] at done
  obtain ⟨result, scanned, done⟩ := exists_of_bind_eq_ok done
  have found := found_of_openParameters scanned
  cases result with
  | none =>
    rw [parameters_withoutParameters done]
    simp
  | some cut =>
    obtain ⟨head, behind⟩ := cut
    obtain ⟨inside, rfl, rfl, -, -, -⟩ := found
    dsimp only at done
    split at done
    · rename_i parameters description closed
      obtain rfl := Except.ok.inj done
      rintro _ ⟨⟩
      rw [← append_of_splitClosing closed]
      simp only [List.length_append, List.length_cons]
      omega
    · contradiction

/-- Where the parameter list is found to open, a signature is cut there and behind a list that
closes what it opens. The body shows in messages only. -/
theorem Signature.ofText_eq {text head parameters behind : Text} (body : Text)
    (opened : openParameters 0 [] text = .ok (some (head, parameters ++ ')' :: behind)))
    (closes : Closes 0 parameters) :
    Signature.ofText body text = .ok ⟨head, some parameters, trim behind⟩ := by
  have closed := splitClosing_of_closes behind closes
  simp only [Signature.ofText, opened, bind, Except.bind, closed]
  rfl

/-! The heading -/

/-- A heading is a name behind the words of the return type, and no more than that: which body it
stands in shows in a message only. -/
theorem Method.heading_eq_ok_iff {body head name : Text} {returnType : Option TypeExpr} :
    Method.heading body head = .ok (name, returnType) ↔
      ∃ typeWords, words head = typeWords ++ [name] ∧ name.all isMethodNameCharacter ∧
        returnType =
          if typeWords = [] then none else some (.ofText ([' '].intercalate typeWords)) := by
  rw [Method.heading]
  dsimp only
  rcases List.eq_nil_or_concat (words head) with wordless | ⟨typeWords, last, split⟩
  · rw [wordless]
    simp
  · rw [split, List.concat_eq_append, List.getLast?_concat, List.dropLast_concat]
    dsimp only
    constructor
    · intro done
      split at done
      · rename_i word
        obtain ⟨rfl, rfl⟩ := Prod.mk.inj (Except.ok.inj done)
        exact ⟨typeWords, rfl, word, rfl⟩
      · contradiction
    · rintro ⟨others, same, word, rfl⟩
      obtain ⟨rfl, rfl⟩ := List.append_singleton_inj.mp same
      rw [if_pos word]

end DocComment.Tag
