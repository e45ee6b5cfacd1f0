import DocComment.Proofs.Tag.InPlace
import DocComment.Proofs.Tag.ReadSignature
import DocComment.Tag.InPlace.Signature

/-!
# Methods are read in place as they are taken apart

The searches of the two readers find the same: the first `()`, the parentheses of the parameter
list, the commas, the last `$` and the last blank. The loop for announced names is followed by
induction on the length of the text that is left, the other scans by induction on the text,
with what they have passed in front of it. Where the reader in place steps into a wide blank,
the other one is inside a character as well.
-/
namespace DocComment.Tag.InPlace

open Text Brackets

/-! The announced name -/

/-- Where there is no `()`, no name is skipped: the scan goes through the text to its end and
keeps all of it. -/
theorem skipName_of_emptyList? {text : Text} (passed : Text) (missing : emptyList? text = none) :
    Tag.skipName passed text = .ok (passed.reverse ++ text) := by
  fun_induction Tag.skipName passed text with
  | case1 => contradiction
  | case2 => contradiction
  | case3 => contradiction
  | case4 passed c rest other inductionHypothesis =>
    rw [emptyList?, Option.map_eq_none_iff] at missing
    · rw [inductionHypothesis missing]
      simp
    · exact other
  | case5 passed => rw [List.append_nil]

/-- The first `()` is where a name is next decided on. What stands in front of it is passed over,
and the place of the list is the number of its octets. -/
theorem exists_of_emptyList? {text : Text} {place : Nat} (found : emptyList? text = some place) :
    ∃ before behind, text = before ++ '(' :: ')' :: behind ∧ octets before = place ∧
      ∀ passed, Tag.skipName passed text =
        Tag.skipName (before.reverse ++ passed) ('(' :: ')' :: behind) := by
  fun_induction emptyList? text generalizing place with
  | case1 behind =>
    obtain rfl := Option.some.inj found
    exact ⟨[], behind, rfl, rfl, fun _ => rfl⟩
  | case2 c rest other inductionHypothesis =>
    obtain ⟨offset, later, rfl⟩ := Option.map_eq_some_iff.mp found
    obtain ⟨before, behind, rfl, rfl, moved⟩ := inductionHypothesis later
    refine ⟨c :: before, behind, rfl, rfl, fun passed => ?_⟩
    have step : Tag.skipName passed (c :: (before ++ '(' :: ')' :: behind)) =
        Tag.skipName (c :: passed) (before ++ '(' :: ')' :: behind) := by
      rw [Tag.skipName]
      exact other
    rw [step, moved, List.reverse_cons, List.append_assoc]
    rfl
  | case3 => contradiction

/-- The loop ends where no empty list is left, and gives the whole text back. -/
theorem skipName_last {front text : Text} (missing : emptyList? text = none) :
    skipName (front ++ text) (octets front) = .ok (front ++ text) := by
  rw [skipName]
  split
  · rename_i uncut
    rw [sliceFrom_octets rfl] at uncut
    contradiction
  · rename_i rest cut
    rw [sliceFrom_octets rfl] at cut
    obtain rfl := Option.some.inj cut
    split
    · rfl
    · rename_i offset found
      rw [missing] at found
      contradiction

/-- One turn of the loop, at the next empty list. The word in front of the list is sliced off by
its place, and where it is not skipped the loop goes on behind the list. Where a wide blank keeps
the word from being found, there is no such slice. -/
theorem skipName_turn {front before behind : Text}
    (found : emptyList? (before ++ '(' :: ')' :: behind) = some (octets before)) :
    skipName (front ++ (before ++ '(' :: ')' :: behind)) (octets front) =
      (lastWordByOctet (front ++ before)).elim (.error .halted) fun cut =>
        if isSkippedName cut.2 behind then .ok (cut.1 ++ trimStart behind)
        else skipName (front ++ (before ++ '(' :: ')' :: behind))
          (octets (front ++ (before ++ ['(', ')']))) := by
  have whole : front ++ before ++ '(' :: ')' :: behind =
      front ++ (before ++ '(' :: ')' :: behind) := List.append_assoc ..
  have behindList : front ++ (before ++ ['(', ')']) ++ behind =
      front ++ (before ++ '(' :: ')' :: behind) := by simp
  have place : octets front + octets before = octets (front ++ before) :=
    (octets_append ..).symm
  have past : octets (front ++ before) + 2 = octets (front ++ (before ++ ['(', ')'])) := by
    rw [← List.append_assoc, octets_append (front ++ before)]
    rfl
  rw [skipName]
  split
  · rename_i missing
    rw [sliceFrom_octets rfl] at missing
    contradiction
  · rename_i rest cut
    rw [sliceFrom_octets rfl] at cut
    obtain rfl := Option.some.inj cut
    split
    · rename_i missing
      rw [found] at missing
      contradiction
    · rename_i offset here
      obtain rfl := Option.some.inj (found.symm.trans here)
      simp only [place, sliceTo_octets whole, slice_wordStart whole, past,
        sliceFrom_octets behindList, orHalt_some, ok_bind]
      cases last : lastWordByOctet (front ++ before) with
      | none => rfl
      | some cut =>
        simp only [Option.map_some, orHalt_some, ok_bind, sliceTo_wordStart whole last]
        rfl

/-- The loop that begins behind what was passed skips what the scan skips. Each turn of the loop
goes to the next empty list, where the scan goes character by character; the induction is on the
length of what is left. -/
theorem skipName_eq (passed text : Text) :
    skipName (passed.reverse ++ text) (octets passed.reverse) =
      stopped (Tag.skipName passed text) := by
  -- each turn goes on behind a `()`, so less of the text is left for the next
  induction length : text.length using Nat.strongRecOn generalizing passed text with
  | ind _ inductionHypothesis =>
  subst length
  cases found : emptyList? text with
  | none =>
    rw [skipName_last found, skipName_of_emptyList? passed found]
    rfl
  | some place =>
    obtain ⟨before, behind, rfl, rfl, moved⟩ := exists_of_emptyList? found
    have turned : (before.reverse ++ passed).reverse = passed.reverse ++ before := by simp
    have further : (')' :: '(' :: (before.reverse ++ passed)).reverse =
        passed.reverse ++ (before ++ ['(', ')']) := by simp
    have joined : (')' :: '(' :: (before.reverse ++ passed)).reverse ++ behind =
        passed.reverse ++ (before ++ '(' :: ')' :: behind) := by simp
    rw [skipName_turn found, moved, Tag.skipName, turned]
    cases lastWordByOctet (passed.reverse ++ before) with
    -- a wide blank: the slice of the name has no place, the scan is inside a character
    | none => rfl
    | some cut =>
      obtain ⟨start, name⟩ := cut
      simp only [Option.elim_some]
      split
      · rfl
      · rw [← joined, ← further]
        refine inductionHypothesis _ ?_ _ behind rfl
        simp only [List.length_append, List.length_cons]
        omega

/-! The parameter list -/

/-- The scan finds the place behind the head, or halts where the other one cuts inside a
character. The place in the text is the number of octets that were passed. -/
theorem openPlace_eq (depth : Int) (passed : Text) {rest : Text}
    (short : depth.natAbs + rest.length < 2147483648) :
    openPlace (passed.reverse ++ rest) depth (octets passed.reverse) rest =
      stopped (openParameters depth passed rest) >>= fun found =>
        .ok (found.map fun cut => octets cut.1) := by
  induction rest generalizing depth passed with
  | nil => rfl
  | cons c rest inductionHypothesis =>
    rw [List.length_cons] at short
    have change := natAbs_add_step_le depth c
    have moved : passed.reverse ++ c :: rest = (c :: passed).reverse ++ rest := by simp
    have later := inductionHypothesis (depth + step c) (c :: passed) (by omega)
    rw [octets_reverse_cons, ← moved] at later
    rw [openPlace, openParameters, counted_eq (by omega)]
    split
    · simp only [sliceTo_octets rfl, orHalt_some, ok_bind, sliceFrom, cutAt_wordStart, later]
      cases lastWordByOctet (trimEnd passed.reverse) with
      | none => rfl
      | some cut =>
        simp only [Option.map_some, orHalt_some, ok_bind]
        split <;> rfl
    · exact later

/-- The parenthesis that closes is found in place as it is without places. The count of open ones
is never negative and is bounded by the length of the text. -/
theorem closePlace_eq (depth place : Nat) {text : Text}
    (short : depth + text.length < 2147483648) :
    closePlace depth place text =
      .ok ((splitClosing depth text).map fun cut => place + octets cut.1) := by
  induction text generalizing depth place with
  | nil => rfl
  | cons c rest inductionHypothesis =>
    rw [List.length_cons] at short
    have outside : (depth : Int) = 0 ↔ depth = 0 := Int.natCast_eq_zero
    rw [closePlace, splitClosing]
    simp only [outside]
    split
    · rfl
    · rename_i other
      have signed : (if c = '(' then (depth : Int) + 1 else if c = ')' then depth - 1 else depth) =
          (if c = '(' then depth + 1 else if c = ')' then depth - 1 else depth : Nat) := by
        split
        · rfl
        · split
          · rename_i closing
            have positive : depth ≠ 0 := fun outside => other ⟨closing, outside⟩
            omega
          · rfl
      have near : (if c = '(' then depth + 1 else if c = ')' then depth - 1 else depth) ≤
          depth + 1 := by
        split
        · exact Nat.le_refl _
        · split <;> omega
      rw [signed, counted_eq (by omega), ok_bind, inductionHypothesis _ _ (by omega),
        Option.map_map]
      refine congrArg Except.ok (Option.map_congr fun cut _ => ?_)
      simp only [Function.comp_apply, octets, Nat.add_assoc]

/-- A text is cut into the same signature in place. The slices behind the two parentheses are
there, since a parenthesis is a character of one octet. -/
theorem signature_eq {text : Text} (body : Text) (short : text.length < 2147483648) :
    signature body text = stopped (Signature.ofText body text) := by
  have opening : openPlace text 0 0 text = stopped _ >>= _ :=
    openPlace_eq 0 [] (by simpa using short)
  rw [signature, Signature.ofText, opening, bind_assoc]
  refine stopped_bind fun result scanned => ?_
  have found := found_of_openParameters scanned
  rw [ok_bind]
  cases result with
  | none => rfl
  | some cut =>
    obtain ⟨head, behind⟩ := cut
    obtain ⟨inside, rfl, rfl, -, -, -⟩ := found
    rw [List.length_append, List.length_cons] at short
    have past : sliceFrom (octets head + 1) (head ++ '(' :: behind) = some behind :=
      sliceFrom_past rfl rfl
    have closing : closePlace 0 0 behind = .ok _ := closePlace_eq 0 0 (by omega)
    simp only [Option.map_some, sliceTo_octets rfl, past, closing, orHalt_some, ok_bind]
    cases closed : splitClosing 0 behind with
    | none => rfl
    | some cut =>
      obtain ⟨parameters, description⟩ := cut
      have whole := append_of_splitClosing closed
      have pastClosing : sliceFrom (octets parameters + 1) behind = some description :=
        sliceFrom_past whole rfl
      simp only [Option.map_some, Nat.zero_add, sliceTo_octets whole, pastClosing, orHalt_some,
        ok_bind]
      rfl

/-! Arguments -/

/-- The pieces are those of the text, the first with what was passed of it. Three parts of the
text are kept apart: what earlier pieces took, what was passed since, and what is left. -/
theorem commaPieces_eq (depth : Int) (front passed : Text) {rest : Text}
    (short : depth.natAbs + rest.length < 2147483648) :
    commaPieces (front ++ passed.reverse ++ rest) depth (octets front)
        (octets (front ++ passed.reverse)) rest =
      .ok ((splitCommas depth rest).modifyHead (passed.reverse ++ ·)) := by
  induction rest generalizing depth front passed with
  | nil =>
    rw [commaPieces, List.append_assoc, sliceFrom_octets rfl]
    rfl
  | cons c rest inductionHypothesis =>
    rw [List.length_cons] at short
    rw [commaPieces, splitCommas]
    split
    · rename_i comma
      obtain ⟨rfl, rfl⟩ := comma
      have moved : front ++ passed.reverse ++ [','] ++ [].reverse ++ rest =
          front ++ passed.reverse ++ ',' :: rest := by simp
      have place : octets (front ++ passed.reverse ++ [',']) =
          octets (front ++ passed.reverse) + 1 := octets_append _ _
      have later := inductionHypothesis 0 (front ++ passed.reverse ++ [',']) [] (by omega)
      have kept : (splitCommas 0 rest).modifyHead ([].reverse ++ ·) = splitCommas 0 rest :=
        congrFun List.modifyHead_id _
      rw [moved, kept, List.reverse_nil, List.append_nil, place] at later
      rw [slice_octets rfl, orHalt_some, ok_bind]
      change (commaPieces _ _ _ (octets (front ++ passed.reverse) + 1) rest >>= _) = _
      rw [later, ok_bind]
      simp [pure, Except.pure]
    · have change := natAbs_add_step_le depth c
      have moved : front ++ (c :: passed).reverse ++ rest =
          front ++ passed.reverse ++ c :: rest := by simp
      have later := inductionHypothesis (depth + step c) front (c :: passed) (by omega)
      rw [octets_append, octets_reverse_cons, ← Nat.add_assoc, ← octets_append, moved] at later
      rw [counted_eq (by omega), ok_bind, later]
      cases splitCommas (depth + step c) rest <;> simp

/-- From the start of a text the pieces are all of its pieces, and nothing is passed before
them. -/
theorem commaPieces_start {text : Text} (short : text.length < 2147483648) :
    commaPieces text 0 0 0 text = .ok (splitCommas 0 text) := by
  have pieces : commaPieces text 0 0 0 text = .ok _ :=
    commaPieces_eq 0 [] [] (by simpa using short)
  have kept : (splitCommas 0 text).modifyHead ([].reverse ++ ·) = splitCommas 0 text :=
    congrFun List.modifyHead_id _
  rw [pieces, kept]

/-- An argument is read in place as it is read otherwise. Its cuts stand at signs of one octet,
so no slice of it can miss its place, whatever the length. -/
theorem readArgument_eq (parameters part : Text) :
    readArgument parameters part = stopped (Tag.readArgument parameters part) := by
  rw [readArgument, Tag.readArgument]
  dsimp only
  generalize (part.span (· != '=')).1 = declared
  generalize (part.span (· != '=')).2 = value
  by_cases signed : '$' ∈ trim declared
  · obtain ⟨front, name, split, signless⟩ := exists_last_sign signed
    have plain : ∀ c ∈ name, (c == '$') = false := fun c member => by
      simpa using fun same : c = '$' => signless (same ▸ member)
    have past : sliceFrom (octets front + 1) (front ++ '$' :: name) = some name :=
      sliceFrom_past rfl rfl
    rw [if_pos (List.contains_iff_mem.mpr signed), split, name_of_declared front signless,
      type_of_declared, lastPlace_append front (by decide) plain]
    simp only [past, sliceTo_octets rfl, orHalt_some, ok_bind]
    refine stopped_bind fun argument _ => ?_
    cases value <;> rfl
  · have plain : ∀ c ∈ trim declared, (c == '$') = false := fun c member => by
      simpa using fun same : c = '$' => signed (same ▸ member)
    rw [if_neg (by simpa using signed), lastPlace_eq_none plain]

/-- Arguments are read in place as they are read otherwise, up to the first that is no
argument. -/
theorem readArguments_eq {parameters : Text} (short : parameters.length < 2147483648) :
    readArguments parameters = stopped (Tag.readArguments parameters) := by
  rw [readArguments, Tag.readArguments, commaPieces_start short, ok_bind]
  exact stopped_mapM (readArgument_eq parameters) _

/-! The method -/

/-- From a signature the same method is made in place. Only the parameter list has to be short,
since nothing is counted in the other parts. -/
theorem method_eq (body : Text) (isStatic : Bool) {signature : Signature}
    (short : ∀ parameters ∈ signature.parameters, parameters.length < 2147483648) :
    method body isStatic signature = stopped (Method.ofSignature body isStatic signature) := by
  rw [method, Method.ofSignature]
  refine stopped_bind fun parts _ => ?_
  obtain ⟨name, returnType⟩ := parts
  cases given : signature.parameters with
  | none => rfl
  | some parameters =>
    dsimp only
    rw [readArguments_eq (short parameters given)]
    exact stopped_bind fun arguments _ => rfl

/-- A method is read in place as it is read otherwise. Its parameter list is no longer than the
body, so one bound is enough for all counts. -/
theorem readMethod_eq {body : Text} (short : body.length < 2147483648) :
    readMethod body = stopped (Tag.readMethod body) := by
  rw [readMethod]
  split
  · rename_i empty
    subst empty
    rfl
  · rename_i something
    have marked := (splitStatic_isSuffix body).length_le
    have skipped : skipName (splitStatic body).2 0 = stopped _ := skipName_eq [] _
    rw [Tag.readMethod_eq something]
    dsimp only
    rw [skipped]
    refine stopped_bind fun text kept => ?_
    have shorter : text.length ≤ (splitStatic body).2.length :=
      (sublist_of_skipName kept).length_le
    rw [signature_eq body (by omega)]
    refine stopped_bind fun signature found => ?_
    have inside := Signature.length_parameters_le found
    rw [method_eq]
    · exact stopped_bind fun method _ => rfl
    · intro parameters given
      have here := inside parameters given
      omega

end DocComment.Tag.InPlace
