import DocComment.Proofs.Tag.Announced
import DocComment.Proofs.Tag.Rereading

/-!
# Descriptions of methods

The scans of a signature run over the whole body of a method, the description included, before
the description is cut off. Where the signature is plain, the description changes nothing about
how the signature is read: the parameter list opens and closes in front of it. It is itself kept
as it is, apart from blanks at its ends, exactly if no word of it announces the next one. Where
one does, as in prose that mentions a call, the scan for announced names takes the first such
word out of the description, although the signature that such a name would announce has been
read before.
-/
namespace DocComment.Tag

open Text Brackets

/-- A signature whose parts no scan takes for one another. Its head has no parenthesis and ends
in a name, and both parts nest their brackets, so the list between them can only be the
parameters. -/
structure PlainSignature where
  /-- What stands in front of the parameter list: `static` if it applies, a return type and the
  name of the method. -/
  head : Text
  /-- What stands between the parentheses. -/
  parameters : Text
  headNested : Nested Anywhere [] head
  unparenthesized : '(' ∉ head
  /-- The last word of the head is the name. It is made of word characters and is no keyword of a
  callable, and it is not the mark `static` alone. -/
  word : (wordBefore head).all isWordCharacter
  named : wordBefore head ≠ []
  ordinary : isCallableWord (wordBefore head) = false
  beyondMark : words head ≠ ["static".toList]
  parametersNested : Nested Anywhere [] parameters
  /-- No parameter list is empty, neither its own nor one within a type. -/
  listed : ¬ ['(', ')'] <:+: head ++ '(' :: (parameters ++ [')'])

/-- The signature as it stands in a body: the head, and the parameters between parentheses. -/
def PlainSignature.text (signature : PlainSignature) : Text :=
  signature.head ++ '(' :: (signature.parameters ++ [')'])

/-! The static mark -/

/-- A parenthesis behind a text has no part in the mark in front of it: a text begins with
`static` with or without the parenthesis. -/
theorem static_isPrefix_iff {head behind : Text} :
    "static".toList <+: head ++ '(' :: behind ↔ "static".toList <+: head := by
  refine ⟨fun marked => ?_, fun marked => marked.trans (List.prefix_append head _)⟩
  obtain within | ⟨inside, whole⟩ :=
    List.prefix_or_prefix_of_prefix marked (List.prefix_append head _)
  · exact within
  · rw [← whole, List.prefix_append_right_inj] at marked
    cases inside with
    | nil => exact ⟨[], by simpa using whole.symm⟩
    | cons c others =>
      obtain ⟨rfl, -⟩ := List.cons_prefix_cons.mp marked
      have member : '(' ∈ "static".toList := by rw [← whole]; simp
      exact absurd member (by decide)

/-- A text that does not begin with the mark is left as it is, and counts as not static. -/
theorem splitStatic_of_not_isPrefix {text : Text} (unmarked : ¬ "static".toList <+: text) :
    splitStatic text = (false, text) := by
  rw [splitStatic]
  split
  · rename_i rest found
    exact absurd ⟨rest, List.append_eq_of_isPrefixOf?_eq_some found⟩ unmarked
  · rfl

/-- Whatever follows the parenthesis, the mark is taken off the head or the head has none. What
is left of the head has the same name and is as deep. A head that is the mark alone is left out,
since there the mark would be the name. -/
theorem splitStatic_head {head : Text} (beyondMark : words head ≠ ["static".toList]) :
    ∃ isStatic kept, kept <:+ head ∧ wordBefore kept = wordBefore head ∧
      depth kept = depth head ∧
      ∀ behind, splitStatic (head ++ '(' :: behind) = (isStatic, kept ++ '(' :: behind) := by
  by_cases marked : "static".toList <+: head
  · obtain ⟨rest, rfl⟩ := marked
    have cut (text : Text) : splitStatic ("static".toList ++ text) =
        if text.head?.any isBlank then (true, trimStart text)
        else (false, "static".toList ++ text) := rfl
    have begins (behind : Text) :
        (rest ++ '(' :: behind).head?.any isBlank = rest.head?.any isBlank := by
      cases rest <;> rfl
    by_cases blank : rest.head?.any isBlank
    · have starts : StartsBlank rest := by
        intro c first
        rwa [Option.mem_def.mp first] at blank
      have mark : words "static".toList = ["static".toList] := by decide
      rw [words_append starts, mark] at beyondMark
      obtain ⟨first, others, found⟩ := List.exists_cons_of_ne_nil
        fun none : words rest = [] => beyondMark (by rw [none]; rfl)
      refine ⟨true, trimStart rest, ?_, ?_, ?_, fun behind => ?_⟩
      · exact (List.dropWhile_suffix isBlank).trans (List.suffix_append _ rest)
      · rw [wordBefore_eq, wordBefore_eq, words_trimStart, words_append starts, mark, found]
        rfl
      · rw [← depth_skeleton (trimStart rest), skeleton_trimStart, depth_skeleton, depth_append,
          show depth "static".toList = 0 by decide, Int.zero_add]
      · rw [List.append_assoc, cut, begins, if_pos blank, trimStart_append_cons (by decide)]
    · refine ⟨false, _, List.suffix_refl _, rfl, rfl, fun behind => ?_⟩
      rw [List.append_assoc, cut, begins, if_neg blank]
  · exact ⟨false, head, List.suffix_refl head, rfl, rfl, fun behind =>
      splitStatic_of_not_isPrefix (mt static_isPrefix_iff.mp marked)⟩

/-! The parts of the method -/

/-- The method with another description, which is trimmed first. The heading stays as it was. -/
def Method.describedBy (method : Method) (description : Text) : Method :=
  { method with
    description := trim description
    trimmed := trim_trim description }

/-- A method is built in the same way with any description: whether its parts make a method
depends on the others alone. -/
theorem Method.ofParts_describedBy {name description : Text} {arguments : List Argument}
    {returnType : Option TypeExpr} {isStatic : Bool} {method : Method} (other : Text)
    (done : Method.ofParts name arguments returnType isStatic description = .ok method) :
    Method.ofParts name arguments returnType isStatic other = .ok (method.describedBy other) := by
  rw [Method.ofParts] at done ⊢
  split at done
  · rename_i named
    obtain rfl := Except.ok.inj done
    rw [dif_pos named]
    rfl
  · contradiction

/-- Only the description of a method comes from what stands behind its signature. The body is
used for the messages of errors, so it may differ as well. -/
theorem Method.ofSignature_describedBy {body head parameters description : Text} {isStatic : Bool}
    {method : Method} (otherBody other : Text)
    (done : Method.ofSignature body isStatic ⟨head, some parameters, description⟩ = .ok method) :
    Method.ofSignature otherBody isStatic ⟨head, some parameters, other⟩ =
      .ok (method.describedBy other) := by
  rw [Method.ofSignature] at done ⊢
  obtain ⟨⟨name, returnType⟩, headed, done⟩ := exists_of_bind_eq_ok done
  have headedAlike : heading otherBody head = .ok (name, returnType) :=
    heading_eq_ok_iff.mpr (heading_eq_ok_iff.mp headed)
  obtain ⟨arguments, read, built⟩ := exists_of_bind_eq_ok done
  simp only [headedAlike, read]
  exact Method.ofParts_describedBy other built

namespace PlainSignature

variable (signature : PlainSignature)

/-- A signature with a text behind it is trimmed to its head, and behind it to that text: the
parenthesis between the two is visible, so no trimming goes past it. -/
theorem trim_text_append (behind : Text) :
    trim (signature.text ++ behind) =
      trimStart signature.head ++ '(' :: (signature.parameters ++ ')' :: trimEnd behind) := by
  have opening : signature.text ++ behind =
      signature.head ++ '(' :: (signature.parameters ++ ')' :: behind) := by simp [text]
  have closing : trimStart signature.head ++ '(' :: (signature.parameters ++ ')' :: behind) =
      (trimStart signature.head ++ '(' :: signature.parameters) ++ ')' :: behind := by simp
  rw [opening, trim, trimStart_append_cons (by decide), closing, trimEnd_append_cons (by decide),
    List.append_assoc, List.cons_append]

/-- In what is left of a plain head no parenthesis precedes the one that opens the parameter
list. So the search for the list ends there, and what it has passed is the head. -/
theorem openParameters_kept {kept : Text} (last : kept <:+ signature.head)
    (narrow : Narrow signature.head) (name : wordBefore kept = wordBefore signature.head)
    (deep : depth kept = depth signature.head) (behind : Text) :
    openParameters 0 [] (kept ++ '(' :: behind) = .ok (some (kept, behind)) := by
  have unopened : Unopened 0 [] kept := by
    rintro before after rfl
    exact absurd (last.mem (by simp)) signature.unparenthesized
  have balanced : depth kept = 0 := by
    rw [deep]
    simpa using signature.headNested.depth_eq
  have opens : OpensParameters (wordBefore kept) := by
    rw [name]
    exact opensParameters_of_word signature.word signature.named signature.ordinary
  exact openParameters_head behind (narrow.of_subset last.subset) unopened balanced opens

/-- No name is taken out of what is left of a plain signature, and of what stands behind it the
same as without the signature. The blank in front of that text keeps the two scans apart. -/
theorem skipName_kept {head behind kept : Text} (last : head <:+ signature.head)
    (starts : StartsBlank behind) (skipped : skipName [] behind = .ok kept) :
    skipName [] (head ++ '(' :: (signature.parameters ++ ')' :: behind)) =
      .ok (head ++ '(' :: (signature.parameters ++ ')' :: kept)) := by
  have joined (behind : Text) : head ++ '(' :: (signature.parameters ++ ')' :: behind) =
      (head ++ '(' :: (signature.parameters ++ [')'])) ++ behind := by simp
  have listless : ¬ ['(', ')'] <:+: head ++ '(' :: (signature.parameters ++ [')']) := by
    intro inside
    obtain ⟨front, whole⟩ := last
    refine signature.listed (inside.trans ?_)
    rw [← whole, List.append_assoc]
    exact (List.suffix_append front _).isInfix
  have apart : behind.head? ≠ some ')' := by
    intro first
    exact absurd (starts ')' first) (by decide)
  rw [joined behind, joined kept, skipName_append [] listless apart, List.append_nil,
    skipName_startsBlank starts, skipped, List.reverse_reverse]
  rfl

/-- A plain signature is read in one and the same way in front of every text that starts with a
blank. What is left of that text by the scan for announced names becomes the description. -/
theorem exists_reading (narrow : Narrow signature.head) :
    ∃ isStatic head, ∀ behind kept, StartsBlank behind → skipName [] (trimEnd behind) = .ok kept →
      read TagName.method.text (signature.text ++ behind) =
        (Method.ofSignature (trim (signature.text ++ behind)) isStatic
            ⟨head, some signature.parameters, trim kept⟩ >>=
          fun method => .ok (ofMethod method)) := by
  have beyondMark : words (trimStart signature.head) ≠ ["static".toList] := by
    rw [words_trimStart]
    exact signature.beyondMark
  obtain ⟨isStatic, head, last, name, deep, marked⟩ := splitStatic_head beyondMark
  have suffix : head <:+ signature.head := last.trans (List.dropWhile_suffix isBlank)
  have sameName : wordBefore head = wordBefore signature.head := by
    rw [name, wordBefore_eq, words_trimStart, ← wordBefore_eq]
  have sameDepth : depth head = depth signature.head := by
    rw [deep, ← depth_skeleton, skeleton_trimStart, depth_skeleton]
  refine ⟨isStatic, head, fun behind kept starts skipped => ?_⟩
  have startsEnded : StartsBlank (trimEnd behind) := by
    obtain ⟨blanks, whole⟩ := trimEnd_isPrefix behind
    exact startsBlank_of_append (whole ▸ starts)
  rw [read_method, signature.trim_text_append, readMethod_eq (by simp), marked,
    signature.skipName_kept suffix startsEnded skipped]
  change (Signature.ofText _ _ >>= _) = _
  rw [Signature.ofText_eq _ (signature.openParameters_kept suffix narrow sameName sameDepth _)
    signature.parametersNested.closes]
  rfl

end PlainSignature

/-- A plain signature that is read as a method is read as the same method in front of a
description: with the same name, return type and arguments, static or not as before. The
description is stored without the blanks at its ends, and otherwise as it is exactly if no word
of it announces the next one. -/
theorem read_described {signature : PlainSignature} {description : Text} {tag : Tag}
    (narrow : Narrow (signature.text ++ description))
    (done : read TagName.method.text signature.text = .ok tag) :
    ∃ method described, tag = ofMethod method ∧
      read TagName.method.text (signature.text ++ ' ' :: description) =
        .ok (ofMethod described) ∧
      described.name = method.name ∧ described.returnType = method.returnType ∧
      described.isStatic = method.isStatic ∧ described.arguments = method.arguments ∧
      (described.description = trim description ↔ AnnouncesNothing description) := by
  have narrowHead : Narrow signature.head := fun c member =>
    narrow c (List.mem_append_left _ (List.mem_append_left _ member))
  obtain ⟨isStatic, head, reading⟩ := signature.exists_reading narrowHead
  have alone := reading [] [] startsBlank_nil rfl
  rw [List.append_nil, done] at alone
  obtain ⟨method, made, same⟩ := exists_of_bind_eq_ok alone.symm
  have narrowEnd : Narrow (trimEnd (' ' :: description)) := by
    intro c member
    rcases List.mem_cons.mp ((trimEnd_isPrefix _).mem member) with rfl | inside
    · exact fun _ => rfl
    · exact narrow c (List.mem_append_right _ inside)
  obtain ⟨kept, skipped⟩ : ∃ kept, skipName [] (trimEnd (' ' :: description)) = .ok kept :=
    exists_skipName narrowEnd
  have behind := reading (' ' :: description) kept (startsBlank_space description) skipped
  rw [Method.ofSignature_describedBy _ (trim kept) made] at behind
  refine ⟨method, method.describedBy (trim kept), (Except.ok.inj same).symm, behind, rfl, rfl, rfl,
    rfl, ?_⟩
  have words' : words (trimEnd (' ' :: description)) = words description := by
    rw [words_trimEnd, words_cons (by decide)]
  have trimmed : trim (trimEnd (' ' :: description)) = trim description := by
    rw [trim_trimEnd]
    rfl
  have verbatim := trim_of_skipName_iff narrowEnd skipped
  rw [trimmed, AnnouncesNothing, words'] at verbatim
  change trim (trim kept) = trim description ↔ AnnouncesNothing description
  rw [trim_trim]
  exact verbatim

/-- A static signature whose return type and arguments nest brackets: a generic type, a shape,
and a callable with a parameter of its own. -/
def picking : PlainSignature where
  head := "static array<int, string> pick".toList
  parameters := "array\x7ba: int\x7d $from, callable(int) $by".toList
  headNested := by decide +kernel
  unparenthesized := by decide +kernel
  word := by decide +kernel
  named := by decide +kernel
  ordinary := by decide +kernel
  beyondMark := by decide +kernel
  parametersNested := by decide +kernel
  listed := by decide +kernel

/-- Calls and parentheses in a description that announces nothing: no call stands right in front
of another one, and all of it is kept. -/
theorem read_described_picking :
    let description := " like sort() but lazy, see rank() (or order(int))  ".toList
    Narrow (picking.text ++ description) ∧
      ∃ method described, read TagName.method.text picking.text = .ok (ofMethod method) ∧
        read TagName.method.text (picking.text ++ ' ' :: description) = .ok (ofMethod described) ∧
        described.arguments = method.arguments ∧ described.description = trim description := by
  intro description
  have narrow : Narrow (picking.text ++ description) := by decide +kernel
  obtain ⟨tag, done⟩ : ∃ tag, read TagName.method.text picking.text = .ok tag := ⟨_, rfl⟩
  obtain ⟨method, described, rfl, again, -, -, -, arguments, verbatim⟩ :=
    read_described narrow done
  have nothing : AnnouncesNothing description := by decide +kernel
  exact ⟨narrow, method, described, done, again, arguments, verbatim.mpr nothing⟩

/-- A signature with one argument, in front of which descriptions are tried. -/
def adding : PlainSignature where
  head := "int add".toList
  parameters := "int $a".toList
  headNested := by decide +kernel
  unparenthesized := by decide +kernel
  word := by decide +kernel
  named := by decide +kernel
  ordinary := by decide +kernel
  beyondMark := by decide +kernel
  parametersNested := by decide +kernel
  listed := by decide +kernel

/-- A description that mentions two calls in a row loses the first of them: it is taken for a
name with an empty list in front of the signature proper. -/
theorem description_loses_call :
    let description := "unlike sum() add(int) rounds".toList
    Narrow (adding.text ++ description) ∧
      (∃ method, read TagName.method.text adding.text = .ok (ofMethod method)) ∧
      ∃ described, read TagName.method.text (adding.text ++ ' ' :: description) =
          .ok (ofMethod described) ∧
        described.description = "unlike add(int) rounds".toList ∧
        described.description ≠ trim description := by
  refine ⟨by decide +kernel, ⟨_, rfl⟩, ⟨_, rfl, ?_, ?_⟩⟩ <;> decide +kernel

end DocComment.Tag
