import DocComment.Tag.InPlace.Declaration

/-!
# Reading in place: methods

The reader of methods looks for places from both ends of what it has passed: for `()` and for
the parentheses of the parameter list from the left, for the last blank and the last `$` from
the right. Every search is exact, and so is every step over a character that was found. Only
the step over a blank counts one octet for what may be wider, and there the reader in place
halts as the other gives up. The scan for `()` goes over the text in a loop that begins anew at
a place in it; the text that is scanned for the signature afterwards is a new one if a name was
skipped.
-/
namespace DocComment.Tag.InPlace

open Text Brackets

/-! The announced name -/

/-- The place of the first `()`, in octets. -/
def emptyList? : Text → Option Nat
  | '(' :: ')' :: _ => some 0
  | c :: rest => (emptyList? rest).map (c.utf8Size + ·)
  | [] => none

/-- A text with a `()` behind a place is longer than that place. So the search for a name to
skip, which goes on behind it, comes to an end. -/
theorem lt_octets_of_emptyList? {start place : Nat} {text behind : Text}
    (cut : sliceFrom start text = some behind) (found : emptyList? behind = some place) :
    start < octets text := by
  obtain ⟨⟨before, rest⟩, split, rfl⟩ := Option.map_eq_some_iff.mp cut
  rw [← octets_of_cutAt split, ← append_of_cutAt split, octets_append]
  cases rest with
  | nil => contradiction
  | cons c others =>
    have size := Char.utf8Size_pos c
    rw [octets]
    omega

/-- The text without the first name that is skipped, searched from a place on. The name is sliced
between the last blank in front of the list and the list, and where it is not skipped the search
begins anew behind the list. -/
def skipName (text : Text) (start : Nat) : Except Stop Text :=
  match _ : sliceFrom start text with
  | none => .error .halted
  | some rest =>
    match _ : emptyList? rest with
    | none => .ok text
    | some offset => do
      let place := start + offset
      let front ← orHalt (sliceTo place text)
      let name ← orHalt (slice (wordStart front) place text)
      let behind ← orHalt (sliceFrom (place + 2) text)
      if isSkippedName name behind then
        let before ← orHalt (sliceTo (wordStart front) text)
        return before ++ trimStart behind
      else skipName text (place + 2)
termination_by octets text - start
decreasing_by
  have inside := lt_octets_of_emptyList? ‹_› ‹_›
  omega

/-! The parameter list -/

/-- The place of the parenthesis that opens the parameter list; the scan of the text has come to
`place` and to the given depth. At each parenthesis at depth zero the word in front of it is
sliced off, the blanks behind that word not counted. -/
def openPlace (text : Text) (depth : Int) (place : Nat) : Text → Except Stop (Option Nat)
  | [] => .ok none
  | c :: rest =>
    if c = '(' ∧ depth = 0 then do
      let passed ← orHalt (sliceTo place text)
      let word ← orHalt (sliceFrom (wordStart (trimEnd passed)) (trimEnd passed))
      let name := word.dropWhile (· == '\\')
      if name ≠ [] ∧ ¬ isCallableWord name then return some place
      else
        let after ← counted (depth + step c)
        openPlace text after (place + c.utf8Size) rest
    else do
      let after ← counted (depth + step c)
      openPlace text after (place + c.utf8Size) rest

/-- The place of the parenthesis that closes one opened before; `depth` more are open. The depth
has a sign here, though it never falls below zero. -/
def closePlace (depth : Int) (place : Nat) : Text → Except Stop (Option Nat)
  | [] => .ok none
  | c :: rest =>
    if c = ')' ∧ depth = 0 then .ok (some place)
    else do
      let inner ← counted (if c = '(' then depth + 1 else if c = ')' then depth - 1 else depth)
      closePlace inner (place + c.utf8Size) rest

/-- The signature in a text; the body is what a message shows. Head, list and description are
sliced at the two places that were found, and each parenthesis is one octet wide. -/
def signature (body text : Text) : Except Stop Signature := do
  match ← openPlace text 0 0 text with
  | none => stopped (Signature.withoutParameters text)
  | some opening =>
    let behind ← orHalt (sliceFrom (opening + 1) text)
    match ← closePlace 0 0 behind with
    | none => stopped (.error (.malformed TagName.method.text body .unclosedParameters))
    | some closing =>
      let head ← orHalt (sliceTo opening text)
      let parameters ← orHalt (sliceTo closing behind)
      let description ← orHalt (sliceFrom (closing + 1) behind)
      return ⟨head, some parameters, trim description⟩

/-! Arguments -/

/-- The pieces between the commas at depth zero. The scan of the text has come to `place`, and
the piece that it is in began at `start`. -/
def commaPieces (text : Text) (depth : Int) (start place : Nat) : Text → Except Stop (List Text)
  | [] => do
    let piece ← orHalt (sliceFrom start text)
    return [piece]
  | c :: rest =>
    if c = ',' ∧ depth = 0 then do
      let piece ← orHalt (slice start place text)
      let others ← commaPieces text depth (place + 1) (place + c.utf8Size) rest
      return piece :: others
    else do
      let after ← counted (depth + step c)
      commaPieces text after start (place + c.utf8Size) rest

/-- One argument: its declaration is cut at its last `$`, which is one octet wide. -/
def readArgument (parameters part : Text) : Except Stop Argument := do
  let (declared, value) := part.span (· != '=')
  let declaration := trim declared
  match lastPlace (· == '$') declaration with
  | none => stopped (.error (.malformed TagName.method.text parameters .argumentVariable))
  | some sign =>
    let name ← orHalt (sliceFrom (sign + 1) declaration)
    let type ← orHalt (sliceTo sign declaration)
    let argument ← stopped (Argument.ofName name (argumentType type))
    match value with
    | [] => return argument
    | _ :: value => return argument.defaultingTo value

/-- The arguments of a parameter list, read one after another; empty pieces are left out. -/
def readArguments (parameters : Text) : Except Stop (List Argument) := do
  let pieces ← commaPieces parameters 0 0 0 parameters
  ((pieces.map trim).filter (· ≠ [])).mapM (readArgument parameters)

/-! The method -/

/-- The method that a signature declares. Only its arguments are sliced once more. -/
def method (body : Text) (isStatic : Bool) (signature : Signature) : Except Stop Method := do
  let (name, returnType) ← stopped (Method.heading body signature.head)
  let arguments ← match signature.parameters with
    | none => pure []
    | some parameters => readArguments parameters
  stopped (Method.ofParts name arguments returnType isStatic signature.description)

/-- A method from its body. The steps are those of the reader that takes texts apart, in its
order. -/
def readMethod (body : Text) : Except Stop Tag :=
  if body = [] then stopped (.error (.noBody TagName.method.text))
  else do
    let (isStatic, text) := splitStatic body
    let text ← skipName text 0
    let signature ← signature body text
    let method ← method body isStatic signature
    return ofMethod method

end DocComment.Tag.InPlace
