import DocComment.Toml.Value

/-!
# Numbers, truth values and points in time

These values are written without quotes. Underscores may stand between two digits.
A decimal number has no leading zeros; the other bases take no sign. Points in time
follow RFC 3339, the seconds being optional.

Whether a whole number has digits of its base only is left open where nothing but its
form matters: such a word is accepted and stands for no number.
-/
namespace DocComment.Toml

/-- The value of a digit in bases up to sixteen. Letters count in both cases. -/
def digitValue? (c : Char) : Option Nat :=
  if '0' ≤ c ∧ c ≤ '9' then some (c.toNat - '0'.toNat)
  else if 'a' ≤ c ∧ c ≤ 'f' then some (c.toNat - 'a'.toNat + 10)
  else if 'A' ≤ c ∧ c ≤ 'F' then some (c.toNat - 'A'.toNat + 10)
  else none

/-- The number that digits of a base stand for; there is at least one digit. -/
def numberOfDigits? (base : Nat) (digits : Text) : Option Nat :=
  if digits = [] then none
  else digits.foldlM (fun number c => do
    let digit ← digitValue? c
    if digit < base then some (number * base + digit) else none) 0

/-- Digits of a base, without the underscores between two of them. An underscore at either end,
or two in a row, leave no number. -/
def digitGroups? (base : Nat) (text : Text) : Option Nat :=
  let groups := text.splitOn '_'
  if groups.all (· ≠ []) then numberOfDigits? base groups.flatten else none

/-- A decimal number without sign and without leading zeros. Zero itself is a single digit. -/
def decimal? (text : Text) : Option Nat :=
  if text.head? = some '0' ∧ text.length ≠ 1 then none else digitGroups? 10 text

/-- The text behind its sign, and whether the sign is negative. A text without one is
positive. -/
def splitSign : Text → Bool × Text
  | '+' :: rest => (false, rest)
  | '-' :: rest => (true, rest)
  | text => (false, text)

/-- Whether a text passes for a decimal number without being one: it begins with digits and an
underscore, without a leading zero, and a digit of some base stands on both sides of every
underscore. -/
def passesForDecimal (text : Text) : Bool :=
  let (leading, others) := text.span Char.isDigit
  let groups := text.splitOn '_'
  leading.head?.any (· != '0') && others.head? == some '_' &&
    !others.any (['.', 'e', 'E', ' '].contains ·) &&
    groups.dropLast.all (·.getLast?.any fun c => (digitValue? c).isSome) &&
    groups.tail.all (·.head?.any fun c => (digitValue? c).isSome)

/-- A whole number in a base, behind the characters that name the base. Without any digits it
stands for no number. -/
def Value.ofBase? (base : Nat) (word digits : Text) : Option Value :=
  if digits = [] then some (.unreadable word)
  else (digitGroups? base digits).map fun number => .integer (Int.ofNat number)

/-- A whole number: decimal with a sign or without, or in base 16, 8 or 2. -/
def Value.ofWhole? (word : Text) : Option Value :=
  match word with
  | '0' :: 'x' :: digits => Value.ofBase? 16 word digits
  | '0' :: 'o' :: digits => Value.ofBase? 8 word digits
  | '0' :: 'b' :: digits => Value.ofBase? 2 word digits
  | _ =>
    let (negative, digits) := splitSign word
    match decimal? digits with
    | some number => some (.integer (if negative then -Int.ofNat number else Int.ofNat number))
    | none => if passesForDecimal digits then some (.unreadable word) else none

/-- Whether the text is a number with a fraction, an exponent or both, or one of the two names
for what is no finite number. -/
def isFloat (text : Text) : Bool :=
  let digits := (splitSign text).2
  if digits = "inf".toList ∨ digits = "nan".toList then true
  else
    let (mantissa, exponent) := digits.span fun c => c != 'e' && c != 'E'
    let (whole, fraction) := mantissa.span (· != '.')
    (fraction ≠ [] || exponent ≠ []) && (decimal? whole).isSome &&
      (fraction = [] || (digitGroups? 10 (fraction.drop 1)).isSome) &&
      (exponent = [] || (digitGroups? 10 (splitSign (exponent.drop 1)).2).isSome)

/-- The number written with exactly so many decimal digits at the start of a text, and what
follows them. -/
def fixedDigits? (count : Nat) (text : Text) : Option (Nat × Text) :=
  let digits := text.take count
  if digits.length = count then (numberOfDigits? 10 digits).map fun n => (n, text.drop count)
  else none

/-- The text behind a character that must come first. -/
def behind? (c : Char) : Text → Option Text
  | [] => none
  | d :: rest => if c = d then some rest else none

/-- The number of days of a month, with the leap years of the calendar. -/
def daysInMonth (year month : Nat) : Nat :=
  if month = 2 then
    if year % 4 = 0 ∧ (year % 100 ≠ 0 ∨ year % 400 = 0) then 29 else 28
  else if month = 4 ∨ month = 6 ∨ month = 9 ∨ month = 11 then 30
  else 31

/-- What follows a calendar date: year, month and day, with hyphens between them. -/
def afterDate? (text : Text) : Option Text := do
  let (year, text) ← fixedDigits? 4 text
  let (month, text) ← fixedDigits? 2 (← behind? '-' text)
  let (day, text) ← fixedDigits? 2 (← behind? '-' text)
  if 1 ≤ month ∧ month ≤ 12 ∧ 1 ≤ day ∧ day ≤ daysInMonth year month then some text else none

/-- What follows a time of day. The seconds may be missing, and may have a fraction. -/
def afterTime? (text : Text) : Option Text := do
  let (hour, text) ← fixedDigits? 2 text
  let (minute, text) ← fixedDigits? 2 (← behind? ':' text)
  if ¬ (hour < 24 ∧ minute < 60) then none
  else match text with
    | ':' :: seconds => do
      let (second, text) ← fixedDigits? 2 seconds
      if ¬ second ≤ 60 then none
      else match text with
        | '.' :: fraction =>
          if (fraction.head?.any Char.isDigit) then some (fraction.dropWhile Char.isDigit)
          else none
        | _ => some text
    | _ => some text

/-- Whether the text is nothing or the distance from universal time. -/
def isOffset (text : Text) : Bool :=
  match text with
  | [] => true
  | ['Z'] | ['z'] => true
  | sign :: distance =>
    (sign == '+' || sign == '-') &&
      (match fixedDigits? 2 distance with
        | some (hour, ':' :: text) =>
          match fixedDigits? 2 text with
          | some (minute, []) => hour < 24 && minute < 60
          | _ => false
        | _ => false)

/-- Whether the text is a date, a time, or both with an offset or without. -/
def isDateTime (text : Text) : Bool :=
  match afterDate? text with
  | some [] => true
  | some (separator :: time) =>
    (separator == 'T' || separator == 't' || separator == ' ') &&
      (afterTime? time).any isOffset
  | none => afterTime? text == some []

/-- The characters that end a word without quotes. -/
def delimiters : Text := " \t\r\n,=#[]\x7b\x7d".toList

/-- The words without quotes at the start of a text, with the blanks between them, and what
follows. Behind a blank, a quote begins no such word. -/
def spanWords (afterBlank : Bool) : Text → Text × Text
  | [] => ([], [])
  | c :: rest =>
    if ¬ delimiters.contains c ∧ ¬ (afterBlank ∧ (c = '"' ∨ c = '\'')) then
      let (words, behind) := spanWords false rest
      (c :: words, behind)
    else if c = ' ' ∨ c = '\t' then
      let (words, behind) := spanWords true rest
      if words = [] then ([], c :: rest) else (c :: words, behind)
    else ([], c :: rest)

/-- The value that a text without quotes stands for. The kinds of value are tried one after
another. -/
def Value.ofWord? (word : Text) : Option Value :=
  if word = "true".toList then some (.boolean true)
  else if word = "false".toList then some (.boolean false)
  else match Value.ofWhole? word with
    | some value => some value
    | none =>
      if isFloat word then some (.float word)
      else if isDateTime word then some (.dateTime word)
      else none

/-- The value without quotes at the start of a text. All words up to a delimiter belong to it;
only a date and a time are two words that make one value. -/
def readScalar (text : Text) : Option (Value × Text) := do
  let (word, rest) := spanWords false text
  return (← Value.ofWord? word, rest)

end DocComment.Toml
