/-!
Integers of 64 bits from numerals. The front of a numeral gives its base: `0x` sixteen, `0o`
and a plain leading zero eight, `0b` two, anything else ten. An underscore may stand between
two digits or between the base and the first digit.
-/

namespace WindowMachine.Integer

/-- Why a numeral has no value. -/
inductive Fault where
  /-- A character that is no digit of its base, an underscore out of place, or no digit. -/
  | badDigit
  /-- A value of more than 64 bits. -/
  | outOfRange
  deriving DecidableEq, Repr

def Fault.message : Fault → String
  | .badDigit => "invalid syntax"
  | .outOfRange => "value out of range"

/-- Reads the sign in front of a numeral: whether it is negative, and what follows. -/
def signOf : List Char → Bool × List Char
  | '-' :: rest => (true, rest)
  | '+' :: rest => (false, rest)
  | rest => (false, rest)

/-- The value of a digit, letters counting on from ten; characters that are no digit have a
value beyond every base. -/
def digitValue (c : Char) : Nat :=
  if c.isDigit then c.toNat - '0'.toNat
  else if c.isLower then c.toNat - 'a'.toNat + 10
  else if c.isUpper then c.toNat - 'A'.toNat + 10
  else 36

/-- The value of digits in a base, after those with value `n`. The first character that is
outside the base or leads beyond 64 bits decides the fault; underscores are passed over. -/
def magnitudeFrom (base : Nat) (n : Nat) : List Char → Except Fault Nat
  | [] => .ok n
  | c :: rest =>
    if c = '_' then magnitudeFrom base n rest
    else if base ≤ digitValue c then .error .badDigit
    else
      let next := n * base + digitValue c
      if UInt64.size ≤ next then .error .outOfRange else magnitudeFrom base next rest

/-- The base that a letter after a leading zero gives. -/
def baseOf? (c : Char) : Option Nat :=
  if c = 'x' ∨ c = 'X' then some 16
  else if c = 'o' ∨ c = 'O' then some 8
  else if c = 'b' ∨ c = 'B' then some 2
  else none

/-- The base of an unsigned numeral and the digits after the mark of it. A mark needs a
character after it to count as one. -/
def basedDigits : List Char → Nat × List Char
  | '0' :: mark :: c :: rest =>
    match baseOf? mark with
    | some base => (base, c :: rest)
    | none => (8, mark :: c :: rest)
  | '0' :: rest => (8, rest)
  | digits => (10, digits)

/-- Whether each underscore follows a digit, or the mark of the base, and precedes a digit;
`afterDigit` says whether a digit or the mark stands before the text. -/
def underscoresFit (hex : Bool) : Bool → Bool → List Char → Bool
  | _, afterUnderscore, [] => !afterUnderscore
  | afterDigit, afterUnderscore, c :: rest =>
    if c.isDigit || (hex && digitValue c < 16) then underscoresFit hex true false rest
    else if c = '_' then afterDigit && underscoresFit hex false true rest
    else !afterUnderscore && underscoresFit hex false false rest

/-- Whether the underscores of an unsigned numeral are in place. -/
def underscoresOk : List Char → Bool
  | '0' :: mark :: rest =>
    match baseOf? mark with
    | some base => underscoresFit (base == 16) true false rest
    | none => underscoresFit false false false ('0' :: mark :: rest)
  | digits => underscoresFit false false false digits

/-- The value of an unsigned numeral. -/
def magnitude (digits : List Char) : Except Fault Nat :=
  if digits.isEmpty then .error .badDigit
  else
    let (base, body) := basedDigits digits
    match magnitudeFrom base 0 body with
    | .error fault => .error fault
    | .ok n =>
      if digits.contains '_' && !underscoresOk digits then .error .badDigit else .ok n

/-- The value of a numeral with an optional sign. -/
def read (text : List Char) : Except Fault Int :=
  let (negative, digits) := signOf text
  match magnitude digits with
  | .error fault => .error fault
  | .ok n =>
    if negative then if 0x8000000000000000 < n then .error .outOfRange else .ok (-(n : Int))
    else if 0x8000000000000000 ≤ n then .error .outOfRange
    else .ok n

end WindowMachine.Integer
