import WindowMachine.Number.BinaryFormat
import WindowMachine.Number.Integer
import WindowMachine.Toml.Value

/-!
Numbers, points in time and truth values. What a number could be is found by the characters it
is made of; whether it is one is checked afterwards.
-/

namespace WindowMachine.Toml

/-! ## Numbers -/

/-- A digit of any base up to sixteen. -/
def isHexChar (c : Char) : Bool := Integer.digitValue c < 16

/-- Whether every underscore follows a digit and the text ends in one. -/
def spacedFrom (afterDigit : Bool) : List Char → Bool
  | [] => afterDigit
  | c :: rest => (c != '_' || afterDigit) && spacedFrom (isHexChar c) rest

def spaced (text : List Char) : Bool := spacedFrom false text

/-- Whether a number starts with a zero that is neither all of it nor the mark of a base. -/
def hasLeadingZero : List Char → Bool
  | '0' :: c :: _ => !(c == 'b' || c == 'o' || c == 'x')
  | '-' :: '0' :: _ :: _ | '+' :: '0' :: _ :: _ => true
  | _ => false

/-- The value of an integer. -/
def integer? (text : List Char) : Option Value :=
  if spaced text && !hasLeadingZero text then
    match Integer.read text with
    | .ok n => some (.integer n)
    | .error _ => none
  else none

/-- The parts of a number between its point and exponent marks. -/
def floatParts (text : List Char) : List (List Char) :=
  (text.splitOnP fun c => c == '.' || c == 'e' || c == 'E').filter (!·.isEmpty)

/-- Whether a digit follows every point. -/
def pointsFit : List Char → Bool
  | [] => true
  | '.' :: rest =>
    match rest with
    | c :: _ => c.isDigit && pointsFit rest
    | [] => false
  | _ :: rest => pointsFit rest

/-- Digits at the front of a text, at least one. -/
def someDigits? (text : List Char) : Option (List Char × List Char) :=
  let digits := text.takeWhile Char.isDigit
  if digits.isEmpty then none else some (digits, text.dropWhile Char.isDigit)

/-- The exponent at the end of a number, zero if there is none. -/
def exponent? : List Char → Option Int
  | [] => some 0
  | c :: rest =>
    if c = 'e' ∨ c = 'E' then
      match someDigits? (Integer.signOf rest).2 with
      | some (_, []) => some (Decimal.signedExponent rest)
      | _ => none
    else none

/-- The magnitude of a number with point or exponent. -/
def decimal? (text : List Char) : Option Decimal := do
  let (whole, rest) ← someDigits? (Integer.signOf text).2
  let (fraction, rest) ←
    match rest with
    | '.' :: rest => someDigits? rest
    | rest => some ([], rest)
  let exponent ← exponent? rest
  return Decimal.ofParts whole fraction exponent

/-- The value of a number with point or exponent. It must round to a finite double-precision
number. -/
def float? (text : List Char) : Option Value :=
  let parts := floatParts text
  if parts.all spaced && !hasLeadingZero (parts.headD []) && pointsFit text then
    match (decimal? (text.filter (· != '_'))).bind BinaryFormat.double.ofDecimal? with
    | some _ => some (.float (String.ofList text))
    | none => none
  else none

/-! ## Points in time -/

/-- A number of a fixed count of digits. -/
def fixed? (count : Nat) (text : List Char) : Option (Nat × List Char) :=
  let digits := text.take count
  if digits.length = count ∧ digits.all Char.isDigit then
    some (digitsValue digits, text.drop count)
  else none

/-- A character that must come next. -/
def expect? (c : Char) : List Char → Option (List Char)
  | x :: rest => if x = c then some rest else none
  | [] => none

def isLeapYear (year : Nat) : Bool :=
  year % 4 == 0 && (year % 100 != 0 || year % 400 == 0)

def daysIn (year month : Nat) : Nat :=
  if month = 2 then if isLeapYear year then 29 else 28
  else if month = 4 ∨ month = 6 ∨ month = 9 ∨ month = 11 then 30
  else 31

/-- A date. -/
def date? (text : List Char) : Option (List Char) := do
  let (year, rest) ← fixed? 4 text
  let (month, rest) ← fixed? 2 (← expect? '-' rest)
  let (day, rest) ← fixed? 2 (← expect? '-' rest)
  if 1 ≤ month ∧ month ≤ 12 ∧ 1 ≤ day ∧ day ≤ daysIn year month then some rest else none

/-- A fraction of a second, if there is one. -/
def fraction (text : List Char) : List Char :=
  match text with
  | '.' :: c :: rest => if c.isDigit then rest.dropWhile Char.isDigit else text
  | _ => text

/-- A time of day; the seconds may be left out. -/
def time? (text : List Char) : Option (List Char) := do
  let (hour, rest) ← fixed? 2 text
  let (minute, rest) ← fixed? 2 (← expect? ':' rest)
  if 24 ≤ hour ∨ 60 ≤ minute then none
  else
    match rest with
    | ':' :: rest =>
      let (second, rest) ← fixed? 2 rest
      if 60 ≤ second then none else some (fraction rest)
    | rest => some rest

/-- The distance from universal time, if it is given. -/
def zone? : List Char → Option (List Char)
  | 'Z' :: rest => some rest
  | c :: rest =>
    if c = '+' ∨ c = '-' then do
      let (hour, rest) ← fixed? 2 rest
      let (minute, rest) ← fixed? 2 (← expect? ':' rest)
      if 24 < hour ∨ 60 < minute then none else some rest
    else none
  | [] => some []

/-- Whether a text is a date, a time of day or both, with capital marks between them. -/
def isDatetime (text : List Char) : Bool :=
  match date? text with
  | some [] => true
  | some ('T' :: rest) => ((time? rest).bind zone?) == some []
  | some _ => false
  | none => time? text == some []

/-- The marks of a point in time in the form that is checked. -/
def normalMark (c : Char) : Char :=
  if c = 'z' then 'Z' else if c = 't' ∨ c = ' ' then 'T' else c

/-- The value of a point in time. -/
def datetime? (text : List Char) : Option Value :=
  let trimmed := (text.reverse.dropWhile (· == ' ')).reverse
  if isDatetime (trimmed.map normalMark) then some (.datetime (String.ofList trimmed)) else none

/-! ## Reading -/

def isFloatChar (c : Char) : Bool :=
  c.isDigit || c == '_' || c == '.' || c == '-' || c == '+' || c == 'e' || c == 'E'

def isDatetimeChar (c : Char) : Bool :=
  c.isDigit || c == '-' || c == ':' || c == 'T' || c == 't' || c == ' ' || c == '.' ||
    c == 'Z' || c == 'z' || c == '+'

def startsFraction : List Char → Bool
  | c :: _ => c == '.' || c == 'e' || c == 'E'
  | [] => false

/-- Reads a value of characters that satisfy a test. -/
def spanning (test : Char → Bool) (value? : List Char → Option Value) (cs : List Char) :
    Option (Value × List Char) :=
  (value? (cs.takeWhile test)).map fun v => (v, cs.dropWhile test)

/-- Reads a decimal number, its sign of `sign` characters included. -/
def decimalNumber? (sign : Nat) (cs : List Char) : Option (Value × List Char) :=
  let body := (cs.drop sign).takeWhile fun c => c.isDigit || c == '_'
  let front := cs.take (sign + body.length)
  let rest := cs.drop (sign + body.length)
  if startsFraction rest then
    (float? (front ++ rest.takeWhile isFloatChar)).map fun v => (v, rest.dropWhile isFloatChar)
  else (integer? front).map fun v => (v, rest)

/-- Reads a number with a sign. -/
def signedNumber? : List Char → Option (Value × List Char)
  | sign :: 'i' :: 'n' :: 'f' :: rest => some (.float (String.ofList [sign, 'i', 'n', 'f']), rest)
  | sign :: 'n' :: 'a' :: 'n' :: rest => some (.float (String.ofList [sign, 'n', 'a', 'n']), rest)
  | sign :: c :: rest =>
    if c.isDigit then
      match c, rest with
      | '0', 'b' :: _ | '0', 'o' :: _ | '0', 'x' :: _ => none
      | _, _ => decimalNumber? 1 (sign :: c :: rest)
    else none
  | _ => none

/-- Reads an integer after the mark of its base. -/
def markedInteger? (mark : Char) (isBaseDigit : Char → Bool) (rest : List Char) :
    Option (Value × List Char) :=
  match rest with
  | c :: _ =>
    if isBaseDigit c then
      let test (c : Char) : Bool := isBaseDigit c || c == '_'
      (integer? ('0' :: mark :: rest.takeWhile test)).map fun v => (v, rest.dropWhile test)
    else none
  | [] => none

/-- Reads a decimal number or a point in time. -/
def numberOrDate? (cs : List Char) : Option (Value × List Char) :=
  match cs.dropWhile Char.isDigit with
  | '-' :: _ | ':' :: _ => spanning isDatetimeChar datetime? cs
  | _ => decimalNumber? 0 cs

/-- Reads a number, a point in time or a truth value. -/
def scalar? (cs : List Char) : Option (Value × List Char) :=
  match cs with
  | '0' :: 'x' :: rest => markedInteger? 'x' isHexChar rest
  | '0' :: 'o' :: rest => markedInteger? 'o' (fun c => '0' ≤ c && c ≤ '7') rest
  | '0' :: 'b' :: rest => markedInteger? 'b' (fun c => c == '0' || c == '1') rest
  | '0' :: c :: _ => if c.isDigit then numberOrDate? cs else decimalNumber? 0 cs
  | 'i' :: 'n' :: 'f' :: rest => some (.float "inf", rest)
  | 'n' :: 'a' :: 'n' :: rest => some (.float "nan", rest)
  | 't' :: 'r' :: 'u' :: 'e' :: rest => some (.boolean true, rest)
  | 'f' :: 'a' :: 'l' :: 's' :: 'e' :: rest => some (.boolean false, rest)
  | c :: _ =>
    if c.isDigit then numberOrDate? cs
    else if c = '-' ∨ c = '+' then signedNumber? cs
    else none
  | [] => none

end WindowMachine.Toml
