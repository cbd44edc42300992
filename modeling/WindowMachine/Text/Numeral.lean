/-!
Numerals: decimal and hexadecimal digits, with or without a sign, filled up to a width.
A minus sign counts towards the width and stands before the filling zeros.
-/

namespace WindowMachine.Numeral

/-- The decimal digits of a natural number. -/
def ofNat (n : Nat) : String :=
  String.ofList (Nat.toDigits 10 n)

/-- The decimal digits of an integer, after a minus sign if it is negative. -/
def ofInt (i : Int) : String :=
  if i < 0 then "-" ++ ofNat i.natAbs else ofNat i.natAbs

/-- An integer whose sign is always written. -/
def signed (i : Int) : String :=
  (if i < 0 then "-" else "+") ++ ofNat i.natAbs

/-- Hexadecimal digits in lower case. -/
def lowerHexDigits (n : Nat) : List Char :=
  Nat.toDigits 16 n

/-- Hexadecimal digits in upper case. -/
def upperHexDigits (n : Nat) : List Char :=
  (Nat.toDigits 16 n).map Char.toUpper

/-- Digits with enough zeros in front to reach a width. -/
def zeroFilled (width : Nat) (digits : List Char) : String :=
  String.ofList (List.replicate (width - digits.length) '0' ++ digits)

/-- An integer in decimal, at least `width` characters wide. -/
def padded (width : Nat) (i : Int) : String :=
  if i < 0 then "-" ++ zeroFilled (width - 1) (Nat.toDigits 10 i.natAbs)
  else zeroFilled width (Nat.toDigits 10 i.natAbs)

/-- An integer in upper-case hexadecimal, at least `width` characters wide. -/
def upperHex (width : Nat) (i : Int) : String :=
  if i < 0 then "-" ++ zeroFilled (width - 1) (upperHexDigits i.natAbs)
  else zeroFilled width (upperHexDigits i.natAbs)

/-- A natural number in lower-case hexadecimal, at least `width` digits. -/
def lowerHex (width n : Nat) : String :=
  zeroFilled width (lowerHexDigits n)

/-- A text with blanks after it up to a width. -/
def leftAligned (width : Nat) (s : String) : String :=
  s ++ String.ofList (List.replicate (width - s.length) ' ')

end WindowMachine.Numeral
