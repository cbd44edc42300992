import WindowMachine.Number.Integer

/-!
Decimal numerals with a point and an exponent, as digits and the place of the point.
-/

namespace WindowMachine

/-- The number that decimal digits spell. -/
def digitsValue (digits : List Char) : Nat :=
  digits.foldl (fun n c => 10 * n + (c.toNat - '0'.toNat)) 0

/-- An unsigned decimal number, `0.digits * 10 ^ point`. -/
structure Decimal where
  /-- The digits from the first one on that is not zero. -/
  digits : List Char
  /-- How many of the digits are written before the point. -/
  whole : Nat
  point : Int
  deriving DecidableEq, Repr

namespace Decimal

/-- The number with digits before and after its point and a power of ten. -/
def ofParts (whole fraction : List Char) (exponent : Int) : Decimal :=
  match whole.dropWhile (· == '0') with
  | [] =>
    let zeros := (fraction.takeWhile (· == '0')).length
    { digits := fraction.dropWhile (· == '0'), whole := 0, point := exponent - (zeros : Int) }
  | digits =>
    { digits := digits ++ fraction, whole := digits.length,
      point := exponent + (digits.length : Int) }

/-- The power of ten that the last of the digits counts. -/
def exponent (d : Decimal) : Int := d.point - (d.digits.length : Int)

/-- The number that is read when only so many digits are kept. Anything but zeros among the
other digits leaves a one behind, so that no tie is made of it. Digits before the point that
are not kept do not move the point. -/
def shortened (count : Nat) (d : Decimal) : Decimal :=
  let rest := d.digits.drop count
  let trace := if rest.all (· == '0') then [] else ['1']
  { digits := d.digits.take count ++ trace, whole := min d.whole count,
    point := d.point - ((d.whole - count : Nat) : Int) }

/-- The number that the digits of an exponent spell. Once it has five digits, those that follow
are not looked at. -/
def exponentValue (digits : List Char) : Nat :=
  digits.foldl (fun n c => if n < 10000 then 10 * n + (c.toNat - '0'.toNat) else n) 0

/-- The value of what stands after the mark of an exponent. -/
def signedExponent (text : List Char) : Int :=
  let (negative, digits) := Integer.signOf text
  if negative then -(exponentValue digits : Int) else exponentValue digits

/-- Reads an unsigned numeral of the form `digits.digits` with an optional exponent. -/
def ofNumeral (text : List Char) : Decimal :=
  let afterPoint := (text.dropWhile Char.isDigit).drop 1
  ofParts (text.takeWhile Char.isDigit) (afterPoint.takeWhile Char.isDigit)
    (signedExponent ((afterPoint.dropWhile Char.isDigit).drop 1))

end Decimal

end WindowMachine
