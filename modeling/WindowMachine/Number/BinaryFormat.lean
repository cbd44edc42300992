import WindowMachine.Number.Decimal

/-!
Binary floating-point formats and the rounding of decimal numbers to them, to the nearest
number of the format and to the even one of two.
-/

namespace WindowMachine

/-- A binary format: a magnitude is the bits of its exponent followed by those of its
fraction. -/
structure BinaryFormat where
  fractionBits : Nat
  /-- The exponent of the last place of the smallest numbers. -/
  least : Int
  /-- The bits of positive infinity; every finite magnitude lies below. -/
  infinity : Nat
  deriving DecidableEq, Repr

namespace BinaryFormat

/-- Single precision, of 32 bits. -/
def single : BinaryFormat := ⟨23, -149, 0x7F800000⟩

/-- Double precision, of 64 bits. -/
def double : BinaryFormat := ⟨52, -1074, 0x7FF0000000000000⟩

/-- The natural number nearest to a quotient, a tie going to the even one. -/
def nearest (num den : Nat) : Nat :=
  let quotient := num / den
  let twice := 2 * (num % den)
  if den < twice || (twice == den && quotient % 2 == 1) then quotient + 1 else quotient

/-- A positive quotient counted in units of `2 ^ exponent`, to the nearest unit. -/
def inUnits (num den : Nat) (exponent : Int) : Nat :=
  if 0 ≤ exponent then nearest num (den <<< exponent.toNat)
  else nearest (num <<< (-exponent).toNat) den

/-- The exponent of the last place of a quotient: one bit more than the fraction has, or the
least exponent of the format where fewer are left. -/
def unitExponent (f : BinaryFormat) (num den : Nat) : Int :=
  let guess : Int := (num.log2 : Int) - (den.log2 : Int) - (f.fractionBits : Int)
  let below :=
    if 0 ≤ guess then num < den <<< (guess.toNat + f.fractionBits)
    else num <<< (-guess).toNat < den <<< f.fractionBits
  max f.least (if below then guess - 1 else guess)

/-- The bits nearest to a quotient, or `none` if it lies beyond every finite number. -/
def ofRatio? (f : BinaryFormat) (num den : Nat) : Option Nat :=
  if num = 0 then some 0
  else
    let exponent := f.unitExponent num den
    let bits := ((exponent - f.least).toNat <<< f.fractionBits) + inUnits num den exponent
    if bits < f.infinity then some bits else none

/-- The bits nearest to `mantissa * 10 ^ exponent`. Numbers far outside the range of the
formats are settled by the position of their first digit. -/
def ofScaled? (f : BinaryFormat) (mantissa : Nat) (exponent : Int) : Option Nat :=
  if mantissa = 0 then some 0
  else
    let first : Int := ((Nat.toDigits 10 mantissa).length : Int) + exponent
    if 400 < first then none
    else if first < -400 then some 0
    else if 0 ≤ exponent then f.ofRatio? (mantissa * Nat.pow 10 exponent.toNat) 1
    else f.ofRatio? mantissa (Nat.pow 10 (-exponent).toNat)

/-- The bits nearest to a decimal number. Its first nineteen digits settle it if only zeros
follow, or if it rounds the same way with one more in the last of them; what they leave open is
settled by the first eight hundred digits. -/
def ofDecimal? (f : BinaryFormat) (d : Decimal) : Option Nat :=
  let front := d.digits.take 19
  let exponent := d.point - (front.length : Int)
  let low := f.ofScaled? (digitsValue front) exponent
  if (d.digits.drop 19).all (· == '0') || low == f.ofScaled? (digitsValue front + 1) exponent
  then low
  else
    let kept := d.shortened 800
    f.ofScaled? (digitsValue kept.digits) kept.exponent

end BinaryFormat

end WindowMachine
