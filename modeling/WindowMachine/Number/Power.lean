import WindowMachine.Number.Exponential

/-!
Powers of double-precision numbers. The whole part of the exponent is worked off by repeated
squaring on a fraction and a power of two, which are kept apart so that no intermediate value
overflows; what is left of the exponent goes through the logarithm.
-/

namespace WindowMachine.Power

/-- Whether the sign bit is set, as it is for `-0`. -/
def isNegative (x : Float) : Bool := x.toBits >>> 63 == 1

def infinity : Float := 1 / 0

/-- Whether a number is an odd integer. Beyond `2 ^ 53` every number counts as even. -/
def isOddInteger (y : Float) : Bool :=
  if 9007199254740992.0 ≤ y.abs then false
  else y.abs.floor == y.abs && y.abs.toUInt64 % 2 == 1

/-- A power of zero, `negative` being the sign of the zero. -/
def ofZero (negative : Bool) (y : Float) : Float :=
  if y < 0 then
    if negative && isOddInteger y then -infinity else infinity
  else if negative && isOddInteger y then -0.0
  else 0

/-- A power with an exponent too large for its parity to matter. -/
def ofHuge (x : Float) (growing : Bool) : Float :=
  if x == -1 then 1
  else if (x.abs < 1) == growing then 0
  else infinity

/-- Multiplies `result * 2 ^ scale` by the `n`-th power of `base * 2 ^ baseScale`. A scale past
4096 either way already decides the outcome, so the squaring stops there. -/
def squareAndMultiply :
    Nat → Nat → Float → Int → Float → Int → Float × Int
  | 0, _, _, _, result, scale => (result, scale)
  | fuel + 1, n, base, baseScale, result, scale =>
    if n = 0 then (result, scale)
    else if baseScale < -4096 || 4096 < baseScale then (result, scale + baseScale)
    else
      let (result, scale) :=
        if n % 2 = 1 then (result * base, scale + baseScale) else (result, scale)
      let square := base * base
      if square < 0.5 then
        squareAndMultiply fuel (n / 2) (square + square) (2 * baseScale - 1) result scale
      else
        squareAndMultiply fuel (n / 2) square (2 * baseScale) result scale

/-- A power of a finite number other than zero and one, with a finite exponent. -/
def finite (x y : Float) : Float :=
  let whole := y.abs.floor
  let part := y.abs - whole
  if part != 0 && x < 0 then 0 / 0
  else if 9223372036854775808.0 ≤ whole then ofHuge x (decide (0 < y))
  else
    let (whole, part) := if 0.5 < part then (whole + 1, part - 1) else (whole, part)
    let start :=
      if part != 0 then Exponential.exponential (part * Exponential.logarithm x) else 1
    let (fraction, exponent) := x.frExp
    let (result, scale) :=
      squareAndMultiply 64 whole.toUInt64.toNat fraction exponent start 0
    if y < 0 then (1 / result).scaleB (-scale) else result.scaleB scale

/-- The power `x ^ y`. -/
def float (x y : Float) : Float :=
  if y == 0 || x == 1 then 1
  else if y == 1 then x
  else if x.isNaN || y.isNaN then 0 / 0
  else if x == 0 then ofZero (isNegative x) y
  else if y.isInf then ofHuge x (decide (0 < y))
  else if x.isInf then
    if x < 0 then ofZero true (-y) else if y < 0 then 0 else infinity
  else if y == 0.5 then x.sqrt
  else if y == -0.5 then 1 / x.sqrt
  else finite x y

end WindowMachine.Power
