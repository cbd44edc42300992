/-!
The exact remainder of two single-precision numbers: it has the sign of the dividend and a
smaller magnitude than the divisor, and no rounding takes place.
-/

namespace WindowMachine.Remainder

/-- The magnitude of a finite number as a natural number of units and the exponent of two of
the unit. -/
def units (bits : UInt32) : Nat × Int :=
  let field : Nat := (bits.toNat >>> 23) % 256
  let fraction : Nat := bits.toNat % 0x800000
  if field = 0 then (fraction, -149) else (0x800000 + fraction, (field : Int) - 150)

/-- The remainder of two magnitudes given in units, in the smaller of the two units. -/
def ofUnits (dividend divisor : Nat × Int) : Nat × Int :=
  let unit := min dividend.2 divisor.2
  let align (magnitude : Nat × Int) : Nat := magnitude.1 <<< (magnitude.2 - unit).toNat
  (align dividend % align divisor, unit)

/-- The remainder of `x` by `y`. It is not a number if `y` is zero, `x` is infinite or either
is not a number; an infinite `y` leaves `x` as it is. -/
def float32 (x y : Float32) : Float32 :=
  if y == 0 || x.isInf || x.isNaN || y.isNaN then 0 / 0
  else if y.isInf || x == 0 then x
  else
    let (count, unit) := ofUnits (units x.toBits) (units y.toBits)
    let magnitude := ((Float.ofNat count).scaleB unit).toFloat32
    if x < 0 then -magnitude else magnitude

end WindowMachine.Remainder
