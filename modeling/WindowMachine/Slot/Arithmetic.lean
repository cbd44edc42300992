import WindowMachine.Number.Power
import WindowMachine.Number.Remainder
import WindowMachine.Slot

/-!
Single-precision arithmetic on slots. Where the operands and the result are numbers it is the
arithmetic of those numbers. Results that are not are fixed as well, to the bit, because a
program can read them as integers.
-/

namespace WindowMachine.Slot

/-! ## Slots that hold no number -/

/-- Whether a slot, read as a single-precision number, holds none. Infinities count as
numbers. -/
def isUndefined (s : Slot) : Bool := decide (0x7F800000 < s &&& 0x7FFFFFFF)

/-- An undefined slot as an operation passes it on: its quiet bit is set, the others stay. -/
def quiet (s : Slot) : Slot := s ||| 0x00400000

/-- What a basic operation or a root gives if the result is no number, though the operands
are. -/
def invalid : Slot := 0xFFC00000

/-- The slot of a result that is worked out from numbers. -/
def ofResult (f : Float32) : Slot := if f.isNaN then invalid else ofFloat f

/-! ## Operations -/

/-- A basic operation. An undefined operand is passed on, the left one before the right one. -/
def basic (f : Float32 → Float32 → Float32) (a b : Slot) : Slot :=
  if a.isUndefined then a.quiet
  else if b.isUndefined then b.quiet
  else ofResult (f (asFloat a) (asFloat b))

/-- The root. -/
def root (a : Slot) : Slot :=
  if a.isUndefined then a.quiet else ofResult (asFloat a).toFloat.sqrt.toFloat32

/-- The remainder. It passes nothing on: there is one slot for all results that are no
number. -/
def remainder (a b : Slot) : Slot := ofFloat (Remainder.float32 (asFloat a) (asFloat b))

/-- The power, computed in double precision and rounded once. The first power passes the base
on, and a root of a negative number is what `root` makes of it; there is one slot for all
other results that are no number. -/
def power (a b : Slot) : Slot :=
  let x := (asFloat a).toFloat
  let y := (asFloat b).toFloat
  if a.isUndefined && y == 1 then a.quiet
  else if y.abs == 0.5 && x < 0 && !x.isInf then invalid
  else ofFloat (Power.float x y).toFloat32

end WindowMachine.Slot
