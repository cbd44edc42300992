import WindowMachine.Text.Numeral

/-!
Slots: the 32-bit patterns that registers and the stack hold. A slot has no type; the
instruction that reads it decides whether it is an integer or a single-precision number.
-/

namespace WindowMachine

/-- One entry of the stack. -/
abbrev Slot := UInt32

namespace Slot

/-- The slot of an integer. -/
def ofInt (v : Int32) : Slot := v.toUInt32

/-- The slot of a single-precision number. -/
def ofFloat (f : Float32) : Slot := f.toBits

/-- A slot read as an integer. -/
def asInt (s : Slot) : Int32 := s.toInt32

/-- A slot read as a single-precision number. -/
def asFloat (s : Slot) : Float32 := Float32.ofBits s

/-- A slot as an integer and as bits. -/
def text (s : Slot) : String :=
  Numeral.ofInt (asInt s).toInt ++ " (0x" ++ Numeral.upperHex 8 s.toNat ++ ")"

end Slot

end WindowMachine
