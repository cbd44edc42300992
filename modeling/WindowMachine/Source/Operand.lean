import WindowMachine.Number.BinaryFormat
import WindowMachine.Number.Integer
import WindowMachine.Source.Line

/-!
The values of operands: register numbers, integers in several bases and single-precision
numbers.
-/

namespace WindowMachine.Source

/-- Why an operand has no value of the kind asked for. -/
inductive OperandFault where
  | expectedRegister (text : String)
  | badRegister (text : String)
  | expectedInteger (text : String)
  | expectedNumber (text : String)
  | badInteger (text : String) (fault : Integer.Fault)
  | badFloat (text : String) (fault : Integer.Fault)
  deriving DecidableEq, Repr

def OperandFault.message : OperandFault → String
  | .expectedRegister text => "expected register, got " ++ text
  | .badRegister text => "invalid register " ++ text
  | .expectedInteger text => "expected integer, got " ++ text
  | .expectedNumber text => "expected number, got " ++ text
  | .badInteger text fault =>
    "strconv.ParseInt: parsing " ++ Text.quoted text ++ ": " ++ fault.message
  | .badFloat text fault =>
    "strconv.ParseFloat: parsing " ++ Text.quoted text ++ ": " ++ fault.message

/-! ## Operands -/

namespace Operand

/-- The number of a register operand. -/
def registerIndex (o : Operand) : Except OperandFault UInt8 :=
  match o.kind with
  | .register =>
    let n := digitsValue (o.text.toList.drop 1)
    if n ≤ 255 then .ok (UInt8.ofNat n) else .error (.badRegister o.text)
  | _ => .error (.expectedRegister o.text)

/-- The value of an integer operand. -/
def intValue (o : Operand) : Except OperandFault Int :=
  match o.kind with
  | .int =>
    match Integer.read o.text.toList with
    | .ok n => .ok n
    | .error fault => .error (.badInteger o.text fault)
  | _ => .error (.expectedInteger o.text)

/-- The bits of the single-precision number nearest to a floating-point operand. -/
def floatBits (o : Operand) : Except OperandFault UInt32 :=
  let (negative, unsigned) := Integer.signOf o.text.toList
  match BinaryFormat.single.ofDecimal? (Decimal.ofNumeral unsigned) with
  | some bits => .ok (UInt32.ofNat (if negative then 0x80000000 + bits else bits))
  | none => .error (.badFloat o.text .outOfRange)

/-- The value of a number operand; one with a point is rounded to single precision. -/
def floatValue (o : Operand) : Except OperandFault Float :=
  match o.kind with
  | .float => do return (Float32.ofBits (← o.floatBits)).toFloat
  | .int => do return (Int64.ofInt (← o.intValue)).toFloat
  | _ => .error (.expectedNumber o.text)

/-- The name that a symbol operand is. -/
def symbol? (o : Operand) : Option String :=
  match o.kind with
  | .symbol => some o.text
  | _ => none

end Operand

end WindowMachine.Source
