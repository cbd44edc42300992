import WindowMachine.Capacities
import WindowMachine.Frame
import WindowMachine.Opcode
import WindowMachine.Text.Quoted

/-!
What can go wrong outside of source text: conditions with a fixed wording and status code,
and failures, which are conditions together with what led to them.
-/

namespace WindowMachine

/-- The conditions that a caller can ask for. -/
inductive Condition where
  | indexOutOfRange
  | noProgram
  | unknownOpcode
  | outOfRange
  | callStackOverflow
  | callStackUnderflow
  | divisionByZero
  | unknownMethod
  | budgetExhausted
  | closed
  | notImage
  | badVersion
  | badChecksum
  | cancelled
  deriving DecidableEq, Repr

namespace Condition

def message : Condition → String
  | .indexOutOfRange => "index out of range"
  | .noProgram => "no program"
  | .unknownOpcode => "unknown opcode"
  | .outOfRange => "out of range access"
  | .callStackOverflow => "call stack overflow"
  | .callStackUnderflow => "call stack underflow"
  | .divisionByZero => "division by zero"
  | .unknownMethod => "unknown method"
  | .budgetExhausted => "instruction budget exhausted"
  | .closed => "vm is closed"
  | .notImage => "image: not a YAVM image"
  | .badVersion => "image: unsupported version"
  | .badChecksum => "image: checksum mismatch"
  | .cancelled => "context canceled"

/-- The conditions of the machine itself, in the order of their status code. -/
def ofMachine : List Condition :=
  [.indexOutOfRange, .noProgram, .unknownOpcode, .outOfRange, .callStackOverflow,
   .callStackUnderflow, .divisionByZero, .unknownMethod, .budgetExhausted, .closed]

/-- The status code of everything that the machine itself does not report. -/
def otherCode : Nat := 99

/-- The status code of a condition: 1 to 10 for those of the machine. -/
def code (c : Condition) : Nat :=
  match ofMachine.idxOf? c with
  | some i => i + 1
  | none => otherCode

/-- The wording of a status code. -/
def describe (code : Int64) : String :=
  if code = 0 then "no error"
  else
    match ofMachine.find? fun c => Int64.ofNat c.code = code with
    | some c => c.message
    | none => "unknown error " ++ Numeral.ofInt code.toInt

end Condition

/-- What went wrong, with the values that led to it. -/
inductive Failure where
  /-- A condition with nothing to add. -/
  | plain (condition : Condition)
  /-- Capacities that no machine can have. -/
  | unusable (defect : Capacities.Defect)
  /-- A method index outside the table. -/
  | methodIndex (index : Int64) (capacity : Nat)
  /-- A method with a negative field. -/
  | descriptor (method : Method)
  /-- An index outside the stack. -/
  | slotIndex (index : Int64) (capacity : Nat)
  /-- An index outside the global store. -/
  | globalIndex (index : Int64) (capacity : Nat)
  /-- A register outside the window of its frame. -/
  | register (r : UInt8) (base limit : Int64)
  /-- An instruction that names a global outside the store. -/
  | globalOperand (index : Int32) (capacity : Nat)
  /-- A call with fewer values on the stack than the method takes. -/
  | arguments (wanted held : Int64)
  /-- A call whose locals do not fit. -/
  | window (locals top : Int64)
  /-- A push beyond the end of the stack. -/
  | push (slot : Int64) (capacity : Nat)
  /-- A pop from an empty stack. -/
  | pop (slot : Int64)
  /-- A next address outside the program. -/
  | fetch (pc : Int64) (words : Nat)
  /-- A call that would suspend one frame too many. -/
  | depth (capacity : Nat)
  /-- A call of a method that nobody registered. -/
  | noMethod (index : Int64)
  /-- A word whose opcode has no operation. -/
  | opcode (byte : UInt8)
  /-- A run that used up its instructions. -/
  | budget (steps : Nat)
  /-- A line that could not be printed. -/
  | output (reason : String)
  /-- An image of another version. -/
  | version (found : Int64)
  /-- Image bytes that are no readable item or not of the right form. -/
  | undecodable
  /-- A failure while registering a named method. -/
  | inMethod (name : String) (cause : Failure)
  /-- A failure while executing the instruction at an address. -/
  | fault (pc : Int64) (opcode : UInt8) (cause : Failure)
  /-- A failure while reading a file. -/
  | inFile (path : String) (cause : Failure)
  /-- A machine that was lost. -/
  | broken (breakdown : Breakdown)
  /-- Anything else. -/
  | other (text : String)
  deriving DecidableEq, Repr

namespace Failure

private def withDetail (c : Condition) (detail : String) : String :=
  c.message ++ ": " ++ detail

private def withCapacity (what : String) (index : Int) (capacity : Nat) : String :=
  what ++ " " ++ Numeral.ofInt index ++ " (capacity " ++ Numeral.ofNat capacity ++ ")"

/-- The condition behind a failure, if it is one that a caller can ask for. -/
def condition? : Failure → Option Condition
  | .plain c => some c
  | .unusable _ => none
  | .methodIndex .. | .descriptor _ | .slotIndex .. | .globalIndex .. => some .indexOutOfRange
  | .register .. | .globalOperand .. | .arguments .. | .window .. | .push .. | .pop _
  | .fetch .. => some .outOfRange
  | .depth _ => some .callStackOverflow
  | .noMethod _ => some .unknownMethod
  | .opcode _ => some .unknownOpcode
  | .budget _ => some .budgetExhausted
  | .output _ => none
  | .version _ => some .badVersion
  | .undecodable => none
  | .inMethod _ cause => cause.condition?
  | .fault _ _ cause => cause.condition?
  | .inFile _ cause => cause.condition?
  | .broken _ => none
  | .other _ => none

/-- The status code of a failure. -/
def code (f : Failure) : Nat :=
  match f.condition? with
  | some c => c.code
  | none => Condition.otherCode

def message : Failure → String
  | .plain c => c.message
  | .unusable d => d.message
  | .methodIndex i n => withDetail .indexOutOfRange (withCapacity "method" i.toInt n)
  | .descriptor m => withDetail .indexOutOfRange ("invalid method descriptor " ++ m.text)
  | .slotIndex i n => withDetail .indexOutOfRange (withCapacity "stack slot" i.toInt n)
  | .globalIndex i n => withDetail .indexOutOfRange (withCapacity "global" i.toInt n)
  | .register r base limit =>
    withDetail .outOfRange
      ("register r" ++ Numeral.ofNat r.toNat ++ " (bp=" ++ Numeral.ofInt base.toInt ++
        ", window ends at " ++ Numeral.ofInt limit.toInt ++ ")")
  | .globalOperand i n => withDetail .outOfRange (withCapacity "global" i.toInt n)
  | .arguments wanted held =>
    withDetail .outOfRange
      (Numeral.ofInt wanted.toInt ++ " arguments but only " ++ Numeral.ofInt held.toInt ++
        " stack values")
  | .window locals top =>
    withDetail .outOfRange
      ("frame of " ++ Numeral.ofInt locals.toInt ++ " locals overflows stack at " ++
        Numeral.ofInt top.toInt)
  | .push slot n => withDetail .outOfRange (withCapacity "push to slot" slot.toInt n)
  | .pop slot => withDetail .outOfRange ("pop from slot " ++ Numeral.ofInt slot.toInt)
  | .fetch pc words =>
    withDetail .outOfRange
      ("pc " ++ Numeral.ofInt pc.toInt ++ " outside program of " ++ Numeral.ofNat words ++
        " words")
  | .depth n => withDetail .callStackOverflow ("depth " ++ Numeral.ofNat n)
  | .noMethod i => withDetail .unknownMethod (Numeral.ofInt i.toInt)
  | .opcode b => withDetail .unknownOpcode ("0x" ++ Numeral.upperHex 2 b.toNat)
  | .budget steps =>
    Condition.budgetExhausted.message ++ " after " ++ Numeral.ofNat steps ++ " instructions"
  | .output reason => "print: " ++ reason
  | .version v => withDetail .badVersion (Numeral.ofInt v.toInt)
  | .undecodable => "image: unmarshal: malformed data"
  | .inMethod name cause => "method " ++ Text.quoted name ++ ": " ++ cause.message
  | .fault pc op cause =>
    "fault at " ++ Numeral.padded 4 pc.toInt ++ " (" ++ Opcode.name op ++ "): " ++ cause.message
  | .inFile path cause => path ++ ": " ++ cause.message
  | .broken b => b.message
  | .other text => text

end Failure

end WindowMachine
