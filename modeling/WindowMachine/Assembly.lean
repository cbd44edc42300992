import WindowMachine.Image
import WindowMachine.Source.Operand

/-!
Assembly: lines of source text become an image. The first pass gives labels and methods their
addresses and collects the data directives; the second encodes instructions; last, the entry
address is settled. The first fault met in this order is the one reported.
-/

namespace WindowMachine

open Source (Operand Phrase Line Statement OperandFault Malformed)

/-- What is wrong with a line. -/
inductive Complaint where
  | duplicateLabel (name : String)
  | entryOperands
  | methodOperands
  | methodName (got : String)
  | duplicateMethod (name : String)
  | methodIndexTaken (index : Int64) (owner : String)
  | dataOperands (directive : String)
  | unknownDirective (name : String)
  | unknownInstruction (mnemonic : String)
  | operandCount (op : Operation) (got : Nat)
  | operand (fault : OperandFault)
  | outOfRange (value low high : Int)
  | unknownMethod (name : String)
  | undefinedLabel (name : String)
  | labelTooFar (name : String) (offset : Int)
  | undefinedEntry (name : String)
  deriving DecidableEq, Repr

def Complaint.message : Complaint → String
  | .duplicateLabel name => "duplicate label " ++ Text.quoted name
  | .entryOperands => ".entry takes one operand"
  | .methodOperands => ".method takes name, args, locals and an optional index"
  | .methodName got => "method name expected, got " ++ got
  | .duplicateMethod name => "duplicate method " ++ Text.quoted name
  | .methodIndexTaken index owner =>
    "method index " ++ Numeral.ofInt index.toInt ++ " already used by " ++ Text.quoted owner
  | .dataOperands directive => directive ++ " takes an index and a value"
  | .unknownDirective name => "unknown directive " ++ name
  | .unknownInstruction mnemonic => "unknown instruction " ++ Text.quoted mnemonic
  | .operandCount op got =>
    op.mnemonic ++ " takes " ++ Numeral.ofNat op.operands ++ " operand(s), got " ++
      Numeral.ofNat got
  | .operand fault => fault.message
  | .outOfRange value low high =>
    "value " ++ Numeral.ofInt value ++ " out of range [" ++ Numeral.ofInt low ++ ", " ++
      Numeral.ofInt high ++ "]"
  | .unknownMethod name => "unknown method " ++ Text.quoted name
  | .undefinedLabel name => "undefined label " ++ Text.quoted name
  | .labelTooFar name offset =>
    "label " ++ Text.quoted name ++ " is out of jump range (" ++ Numeral.ofInt offset ++ ")"
  | .undefinedEntry name => "undefined entry " ++ Text.quoted name

/-- Why a source has no image. -/
inductive SourceFault where
  /-- The text has no lines. -/
  | malformed (why : Malformed)
  /-- A line cannot be assembled. -/
  | onLine (line : Nat) (complaint : Complaint)
  deriving DecidableEq, Repr

/-- The wording of a source fault; `file` is the name of the source, perhaps empty. -/
def SourceFault.message (file : String) : SourceFault → String
  | .malformed why => why.message file
  | .onLine line complaint =>
    (if file = "" then "line " else file ++ ":") ++ Numeral.ofNat line ++ ": " ++
      complaint.message

namespace Assembly

/-! ## Operands -/

/-- An integer operand within bounds. -/
def integer (o : Operand) (low high : Int) : Except SourceFault Int :=
  match o.intValue with
  | .error fault => .error (.onLine o.pos.line (.operand fault))
  | .ok n =>
    if n < low ∨ high < n then .error (.onLine o.pos.line (.outOfRange n low high))
    else .ok n

/-- An operand from zero to a bound. -/
def count (o : Operand) (high : Int) : Except SourceFault Int :=
  integer o 0 high

/-- A register operand. -/
def register (o : Operand) : Except SourceFault UInt8 :=
  match o.registerIndex with
  | .error fault => .error (.onLine o.pos.line (.operand fault))
  | .ok r => .ok r

/-! ## First pass -/

def maxInt32 : Int := 0x7FFFFFFF
def minInt32 : Int := -0x80000000
def maxUInt32 : Int := 0xFFFFFFFF

/-- What the first pass knows after some lines. -/
structure Layout where
  /-- The address of the next instruction. -/
  address : Nat := 0
  labels : List (String × Nat) := []
  methods : Array NamedMethod := #[]
  globals : Array GlobalSeed := #[]
  stack : Array StackSeed := #[]
  /-- The operand of the last entry directive. -/
  entry : Option Operand := none
  deriving DecidableEq, Repr

namespace Layout

/-- The address of a label. -/
def label? (l : Layout) (name : String) : Option Nat := l.labels.lookup name

/-- The method of a name. -/
def method? (l : Layout) (name : String) : Option NamedMethod :=
  l.methods.find? fun m => m.name == name

/-- The index that a method gets if it names none. -/
def nextIndex (l : Layout) : Int64 :=
  match l.methods.back? with
  | some m => m.index + 1
  | none => 0

/-- Declares a label at the current address. -/
def declare (l : Layout) (line : Nat) (name : String) : Except SourceFault Layout :=
  match l.label? name with
  | some _ => .error (.onLine line (.duplicateLabel name))
  | none => .ok { l with labels := (name, l.address) :: l.labels }

/-- The method that a directive with its operands describes. -/
def describe (l : Layout) (p : Phrase) (name args locals : Operand) (index : Option Operand) :
    Except SourceFault NamedMethod :=
  match name.symbol? with
  | none => .error (.onLine p.pos.line (.methodName name.text))
  | some symbol =>
    match l.method? symbol with
    | some _ => .error (.onLine p.pos.line (.duplicateMethod symbol))
    | none => do
      let args ← count args maxU16
      let locals ← count locals maxU16
      let index ←
        match index with
        | some o => (count o maxU16).map Int64.ofInt
        | none => pure l.nextIndex
      return ⟨symbol, index, Int64.ofNat l.address, Int64.ofInt args, Int64.ofInt locals⟩

/-- Adds a method whose index is still free. -/
def register (l : Layout) (line : Nat) (m : NamedMethod) : Except SourceFault Layout :=
  match l.methods.find? fun other => other.index == m.index with
  | some owner => .error (.onLine line (.methodIndexTaken m.index owner.name))
  | none => .ok { l with methods := l.methods.push m }

/-- A method directive: name, arguments, locals and perhaps an index. -/
def methodDirective (l : Layout) (p : Phrase) : Except SourceFault Layout :=
  match p.operands with
  | [name, args, locals] => do l.register p.pos.line (← l.describe p name args locals none)
  | [name, args, locals, index] => do
    l.register p.pos.line (← l.describe p name args locals (some index))
  | _ => .error (.onLine p.pos.line .methodOperands)

/-- The index and the bits of a data directive. -/
def data (p : Phrase) : Except SourceFault (Int64 × Slot) :=
  match p.operands with
  | [index, value] => do
    let index ← count index maxInt32
    if value.kind = .float then
      match value.floatBits with
      | .error fault => throw (.onLine value.pos.line (.operand fault))
      | .ok bits => return (Int64.ofInt index, bits)
    else
      let n ← integer value minInt32 maxUInt32
      return (Int64.ofInt index, UInt32.ofInt n)
  | _ => .error (.onLine p.pos.line (.dataOperands p.name))

/-- A directive. -/
def directive (l : Layout) (p : Phrase) : Except SourceFault Layout :=
  if p.name = ".entry" then
    match p.operands with
    | [o] => .ok { l with entry := some o }
    | _ => .error (.onLine p.pos.line .entryOperands)
  else if p.name = ".method" then l.methodDirective p
  else if p.name = ".global" then do
    let (index, bits) ← data p
    return { l with globals := l.globals.push ⟨index, Slot.asInt bits⟩ }
  else if p.name = ".stack" then do
    let (index, bits) ← data p
    return { l with stack := l.stack.push ⟨index, bits⟩ }
  else .error (.onLine p.pos.line (.unknownDirective p.name))

/-- One line. -/
def line (l : Layout) (line : Line) : Except SourceFault Layout := do
  let l ←
    match line.label with
    | some name => l.declare line.pos.line name
    | none => pure l
  match line.statement with
  | some (.directive p) => l.directive p
  | some (.instruction _) => return { l with address := l.address + 1 }
  | none => return l

/-- All lines. -/
def ofLines (lines : List Line) : Except SourceFault Layout :=
  lines.foldlM Layout.line {}

end Layout

/-! ## Second pass -/

/-- The offset of a jump at an address: to a label, or as written. -/
def offset (l : Layout) (address : Nat) (o : Operand) (low high : Int) :
    Except SourceFault Int :=
  match o.symbol? with
  | none => integer o low high
  | some name =>
    match l.label? name with
    | none => .error (.onLine o.pos.line (.undefinedLabel name))
    | some target =>
      let n := (target : Int) - ((address : Int) + 1)
      if n < low ∨ high < n then .error (.onLine o.pos.line (.labelTooFar name n))
      else .ok n

/-- The unsigned number of an instruction; a call may name its method. -/
def unsigned (l : Layout) (op : Operation) (o : Operand) : Except SourceFault UInt16 :=
  match op, o.symbol? with
  | .call, some name =>
    match l.method? name with
    | none => .error (.onLine o.pos.line (.unknownMethod name))
    | some m => .ok (UInt16.ofInt m.index.toInt)
  | _, _ => (count o maxU16).map UInt16.ofInt

/-- The word of an operation whose operands have the right number: the registers first, and
then the number if there is one. -/
def wordOf (l : Layout) (address : Nat) (op : Operation) (operands : List Operand) :
    Except SourceFault Word := do
  let regs ← (operands.take op.registers).mapM register
  let reg (n : Nat) : UInt8 := regs.getD n 0
  match op.format, operands.drop op.registers with
  | .regU16, o :: _ => return Word.ofRegU16 op.byte (reg 0) (← unsigned l op o)
  | .regS16, o :: _ =>
    return Word.ofRegS16 op.byte (reg 0) (Int16.ofInt (← offset l address o minS16 maxS16))
  | .u24, o :: _ => return Word.ofU24 op.byte (UInt32.ofInt (← count o maxU24))
  | .s24, o :: _ =>
    return Word.ofS24 op.byte (Int32.ofInt (← offset l address o minS24 maxS24))
  | .bare, _ => return op.byte.toUInt32
  | _, _ => return Word.ofRegs op.byte (reg 0) (reg 1) (reg 2)

/-- The word of the instruction at an address. -/
def encode (l : Layout) (address : Nat) (p : Phrase) : Except SourceFault Word :=
  match Operation.ofMnemonic? p.name with
  | none => .error (.onLine p.pos.line (.unknownInstruction p.name))
  | some op =>
    if p.operands.length ≠ op.operands then
      .error (.onLine p.pos.line (.operandCount op p.operands.length))
    else wordOf l address op p.operands

/-- The words of instructions after those in `seen`. -/
def encodeFrom (l : Layout) (seen : Array Word) :
    List Phrase → Except SourceFault (Array Word)
  | [] => .ok seen
  | p :: rest =>
    match encode l seen.size p with
    | .error e => .error e
    | .ok w => encodeFrom l (seen.push w) rest

/-- The instructions of some lines, in order. -/
def instructions (lines : List Line) : List Phrase :=
  lines.filterMap Line.instruction?

/-! ## Entry and image -/

/-- The entry address: a label, a method or a number if the source gives one, else the label
`main`, else zero. -/
def entryAddress (l : Layout) : Except SourceFault Int64 :=
  match l.entry with
  | none => .ok (Int64.ofNat ((l.label? "main").getD 0))
  | some o =>
    match o.symbol? with
    | none => (count o maxInt32).map Int64.ofInt
    | some name =>
      match l.label? name, l.method? name with
      | some address, _ => .ok (Int64.ofNat address)
      | none, some m => .ok m.entry
      | none, none => .error (.onLine o.pos.line (.undefinedEntry name))

/-- The image of some lines. -/
def ofLines (lines : List Line) : Except SourceFault Image := do
  let l ← Layout.ofLines lines
  let code ← encodeFrom l #[] (instructions lines)
  let entry ← entryAddress l
  return {
    magic := Image.expectedMagic
    version := Image.expectedVersion
    entry := entry
    code := if code.isEmpty then none else some code
    methods := l.methods
    globals := l.globals
    stack := l.stack
    checksum := Vector.replicate 32 0 }

end Assembly

/-- The image of a source text. -/
def assemble (source : List UInt8) : Except SourceFault Image :=
  match Source.parse source with
  | .error why => .error (.malformed why)
  | .ok lines => Assembly.ofLines lines

end WindowMachine
