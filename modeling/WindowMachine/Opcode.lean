/-!
The operations of the machine, their byte, their mnemonic and the shape of their operands.
-/

namespace WindowMachine

/-- An instruction word, with the opcode in its lowest byte. -/
abbrev Word := UInt32

/-- How the upper 24 bits of a word are divided among operands. -/
inductive Format where
  /-- No operand. -/
  | bare
  /-- Up to three registers. -/
  | regs
  /-- A register and an unsigned 16-bit number. -/
  | regU16
  /-- A register and a signed 16-bit number. -/
  | regS16
  /-- An unsigned 24-bit number. -/
  | u24
  /-- A signed 24-bit number. -/
  | s24
  /-- A shape that no operation has. -/
  | other (code : UInt8)
  deriving DecidableEq, Repr

namespace Format

/-- The number of a shape. -/
def code : Format → UInt8
  | .bare => 0
  | .regs => 1
  | .regU16 => 2
  | .regS16 => 3
  | .u24 => 4
  | .s24 => 5
  | .other code => code

/-- The shape with a given number. -/
def ofCode (code : UInt8) : Format :=
  match code with
  | 0 => .bare
  | 1 => .regs
  | 2 => .regU16
  | 3 => .regS16
  | 4 => .u24
  | 5 => .s24
  | code => .other code

/-- Whether a number follows the registers. -/
def hasNumber : Format → Bool
  | .regU16 | .regS16 | .u24 | .s24 => true
  | _ => false

end Format

/-- What an instruction does. -/
inductive Operation where
  | add | sub | mul | div | mod | sqrt | exp
  | addImm | subImm | mulImm | divImm | modImm | sqrtImm | expImm
  | fadd | fsub | fmul | fdiv | fmod | fsqrt | fexp
  | push | pop | mov | loadGlobal | setGlobal | moveImm
  | cmp | gt | gte
  | jumpIf | jump | call | ret | loadRet | print | halt
  deriving DecidableEq, Repr

namespace Operation

/-- Every operation, in the order of its byte. -/
def all : List Operation :=
  [.add, .sub, .mul, .div, .mod, .sqrt, .exp,
   .addImm, .subImm, .mulImm, .divImm, .modImm, .sqrtImm, .expImm,
   .fadd, .fsub, .fmul, .fdiv, .fmod, .fsqrt, .fexp,
   .push, .pop, .mov, .loadGlobal, .setGlobal, .moveImm,
   .cmp, .gt, .gte,
   .jumpIf, .jump, .call, .ret, .loadRet, .print, .halt]

/-- The byte of an operation. -/
def byte : Operation → UInt8
  | .add => 0x00
  | .sub => 0x01
  | .mul => 0x02
  | .div => 0x03
  | .mod => 0x04
  | .sqrt => 0x05
  | .exp => 0x06
  | .addImm => 0x07
  | .subImm => 0x08
  | .mulImm => 0x09
  | .divImm => 0x0A
  | .modImm => 0x0B
  | .sqrtImm => 0x0C
  | .expImm => 0x0D
  | .fadd => 0x0E
  | .fsub => 0x0F
  | .fmul => 0x10
  | .fdiv => 0x11
  | .fmod => 0x12
  | .fsqrt => 0x13
  | .fexp => 0x14
  | .push => 0x15
  | .pop => 0x16
  | .mov => 0x17
  | .loadGlobal => 0x18
  | .setGlobal => 0x19
  | .moveImm => 0x1A
  | .cmp => 0x1B
  | .gt => 0x1C
  | .gte => 0x1D
  | .jumpIf => 0x1E
  | .jump => 0x1F
  | .call => 0x20
  | .ret => 0x21
  | .loadRet => 0x22
  | .print => 0x23
  | .halt => 0x24

/-- The operation of a byte; the bytes from `0x25` on have none. -/
def ofByte? (b : UInt8) : Option Operation :=
  all[b.toNat]?

/-- The name of an operation in assembly text. -/
def mnemonic : Operation → String
  | .add => "add"
  | .sub => "sub"
  | .mul => "mul"
  | .div => "div"
  | .mod => "mod"
  | .sqrt => "sqrt"
  | .exp => "exp"
  | .addImm => "addimm"
  | .subImm => "subimm"
  | .mulImm => "mulimm"
  | .divImm => "divimm"
  | .modImm => "modimm"
  | .sqrtImm => "sqrtimm"
  | .expImm => "expimm"
  | .fadd => "fadd"
  | .fsub => "fsub"
  | .fmul => "fmul"
  | .fdiv => "fdiv"
  | .fmod => "fmod"
  | .fsqrt => "fsqrt"
  | .fexp => "fexp"
  | .push => "push"
  | .pop => "pop"
  | .mov => "mov"
  | .loadGlobal => "loadg"
  | .setGlobal => "setg"
  | .moveImm => "movimm16"
  | .cmp => "cmp"
  | .gt => "gt"
  | .gte => "gte"
  | .jumpIf => "je"
  | .jump => "jmp"
  | .call => "call"
  | .ret => "ret"
  | .loadRet => "loadret"
  | .print => "print"
  | .halt => "end"

/-- The shape of an operation's operands. -/
def format : Operation → Format
  | .addImm | .subImm | .mulImm | .divImm | .modImm | .sqrtImm | .expImm
  | .loadGlobal | .setGlobal | .moveImm | .call => .regU16
  | .jumpIf => .regS16
  | .jump => .s24
  | .halt => .bare
  | _ => .regs

/-- How many registers an operation names. -/
def registers : Operation → Nat
  | .add | .sub | .mul | .div | .mod | .exp
  | .fadd | .fsub | .fmul | .fdiv | .fmod | .fexp => 3
  | .sqrt | .fsqrt | .mov | .cmp | .gt | .gte => 2
  | .jump | .call | .halt => 0
  | _ => 1

/-- How many operands an operation takes in assembly text. -/
def operands (op : Operation) : Nat :=
  op.registers + if op.format.hasNumber then 1 else 0

/-- Lower case, as far as it can lead to a letter of a mnemonic: the capitals of ASCII, the
dotted capital I and the Kelvin sign. -/
def lowerChar (c : Char) : Char :=
  if c.toNat = 0x130 then 'i'
  else if c.toNat = 0x212A then 'k'
  else c.toLower

/-- The operation of a mnemonic, written in any case. -/
def ofMnemonic? (name : String) : Option Operation :=
  let lower := name.toList.map lowerChar
  all.find? fun op => op.mnemonic.toList == lower

end Operation

/-- The opcode byte of an event that happened before any instruction was fetched. -/
def noOpcode : UInt8 := 0xFF

namespace Opcode

/-- The mnemonic of a byte, or a question mark. -/
def name (b : UInt8) : String :=
  match Operation.ofByte? b with
  | some op => op.mnemonic
  | none => "?"

/-- The operand shape of a byte; one without an operation counts as three registers. -/
def format (b : UInt8) : Format :=
  match Operation.ofByte? b with
  | some op => op.format
  | none => .regs

/-- How many registers a byte names. -/
def registers (b : UInt8) : Nat :=
  match Operation.ofByte? b with
  | some op => op.registers
  | none => 0

end Opcode

end WindowMachine
