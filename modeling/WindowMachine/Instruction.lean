import WindowMachine.Opcode
import WindowMachine.Text.Numeral

/-!
Instructions: a word taken apart into opcode, registers and number, put together again, and
written as assembly text. Signed numbers are stored with a bias, so that the least one is zero.
-/

namespace WindowMachine

/-- A word taken apart. The fields that its format does not use are zero. -/
structure Instruction where
  opcode : UInt8
  format : Format
  a : UInt8
  b : UInt8
  c : UInt8
  imm : Int32
  deriving DecidableEq, Repr

/-! ## Bounds of the number fields -/

def maxU16 : Int := 0xFFFF
def minS16 : Int := -0x8000
def maxS16 : Int := 0x7FFF
def maxU24 : Int := 0xFFFFFF
def minS24 : Int := -0x800000
def maxS24 : Int := 0x7FFFFF

/-- What is added to a signed 16-bit number before it is stored. -/
def bias16 : Int32 := 0x8000

/-- What is added to a signed 24-bit number before it is stored. -/
def bias24 : Int32 := 0x800000

/-! ## Words from fields -/

namespace Word

/-- A word of three registers. -/
def ofRegs (opcode a b c : UInt8) : Word :=
  opcode.toUInt32 ||| (a.toUInt32 <<< 8) ||| (b.toUInt32 <<< 16) ||| (c.toUInt32 <<< 24)

/-- A word of a register and an unsigned number. -/
def ofRegU16 (opcode a : UInt8) (imm : UInt16) : Word :=
  opcode.toUInt32 ||| (a.toUInt32 <<< 8) ||| (imm.toUInt32 <<< 16)

/-- A word of a register and a signed number. -/
def ofRegS16 (opcode a : UInt8) (imm : Int16) : Word :=
  ofRegU16 opcode a (imm.toInt32 + bias16).toUInt32.toUInt16

/-- A word of an unsigned number, of which the lower 24 bits are kept. -/
def ofU24 (opcode : UInt8) (imm : UInt32) : Word :=
  opcode.toUInt32 ||| ((imm &&& 0xFFFFFF) <<< 8)

/-- A word of a signed number. -/
def ofS24 (opcode : UInt8) (imm : Int32) : Word :=
  ofU24 opcode (imm + bias24).toUInt32

end Word

namespace Instruction

/-- Takes a word apart. Every word has an instruction, if not one that can be executed. -/
def decode (w : Word) : Instruction :=
  let opcode := w.toUInt8
  match Opcode.format opcode with
  | .regs => ⟨opcode, .regs, (w >>> 8).toUInt8, (w >>> 16).toUInt8, (w >>> 24).toUInt8, 0⟩
  | .regU16 => ⟨opcode, .regU16, (w >>> 8).toUInt8, 0, 0, (w >>> 16).toInt32⟩
  | .regS16 => ⟨opcode, .regS16, (w >>> 8).toUInt8, 0, 0, (w >>> 16).toInt32 - bias16⟩
  | .u24 => ⟨opcode, .u24, 0, 0, 0, (w >>> 8).toInt32⟩
  | .s24 => ⟨opcode, .s24, 0, 0, 0, (w >>> 8).toInt32 - bias24⟩
  | format => ⟨opcode, format, 0, 0, 0, 0⟩

/-- Puts a word together from the fields that the format uses. -/
def encode (i : Instruction) : Word :=
  match i.format with
  | .regU16 => Word.ofRegU16 i.opcode i.a i.imm.toUInt32.toUInt16
  | .regS16 => Word.ofRegS16 i.opcode i.a i.imm.toInt16
  | .u24 => Word.ofU24 i.opcode i.imm.toUInt32
  | .s24 => Word.ofS24 i.opcode i.imm
  | .bare => i.opcode.toUInt32
  | _ => Word.ofRegs i.opcode i.a i.b i.c

/-- A register as text. -/
def registerText (r : UInt8) : String :=
  "r" ++ Numeral.ofNat r.toNat

/-- An instruction as a line of assembly; an opcode without operation shows its byte. -/
def text (i : Instruction) : String :=
  match Operation.ofByte? i.opcode with
  | none => "?" ++ Numeral.upperHex 2 i.opcode.toNat
  | some op =>
    match i.format with
    | .bare => op.mnemonic
    | .regs =>
      let used := [i.a, i.b, i.c].take op.registers
      op.mnemonic ++ " " ++ String.intercalate ", " (used.map registerText)
    | .regU16 =>
      if op = .call then op.mnemonic ++ " " ++ Numeral.ofInt i.imm.toInt
      else op.mnemonic ++ " " ++ registerText i.a ++ ", " ++ Numeral.ofInt i.imm.toInt
    | .regS16 =>
      op.mnemonic ++ " " ++ registerText i.a ++ ", " ++ Numeral.signed i.imm.toInt
    | .s24 => op.mnemonic ++ " " ++ Numeral.signed i.imm.toInt
    | _ => op.mnemonic ++ " " ++ Numeral.ofInt i.imm.toInt

end Instruction

end WindowMachine
