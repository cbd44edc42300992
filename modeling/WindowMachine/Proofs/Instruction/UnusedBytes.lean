import WindowMachine.Proofs.Instruction.Fields
import WindowMachine.Proofs.Machine.Views

/-!
# Bytes that hold no operand

An operation with fewer operands than its format has room for leaves bytes of
its word unread, and a word can hold anything there.  Words that differ only
in such bytes are equivalent.  A word is tidy if it holds zeros in them, so
that no two tidy words are equivalent.
-/

namespace WindowMachine

/-- Whether an operation reads the byte at a place of its word: as the
opcode, as a register or as a part of its number. -/
def Operation.reads (op : Operation) (place : Nat) : Bool :=
  decide (place ≤ op.registers) ||
    match op.format with
    | .regU16 | .regS16 => decide (2 ≤ place)
    | .u24 | .s24 => true
    | _ => false

namespace Word

/-- The byte at a place of a word, the opcode being at place zero. -/
def byte (w : Word) (place : Nat) : UInt8 :=
  (w >>> UInt32.ofNat (8 * place)).toUInt8

/-- Whether the bytes that an operation does not read are zero. -/
def Tidy (w : Word) : Prop :=
  ∀ op, Operation.ofByte? w.toUInt8 = some op →
    ∀ place < 4, op.reads place = false → w.byte place = 0

variable {v w : Word}

theorem toNat_byte {place : Nat} (inside : place < 4) :
    (w.byte place).toNat = w.toNat / 2 ^ (8 * place) % 2 ^ 8 := by
  have amount : (UInt32.ofNat (8 * place)).toNat % 32 = 8 * place := by
    simp only [UInt32.toNat_ofNat']
    omega
  rw [byte, UInt32.toNat_toUInt8, UInt32.toNat_shiftRight, amount,
    Nat.shiftRight_eq_div_pow]

theorem byte_zero (w : Word) : w.byte 0 = w.toUInt8 := by
  simp [byte]

theorem eq_of_bytes (same : ∀ place < 4, v.byte place = w.byte place) :
    v = w := by
  have value (place : Nat) (inside : place < 4) :
      v.toNat / 2 ^ (8 * place) % 2 ^ 8 =
        w.toNat / 2 ^ (8 * place) % 2 ^ 8 := by
    rw [← toNat_byte inside, ← toNat_byte inside, same place inside]
  have first := value 0 (by decide)
  have second := value 1 (by decide)
  have third := value 2 (by decide)
  have fourth := value 3 (by decide)
  have vBound := v.toNat_lt
  have wBound := w.toNat_lt
  apply UInt32.toNat_inj.mp
  omega

theorem toNat_shiftRight_eight (w : Word) :
    (w >>> 8).toNat = w.toNat / 2 ^ 8 :=
  Nat.shiftRight_eq_div_pow w.toNat 8

theorem toNat_shiftRight_sixteen (w : Word) :
    (w >>> 16).toNat = w.toNat / 2 ^ 16 :=
  Nat.shiftRight_eq_div_pow w.toNat 16

/-- Words that are the same from a byte on have the same bytes from there
on. -/
theorem byte_eq_of_shiftRight (shift : Nat)
    (same : v >>> UInt32.ofNat (8 * shift) = w >>> UInt32.ofNat (8 * shift))
    {place : Nat} (above : shift ≤ place) (inside : place < 4) :
    v.byte place = w.byte place := by
  have amount : (UInt32.ofNat (8 * shift)).toNat % 32 = 8 * shift := by
    simp only [UInt32.toNat_ofNat']
    omega
  have values := congrArg UInt32.toNat same
  rw [UInt32.toNat_shiftRight, UInt32.toNat_shiftRight, amount,
    Nat.shiftRight_eq_div_pow, Nat.shiftRight_eq_div_pow] at values
  have split : 2 ^ (8 * place) =
      2 ^ (8 * shift) * 2 ^ (8 * (place - shift)) := by
    rw [← Nat.pow_add, ← Nat.mul_add, Nat.add_sub_cancel' above]
  apply UInt8.toNat_inj.mp
  rw [toNat_byte inside, toNat_byte inside, split,
    ← Nat.div_div_eq_div_mul, ← Nat.div_div_eq_div_mul, values]

end Word

/-! ## Words taken apart -/

namespace Instruction

variable {v w : Word} {op : Operation}

theorem decode_opcode (w : Word) : (decode w).opcode = w.toUInt8 := by
  simp only [decode]
  split <;> rfl

theorem format_decode (w : Word) :
    (decode w).format = Opcode.format (decode w).opcode := by
  rw [decode_opcode]
  simp only [decode]
  split <;> simp_all

theorem format_of_known (known : Operation.ofByte? w.toUInt8 = some op) :
    Opcode.format w.toUInt8 = op.format := by
  simp [Opcode.format, known]

theorem toInt_sub_bias {field bias : Int32}
    (lower : -2 ^ 31 ≤ field.toInt - bias.toInt)
    (upper : field.toInt - bias.toInt < 2 ^ 31) :
    (field - bias).toInt = field.toInt - bias.toInt := by
  rw [Int32.toInt_sub, Int.bmod_eq_of_le (by omega) (by omega)]

/-- The number of a word lies within the bounds of its format. -/
theorem decode_imm_bounds (known : Operation.ofByte? w.toUInt8 = some op) :
    op.format.lowest ≤ (decode w).imm.toInt ∧
      (decode w).imm.toInt ≤ op.format.highest := by
  have bound := w.toNat_lt
  have upperHalf := w.toNat_shiftRight_sixteen
  have half : (w >>> 16).toInt32.toInt = (w.toNat / 2 ^ 16 : Nat) := by
    rw [toInt_toInt32_of_small (by omega), upperHalf]
  have aboveOpcode := w.toNat_shiftRight_eight
  have most : (w >>> 8).toInt32.toInt = (w.toNat / 2 ^ 8 : Nat) := by
    rw [toInt_toInt32_of_small (by omega), aboveOpcode]
  have known := format_of_known known
  cases format : op.format with
  | bare | regs =>
      simp [decode, known, format, Format.lowest, Format.highest]
  | regU16 =>
      simp only [decode, known, format, Format.lowest, Format.highest,
        maxU16, half]
      omega
  | regS16 =>
      have bias : bias16.toInt = 2 ^ 15 := by decide
      have value := @toInt_sub_bias (w >>> 16).toInt32 bias16
        (by omega) (by omega)
      simp only [decode, known, format, Format.lowest, Format.highest,
        minS16, maxS16, value]
      omega
  | u24 =>
      simp only [decode, known, format, Format.lowest, Format.highest,
        maxU24, most]
      omega
  | s24 =>
      have bias : bias24.toInt = 2 ^ 23 := by decide
      have value := @toInt_sub_bias (w >>> 8).toInt32 bias24
        (by omega) (by omega)
      simp only [decode, known, format, Format.lowest, Format.highest,
        minS24, maxS24, value]
      omega
  | other code =>
      cases op <;> cases format

theorem toInt32_inj {m n : UInt32} (same : m.toInt32 = n.toInt32) : m = n := by
  rw [← UInt32.toUInt32_toInt32 m, same, UInt32.toUInt32_toInt32]

theorem sub_bias_inj {m n bias : Int32} (same : m - bias = n - bias) :
    m = n := by
  rw [← Int32.sub_add_cancel m bias, same, Int32.sub_add_cancel]

theorem byte_one (room : 0 < (Opcode.format w.toUInt8).room) :
    w.byte 1 = (decode w).a := by
  simp only [decode]
  cases format : Opcode.format w.toUInt8 with
  | regs | regU16 | regS16 =>
      rfl
  | _ =>
      simp [format, Format.room] at room

theorem byte_two (room : 1 < (Opcode.format w.toUInt8).room) :
    w.byte 2 = (decode w).b := by
  simp only [decode]
  cases format : Opcode.format w.toUInt8 with
  | regs =>
      rfl
  | _ =>
      simp [format, Format.room] at room

theorem byte_three (room : 2 < (Opcode.format w.toUInt8).room) :
    w.byte 3 = (decode w).c := by
  simp only [decode]
  cases format : Opcode.format w.toUInt8 with
  | regs =>
      rfl
  | _ =>
      simp [format, Format.room] at room

end Instruction

/-! ## Equivalent words -/

/-- A word that stands for the same instruction as another one, as far as its
operation reads it. -/
structure Word.Equivalent (w v : Word) : Prop where
  opcode : (Instruction.decode v).opcode = (Instruction.decode w).opcode
  operands (op : Operation) :
    Operation.ofByte? (Instruction.decode w).opcode = some op →
    (Instruction.decode w).SameOperands op (Instruction.decode v)

namespace Word.Equivalent

variable {v w : Word} {op : Operation} (alike : w.Equivalent v)
  (known : Operation.ofByte? w.toUInt8 = some op)

include alike

theorem toUInt8 : v.toUInt8 = w.toUInt8 := by
  rw [← Instruction.decode_opcode, alike.opcode, Instruction.decode_opcode]

include known

theorem also_known : Operation.ofByte? v.toUInt8 = some op := by
  rw [alike.toUInt8, known]

theorem sameOperands :
    (Instruction.decode w).SameOperands op (Instruction.decode v) :=
  alike.operands op (by rw [Instruction.decode_opcode, known])

/-- Equivalent words agree in every register that their operation names. -/
theorem byte_eq_of_register {place : Nat} (inside : place < 4)
    (named : place ≤ op.registers) : v.byte place = w.byte place := by
  have same := alike.sameOperands known
  have room : op.registers ≤ (Opcode.format w.toUInt8).room := by
    rw [Instruction.format_of_known known]
    exact op.registers_le_room
  have alsoRoom : op.registers ≤ (Opcode.format v.toUInt8).room := by
    rwa [alike.toUInt8]
  match place, inside with
  | 0, _ =>
      rw [byte_zero, byte_zero, alike.toUInt8]
  | 1, _ =>
      rw [Instruction.byte_one (by omega), Instruction.byte_one (by omega),
        same.a named]
  | 2, _ =>
      rw [Instruction.byte_two (by omega), Instruction.byte_two (by omega),
        same.b named]
  | 3, _ =>
      rw [Instruction.byte_three (by omega),
        Instruction.byte_three (by omega), same.c named]

/-- Equivalent words agree in every byte that their operation reads. -/
theorem byte_eq {place : Nat} (inside : place < 4)
    (read : op.reads place = true) : v.byte place = w.byte place := by
  by_cases named : place ≤ op.registers
  · exact alike.byte_eq_of_register known inside named
  · simp only [Operation.reads, named, decide_false, Bool.false_or] at read
    have alsoKnown := Instruction.format_of_known (alike.also_known known)
    have imm := (alike.sameOperands known).imm
    simp only [Instruction.decode, alsoKnown,
      Instruction.format_of_known known] at imm
    -- What is left is a byte of the number, which fills the word to its end.
    cases format : op.format with
    | regU16 =>
        simp only [format, decide_eq_true_eq] at imm read
        have half := Instruction.toInt32_inj imm
        exact byte_eq_of_shiftRight 2 half read inside
    | regS16 =>
        simp only [format, decide_eq_true_eq] at imm read
        have half := Instruction.toInt32_inj (Instruction.sub_bias_inj imm)
        exact byte_eq_of_shiftRight 2 half read inside
    | u24 =>
        simp only [format] at imm
        have rest := Instruction.toInt32_inj imm
        exact byte_eq_of_shiftRight 1 rest (by omega) inside
    | s24 =>
        simp only [format] at imm
        have rest := Instruction.toInt32_inj (Instruction.sub_bias_inj imm)
        exact byte_eq_of_shiftRight 1 rest (by omega) inside
    | bare | regs | other code =>
        simp [format] at read

/-- Equivalent words that are both tidy are the same. -/
theorem eq_of_tidy (tidy : w.Tidy) (alsoTidy : v.Tidy) : v = w := by
  apply eq_of_bytes
  intro place inside
  cases read : op.reads place with
  | true =>
      exact alike.byte_eq known inside read
  | false =>
      rw [tidy op known place inside read,
        alsoTidy op (alike.also_known known) place inside read]

end Word.Equivalent

end WindowMachine
