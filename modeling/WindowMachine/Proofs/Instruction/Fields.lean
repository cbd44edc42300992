import Mathlib.Algebra.Group.Int.Defs
import Mathlib.Algebra.Group.Nat.Defs
import WindowMachine.Instruction

/-!
# The fields of a word

A word is a number whose digits to the base 256 are its fields, the opcode
last.  Every builder of words is first given its value as such a number;
taking the word apart again is then division with remainder, and the bias of
the signed fields cancels because no biased number leaves its field.
-/

namespace WindowMachine

/-! ## What a format has room for -/

namespace Format

/-- How many registers a word of a format holds. -/
def room : Format → Nat
  | .regs => 3
  | .regU16 | .regS16 => 1
  | _ => 0

/-- The least number that a word of a format holds. -/
def lowest : Format → Int
  | .regS16 => minS16
  | .s24 => minS24
  | _ => 0

/-- The greatest number that a word of a format holds. -/
def highest : Format → Int
  | .regU16 => maxU16
  | .regS16 => maxS16
  | .u24 => maxU24
  | .s24 => maxS24
  | _ => 0

end Format

/-- An instruction that a word can hold: its format is that of its opcode,
and its registers and its number are those that the format has room for. -/
structure Instruction.Fits (i : Instruction) : Prop where
  format : i.format = Opcode.format i.opcode
  a : i.format.room < 1 → i.a = 0
  b : i.format.room < 2 → i.b = 0
  c : i.format.room < 3 → i.c = 0
  lower : i.format.lowest ≤ i.imm.toInt
  upper : i.imm.toInt ≤ i.format.highest

/-! ## Values of words -/

namespace Word

/-- Fields that do not overlap add up. -/
theorem toNat_or_shiftLeft (low high : Word) (shift : Nat)
    (short : shift < 32)
    (below : low.toNat < 2 ^ shift)
    (fits : high.toNat * 2 ^ shift < 2 ^ 32) :
    (low ||| (high <<< UInt32.ofNat shift)).toNat =
      low.toNat + 2 ^ shift * high.toNat := by
  have amount : (UInt32.ofNat shift).toNat % 32 = shift := by
    simp only [UInt32.toNat_ofNat']
    omega
  rw [UInt32.toNat_or, UInt32.toNat_shiftLeft, amount, Nat.shiftLeft_eq,
    Nat.mod_eq_of_lt fits, ← Nat.shiftLeft_eq, Nat.or_comm,
    ← Nat.shiftLeft_add_eq_or_of_lt below, Nat.shiftLeft_eq,
    Nat.mul_comm, Nat.add_comm]

variable (opcode a b c : UInt8)

private theorem toNat_opcode_a :
    (opcode.toUInt32 ||| (a.toUInt32 <<< 8)).toNat =
      opcode.toNat + 2 ^ 8 * a.toNat := by
  have opcodeBound := opcode.toNat_lt
  have aBound := a.toNat_lt
  have sum := toNat_or_shiftLeft opcode.toUInt32 a.toUInt32 8
    (by decide) (by simp; omega) (by simp; omega)
  simpa using sum

theorem toNat_ofRegs :
    (ofRegs opcode a b c).toNat =
      opcode.toNat + 2 ^ 8 * a.toNat + 2 ^ 16 * b.toNat +
        2 ^ 24 * c.toNat := by
  have opcodeBound := opcode.toNat_lt
  have aBound := a.toNat_lt
  have bBound := b.toNat_lt
  have cBound := c.toNat_lt
  have two := toNat_opcode_a opcode a
  have three := toNat_or_shiftLeft _ b.toUInt32 16 (by decide)
    (show (opcode.toUInt32 ||| (a.toUInt32 <<< 8)).toNat < 2 ^ 16 by omega)
    (by simp; omega)
  rw [two] at three
  have four := toNat_or_shiftLeft _ c.toUInt32 24 (by decide)
    (by rw [three]; simp; omega) (by simp; omega)
  rw [three] at four
  exact four

theorem toNat_ofRegU16 (imm : UInt16) :
    (ofRegU16 opcode a imm).toNat =
      opcode.toNat + 2 ^ 8 * a.toNat + 2 ^ 16 * imm.toNat := by
  have opcodeBound := opcode.toNat_lt
  have aBound := a.toNat_lt
  have immBound := imm.toNat_lt
  have two := toNat_opcode_a opcode a
  have sum := toNat_or_shiftLeft _ imm.toUInt32 16 (by decide)
    (show (opcode.toUInt32 ||| (a.toUInt32 <<< 8)).toNat < 2 ^ 16 by omega)
    (by simp; omega)
  rw [two] at sum
  exact sum

theorem toNat_ofU24 (imm : UInt32) :
    (ofU24 opcode imm).toNat =
      opcode.toNat + 2 ^ 8 * (imm.toNat % 2 ^ 24) := by
  have opcodeBound := opcode.toNat_lt
  have kept : (imm &&& 0xFFFFFF).toNat = imm.toNat % 2 ^ 24 :=
    Nat.and_two_pow_sub_one_eq_mod imm.toNat 24
  have sum := toNat_or_shiftLeft opcode.toUInt32 (imm &&& 0xFFFFFF) 8
    (by decide) (by simp; omega) (by rw [kept]; omega)
  rw [kept] at sum
  exact sum

end Word

/-! ## Numbers in fields -/

theorem toInt_toInt32_of_small {v : UInt32} (small : v.toNat < 2 ^ 31) :
    v.toInt32.toInt = v.toNat :=
  BitVec.toInt_eq_toNat_of_lt (show 2 * v.toNat < 2 ^ 32 by omega)

theorem toNat_toUInt32_of_nonneg {n : Int32} (nonneg : 0 ≤ n.toInt) :
    (n.toUInt32.toNat : Int) = n.toInt :=
  (BitVec.toInt_eq_toNat_of_lt (BitVec.toInt_pos_iff.mp nonneg)).symm

theorem toUInt32_toUInt16_of_small {v : UInt32}
    (small : v.toNat < 2 ^ 16) : v.toUInt16.toUInt32 = v := by
  apply UInt32.toNat_inj.mp
  rw [UInt16.toNat_toUInt32, UInt32.toNat_toUInt16]
  omega

/-- A number is stored with a bias that makes it not negative. -/
theorem toNat_biased {imm bias : Int32}
    (lower : 0 ≤ imm.toInt + bias.toInt)
    (upper : imm.toInt + bias.toInt < 2 ^ 31) :
    ((imm + bias).toUInt32.toNat : Int) = imm.toInt + bias.toInt := by
  have sum : (imm + bias).toInt = imm.toInt + bias.toInt := by
    rw [Int32.toInt_add, Int.bmod_eq_of_le (by omega) (by omega)]
  rw [← sum]
  exact toNat_toUInt32_of_nonneg (by omega)

theorem toInt32_biased_sub (imm bias : Int32) :
    (imm + bias).toUInt32.toInt32 - bias = imm := by
  rw [Int32.toInt32_toUInt32, Int32.add_sub_cancel]

/-! ## Bytes of operations -/

theorem Operation.ofByte?_byte (op : Operation) :
    ofByte? op.byte = some op := by
  cases op <;> rfl

theorem Operation.byte_of_ofByte? {b : UInt8} {op : Operation}
    (known : ofByte? b = some op) : op.byte = b := by
  have table : ∀ n < all.length,
      all[n]?.map (fun op => op.byte.toNat) = some n := by
    decide
  have inside := (List.getElem?_eq_some_iff.mp known).1
  have entry := table b.toNat inside
  rw [show all[b.toNat]? = some op from known] at entry
  exact UInt8.toNat_inj.mp (Option.some.inj entry)

theorem Opcode.format_byte (op : Operation) :
    format op.byte = op.format := by
  simp [format, Operation.ofByte?_byte]

/-- An operation names no more registers than its format has room for. -/
theorem Operation.registers_le_room (op : Operation) :
    op.registers ≤ op.format.room := by
  cases op <;> decide

theorem Opcode.format_ne_other (opcode code : UInt8) :
    format opcode ≠ .other code := by
  simp only [format]
  cases Operation.ofByte? opcode with
  | none =>
      simp
  | some op =>
      cases op <;> simp [Operation.format]

/-! ## Words taken apart -/

namespace Instruction

variable {opcode : UInt8}

private theorem byte_eq {w : Word} {field : UInt8} (shift : Nat)
    (short : shift < 32)
    (value : w.toNat / 2 ^ shift % 2 ^ 8 = field.toNat) :
    (w >>> UInt32.ofNat shift).toUInt8 = field := by
  apply UInt8.toNat_inj.mp
  have amount : (UInt32.ofNat shift).toNat % 32 = shift := by
    simp only [UInt32.toNat_ofNat']
    omega
  rw [UInt32.toNat_toUInt8, UInt32.toNat_shiftRight, amount,
    Nat.shiftRight_eq_div_pow, value]

private theorem opcode_eq {w : Word}
    (value : w.toNat % 2 ^ 8 = opcode.toNat) : w.toUInt8 = opcode := by
  apply UInt8.toNat_inj.mp
  rw [UInt32.toNat_toUInt8, value]

theorem decode_bare (format : Opcode.format opcode = .bare) :
    decode opcode.toUInt32 = ⟨opcode, .bare, 0, 0, 0, 0⟩ := by
  simp [decode, format]

theorem decode_ofRegs (format : Opcode.format opcode = .regs)
    (a b c : UInt8) :
    decode (Word.ofRegs opcode a b c) = ⟨opcode, .regs, a, b, c, 0⟩ := by
  have opcodeBound := opcode.toNat_lt
  have aBound := a.toNat_lt
  have bBound := b.toNat_lt
  have cBound := c.toNat_lt
  have value := Word.toNat_ofRegs opcode a b c
  have first : (Word.ofRegs opcode a b c).toUInt8 = opcode :=
    opcode_eq (by omega)
  have second : (Word.ofRegs opcode a b c >>> 8).toUInt8 = a :=
    byte_eq 8 (by decide) (by omega)
  have third : (Word.ofRegs opcode a b c >>> 16).toUInt8 = b :=
    byte_eq 16 (by decide) (by omega)
  have fourth : (Word.ofRegs opcode a b c >>> 24).toUInt8 = c :=
    byte_eq 24 (by decide) (by omega)
  simp only [decode, first, format, second, third, fourth]

private theorem ofRegU16_fields (opcode a : UInt8) (imm : UInt16) :
    (Word.ofRegU16 opcode a imm).toUInt8 = opcode ∧
      (Word.ofRegU16 opcode a imm >>> 8).toUInt8 = a ∧
        Word.ofRegU16 opcode a imm >>> 16 = imm.toUInt32 := by
  have opcodeBound := opcode.toNat_lt
  have aBound := a.toNat_lt
  have immBound := imm.toNat_lt
  have value := Word.toNat_ofRegU16 opcode a imm
  refine ⟨opcode_eq (by omega), byte_eq 8 (by decide) (by omega), ?_⟩
  apply UInt32.toNat_inj.mp
  rw [UInt32.toNat_shiftRight, value, Nat.shiftRight_eq_div_pow]
  simp
  omega

theorem decode_ofRegU16 (format : Opcode.format opcode = .regU16)
    (a : UInt8) (imm : UInt16) :
    decode (Word.ofRegU16 opcode a imm) =
      ⟨opcode, .regU16, a, 0, 0, imm.toUInt32.toInt32⟩ := by
  obtain ⟨first, second, number⟩ := ofRegU16_fields opcode a imm
  simp only [decode, first, format, second, number]

theorem decode_ofRegS16 (format : Opcode.format opcode = .regS16)
    (a : UInt8) (imm : Int16) :
    decode (Word.ofRegS16 opcode a imm) =
      ⟨opcode, .regS16, a, 0, 0, imm.toInt32⟩ := by
  obtain ⟨first, second, number⟩ := ofRegU16_fields opcode a
    (imm.toInt32 + bias16).toUInt32.toUInt16
  have lower := imm.le_toInt
  have upper := imm.toInt_lt
  have bias : bias16.toInt = 2 ^ 15 := by decide
  have stored : ((imm.toInt32 + bias16).toUInt32.toNat : Int) =
      imm.toInt + 2 ^ 15 := by
    rw [toNat_biased (by simp [bias]; omega) (by simp [bias]; omega), bias,
      Int16.toInt_toInt32]
  rw [toUInt32_toUInt16_of_small (by omega)] at number
  simp only [decode, Word.ofRegS16, first, format, second, number,
    toInt32_biased_sub]

private theorem ofU24_fields (opcode : UInt8) {imm : UInt32}
    (fits : imm.toNat < 2 ^ 24) :
    (Word.ofU24 opcode imm).toUInt8 = opcode ∧
      Word.ofU24 opcode imm >>> 8 = imm := by
  have opcodeBound := opcode.toNat_lt
  have value := Word.toNat_ofU24 opcode imm
  refine ⟨opcode_eq (by omega), ?_⟩
  apply UInt32.toNat_inj.mp
  rw [UInt32.toNat_shiftRight, value, Nat.shiftRight_eq_div_pow]
  simp
  omega

theorem decode_ofU24 (format : Opcode.format opcode = .u24)
    {imm : UInt32} (fits : imm.toNat < 2 ^ 24) :
    decode (Word.ofU24 opcode imm) =
      ⟨opcode, .u24, 0, 0, 0, imm.toInt32⟩ := by
  obtain ⟨first, number⟩ := ofU24_fields opcode fits
  simp only [decode, first, format, number]

theorem decode_ofS24 (format : Opcode.format opcode = .s24)
    {imm : Int32}
    (lower : minS24 ≤ imm.toInt) (upper : imm.toInt ≤ maxS24) :
    decode (Word.ofS24 opcode imm) = ⟨opcode, .s24, 0, 0, 0, imm⟩ := by
  have bias : bias24.toInt = 2 ^ 23 := by decide
  simp only [minS24, maxS24] at lower upper
  have stored : ((imm + bias24).toUInt32.toNat : Int) =
      imm.toInt + 2 ^ 23 := by
    rw [toNat_biased (by omega) (by omega), bias]
  obtain ⟨first, number⟩ := ofU24_fields opcode
    (show (imm + bias24).toUInt32.toNat < 2 ^ 24 by omega)
  simp only [decode, Word.ofS24, first, format, number,
    toInt32_biased_sub]

/-- Taking apart undoes putting together, for every instruction that fits
into a word. -/
theorem decode_encode {i : Instruction} (fits : i.Fits) :
    decode i.encode = i := by
  obtain ⟨opcode, format, a, b, c, imm⟩ := i
  obtain ⟨formatOf, noA, noB, noC, lower, upper⟩ := fits
  simp only at formatOf noA noB noC lower upper
  cases format with
  | bare =>
      obtain rfl := noA (by decide)
      obtain rfl := noB (by decide)
      obtain rfl := noC (by decide)
      obtain rfl : imm = 0 := Int32.toInt_inj.mp (Int.le_antisymm upper lower)
      exact decode_bare formatOf.symm
  | regs =>
      obtain rfl : imm = 0 := Int32.toInt_inj.mp (Int.le_antisymm upper lower)
      exact decode_ofRegs formatOf.symm a b c
  | regU16 =>
      obtain rfl := noB (by decide)
      obtain rfl := noC (by decide)
      simp only [Format.lowest, Format.highest, maxU16] at lower upper
      have value := toNat_toUInt32_of_nonneg lower
      simp only [encode]
      rw [decode_ofRegU16 formatOf.symm,
        toUInt32_toUInt16_of_small (by omega), Int32.toInt32_toUInt32]
  | regS16 =>
      obtain rfl := noB (by decide)
      obtain rfl := noC (by decide)
      simp only [Format.lowest, Format.highest, minS16, maxS16]
        at lower upper
      have kept : imm.toInt16.toInt32 = imm := by
        apply Int32.toInt_inj.mp
        rw [Int16.toInt_toInt32, Int32.toInt_toInt16,
          Int.bmod_eq_of_le (by omega) (by omega)]
      simp only [encode]
      rw [decode_ofRegS16 formatOf.symm, kept]
  | u24 =>
      obtain rfl := noA (by decide)
      obtain rfl := noB (by decide)
      obtain rfl := noC (by decide)
      simp only [Format.lowest, Format.highest, maxU24] at lower upper
      have value := toNat_toUInt32_of_nonneg lower
      simp only [encode]
      rw [decode_ofU24 formatOf.symm (by omega), Int32.toInt32_toUInt32]
  | s24 =>
      obtain rfl := noA (by decide)
      obtain rfl := noB (by decide)
      obtain rfl := noC (by decide)
      exact decode_ofS24 formatOf.symm lower upper
  | other code =>
      exact absurd formatOf.symm (Opcode.format_ne_other opcode code)

end Instruction

end WindowMachine
