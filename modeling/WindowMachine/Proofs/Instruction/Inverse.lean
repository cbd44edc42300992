import WindowMachine.Proofs.Instruction.UnusedBytes

/-!
# Words and their instructions

A word is taken apart into an instruction that a word can hold, so nothing
more is lost when that one is put together and taken apart again.  What is
lost the first time are the bytes that the format has no field for.  Only the
format without operands has such bytes, and only one operation has this
format: every other word comes back as it was, and so does every word without
an operation.
-/

namespace WindowMachine

/-- Only the operation that ends the program has no room for operands. -/
theorem Opcode.format_eq_bare_iff {opcode : UInt8} :
    format opcode = .bare ↔ opcode = Operation.halt.byte := by
  constructor
  · intro bare
    simp only [format] at bare
    cases known : Operation.ofByte? opcode with
    | none =>
        simp [known] at bare
    | some op =>
        simp only [known] at bare
        obtain rfl : op = .halt := by
          cases op <;> simp [Operation.format] at bare ⊢
        exact (Operation.byte_of_ofByte? known).symm
  · rintro rfl
    rfl

namespace Instruction

variable {v w : Word}

/-! ## From words to instructions -/

/-- A word is taken apart into an instruction that fits into a word. -/
theorem decode_fits (w : Word) : (decode w).Fits := by
  have bounds : (decode w).format.lowest ≤ (decode w).imm.toInt ∧
      (decode w).imm.toInt ≤ (decode w).format.highest := by
    cases known : Operation.ofByte? w.toUInt8 with
    | none =>
        have format : Opcode.format w.toUInt8 = .regs := by
          simp [Opcode.format, known]
        simp [decode, format, Format.lowest, Format.highest]
    | some op =>
        rw [format_decode, decode_opcode, format_of_known known]
        exact decode_imm_bounds known
  refine ⟨format_decode w, ?_, ?_, ?_, bounds.1, bounds.2⟩
  all_goals
    cases format : Opcode.format w.toUInt8 <;>
      simp [decode, format, Format.room]

/-! ## From instructions to words -/

section Same

variable (same : decode v = decode w)

include same

theorem toUInt8_of_decode_eq : v.toUInt8 = w.toUInt8 := by
  rw [← decode_opcode, same, decode_opcode]

/-- Words of one instruction agree in the bytes of its registers. -/
theorem byte_eq_of_room {place : Nat} (inside : place < 4)
    (room : place ≤ (Opcode.format w.toUInt8).room) :
    v.byte place = w.byte place := by
  have opcode := toUInt8_of_decode_eq same
  have alsoRoom : place ≤ (Opcode.format v.toUInt8).room := by
    rwa [opcode]
  match place, inside with
  | 0, _ =>
      rw [Word.byte_zero, Word.byte_zero, opcode]
  | 1, _ =>
      rw [byte_one room, byte_one alsoRoom, same]
  | 2, _ =>
      rw [byte_two room, byte_two alsoRoom, same]
  | 3, _ =>
      rw [byte_three room, byte_three alsoRoom, same]

/-- Words of one instruction agree in what follows its registers, if that is a
number. -/
theorem shiftRight_eq_of_hasNumber
    (numbered : (Opcode.format w.toUInt8).hasNumber = true) :
    v >>> UInt32.ofNat (8 * ((Opcode.format w.toUInt8).room + 1)) =
      w >>> UInt32.ofNat (8 * ((Opcode.format w.toUInt8).room + 1)) := by
  have imm := congrArg Instruction.imm same
  simp only [decode, toUInt8_of_decode_eq same] at imm
  cases format : Opcode.format w.toUInt8 with
  | regU16 | u24 =>
      simp only [format] at imm
      exact toInt32_inj imm
  | regS16 | s24 =>
      simp only [format] at imm
      exact toInt32_inj (sub_bias_inj imm)
  | bare | regs | other code =>
      simp [format, Format.hasNumber] at numbered

/-- Words of one instruction are the same, if it can have operands. -/
theorem eq_of_decode_eq (operands : Opcode.format w.toUInt8 ≠ .bare) :
    v = w := by
  apply Word.eq_of_bytes
  intro place inside
  by_cases room : place ≤ (Opcode.format w.toUInt8).room
  · exact byte_eq_of_room same inside room
  · have numbered : (Opcode.format w.toUInt8).hasNumber = true := by
      cases format : Opcode.format w.toUInt8 with
      | regU16 | regS16 | u24 | s24 =>
          rfl
      | bare =>
          exact absurd format operands
      | regs =>
          simp only [format, Format.room] at room
          omega
      | other code =>
          exact absurd format (Opcode.format_ne_other _ code)
    exact Word.byte_eq_of_shiftRight _
      (shiftRight_eq_of_hasNumber same numbered) (by omega) inside

end Same

/-! ## Both ways -/

/-- Taking a word apart again changes nothing. -/
theorem decode_encode_decode (w : Word) :
    decode (decode w).encode = decode w :=
  decode_encode (decode_fits w)

theorem encode_of_bare (bare : Opcode.format w.toUInt8 = .bare) :
    (decode w).encode = w.toUInt8.toUInt32 := by
  simp [decode, encode, bare]

/-- Taking words apart and putting instructions together are inverse to each
other.  The only words that do not come back are those that end the program
and hold anything else beside. -/
theorem decode_encode_inverse :
    (∀ w : Word, (decode w).encode = w ↔
      ((decode w).opcode = Operation.halt.byte →
        w = Operation.halt.byte.toUInt32)) ∧
      (∀ w : Word, decode (decode w).encode = decode w) ∧
        ∀ i : Instruction, i.Fits → decode i.encode = i := by
  refine ⟨?_, decode_encode_decode, fun i fits => decode_encode fits⟩
  intro w
  rw [decode_opcode]
  by_cases bare : w.toUInt8 = Operation.halt.byte
  · rw [encode_of_bare (Opcode.format_eq_bare_iff.mpr bare), bare]
    simp [eq_comm]
  · have back : (decode w).encode = w :=
      eq_of_decode_eq (decode_encode_decode w)
        (fun format => bare (Opcode.format_eq_bare_iff.mp format))
    simp [back, bare]

/-- A jump back by two, an instruction without an operation, and an end with
operands. -/
theorem backwardJump_inverse :
    (decode 0x7FFE011E).encode = 0x7FFE011E ∧
      (decode 0x7FFE011E).imm = -2 ∧
        decode (encode ⟨0x80, .regs, 1, 2, 3, 0⟩) =
            ⟨0x80, .regs, 1, 2, 3, 0⟩ ∧
          (decode 0x01020324).encode ≠ 0x01020324 ∧
            decode (decode 0x01020324).encode = decode 0x01020324 := by
  obtain ⟨words, again, instructions⟩ := decode_encode_inverse
  refine ⟨?_, by decide, ?_, ?_, again _⟩
  · rw [words]
    intro halts
    exact absurd halts (by decide)
  · exact instructions _ ⟨by decide, by decide, by decide, by decide,
      by decide, by decide⟩
  · rw [ne_eq, words]
    intro plain
    exact absurd (plain (by decide)) (by decide)

end Instruction

end WindowMachine
