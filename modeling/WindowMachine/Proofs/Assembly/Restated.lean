import WindowMachine.Proofs.Assembly.Encoding
import WindowMachine.Proofs.Instruction.Phrases

/-!
# Instructions assembled again

The phrase of an instruction is assembled into a word with the operation, the
registers and the number of that instruction: each operand has the value that
it was printed from, and the number lies within the bounds of its field.  What
the operation does not read is lost, since the assembler writes zeros there.
-/

namespace WindowMachine

open Source (Operand Phrase)

namespace Assembly

/-! ## Words that are assembled -/

section Words

variable {l : Layout} {address : Nat} {op : Operation}
  {operands : List Operand} {regs : List UInt8} {imm : Int32} {w : Word}

theorem Encodes.known (encodes : Encodes l address op operands regs imm w) :
    Operation.ofByte? w.toUInt8 = some op := by
  rw [← Instruction.decode_opcode, encodes.decode]
  exact Operation.ofByte?_byte op

theorem Encodes.byte_of_bare
    (encodes : Encodes l address op operands regs imm w)
    (format : op.format = .bare) {place : Nat} (inside : place < 4)
    (behind : 0 < place) : w.byte place = 0 := by
  have word : w = op.byte.toUInt32 := by
    rw [encodes.word]
    simp [assembled, Instruction.encode, format]
  have opcode : w.toNat < 2 ^ 8 := by
    rw [word, UInt8.toNat_toUInt32]
    exact op.byte.toNat_lt
  have small : w.toNat < 2 ^ (8 * place) :=
    Nat.lt_of_lt_of_le opcode (Nat.pow_le_pow_right (by decide) (by omega))
  apply UInt8.toNat_inj.mp
  rw [Word.toNat_byte inside, Nat.div_eq_of_lt small]
  rfl

/-- A register that a format has room for, and that the operation does not
name, is zero. -/
theorem Encodes.byte_of_unnamed
    (encodes : Encodes l address op operands regs imm w) {place : Nat}
    (inside : place < 4) (room : place ≤ op.format.room)
    (unnamed : op.registers < place) : w.byte place = 0 := by
  have decoded := encodes.decode
  rw [← Instruction.format_of_known encodes.known] at room
  have beyond (index : Nat) (few : op.registers ≤ index) :
      regs.getD index 0 = 0 := by
    have length := encodes.length
    simp [List.getElem?_eq_none (show regs.length ≤ index by omega)]
  match place, inside with
  | 1, _ =>
      rw [Instruction.byte_one room, decoded]
      exact beyond 0 (by omega)
  | 2, _ =>
      rw [Instruction.byte_two room, decoded]
      exact beyond 1 (by omega)
  | 3, _ =>
      rw [Instruction.byte_three room, decoded]
      exact beyond 2 (by omega)

/-- The assembler writes zeros where an operation does not read. -/
theorem Encodes.tidy (encodes : Encodes l address op operands regs imm w) :
    w.Tidy := by
  intro other known place inside unread
  obtain rfl : op = other := by
    rw [encodes.known] at known
    exact Option.some.inj known
  simp only [Operation.reads, Bool.or_eq_false_iff, decide_eq_false_iff_not,
    Nat.not_le] at unread
  obtain ⟨unnamed, notNumber⟩ := unread
  cases format : op.format with
  | bare =>
      exact encodes.byte_of_bare format inside (by omega)
  | regs =>
      have room : place ≤ op.format.room := by
        rw [format]
        exact Nat.le_of_lt_succ inside
      exact encodes.byte_of_unnamed inside room unnamed
  | regU16 | regS16 =>
      simp only [format, decide_eq_false_iff_not, Nat.not_le] at notNumber
      have room : place ≤ op.format.room := by
        rw [format]
        exact Nat.le_of_lt_succ notNumber
      exact encodes.byte_of_unnamed inside room unnamed
  | u24 | s24 =>
      simp [format] at notNumber
  | other code =>
      cases op <;> cases format

theorem symbol?_of_intValue {o : Operand} {n : Int}
    (read : o.intValue = .ok n) : o.symbol? = none := by
  simp [Operand.symbol?, kind_of_intValue read]

/-- An operation is assembled if its operands have values, and the number is
one that its word has room for. -/
theorem wordOf_eq_ok {n : Int} (counted : operands.length = op.operands)
    (registers : (operands.take op.registers).map Operand.registerIndex =
      regs.map .ok)
    (number : ∀ o, operands[op.registers]? = some o → o.intValue = .ok n)
    (lower : op.format.lowest ≤ n) (upper : n ≤ op.format.highest) :
    ∃ w, wordOf l address op operands = .ok w := by
  have mapped := mapM_register_eq_ok_iff.mpr registers
  by_cases numbered : op.format.hasNumber = true
  · obtain ⟨o, only, last⟩ := number_operand counted numbered
    have read := number o last
    have symbol := symbol?_of_intValue read
    have inBounds := integer_eq_ok_iff.mpr ⟨read, lower, upper⟩
    cases format : op.format with
    | bare | regs | other code =>
        simp [format, Format.hasNumber] at numbered
    | regU16 =>
        rw [format] at inBounds
        have value : unsigned l op o = .ok (UInt16.ofInt n) := by
          simp only [unsigned, symbol]
          exact map_eq_ok_iff.mpr ⟨n, inBounds, rfl⟩
        simp only [wordOf, mapped, format, only, value]
        exact ⟨_, rfl⟩
    | regS16 =>
        rw [format] at inBounds
        have value : offset l address o minS16 maxS16 = .ok n := by
          simp only [offset, symbol]
          exact inBounds
        simp only [wordOf, mapped, format, only, value]
        exact ⟨_, rfl⟩
    | u24 =>
        rw [format] at inBounds
        have value : count o maxU24 = .ok n := inBounds
        simp only [wordOf, mapped, format, only, value]
        exact ⟨_, rfl⟩
    | s24 =>
        rw [format] at inBounds
        have value : offset l address o minS24 maxS24 = .ok n := by
          simp only [offset, symbol]
          exact inBounds
        simp only [wordOf, mapped, format, only, value]
        exact ⟨_, rfl⟩
  · cases format : op.format with
    | bare | regs =>
        simp only [wordOf, mapped, format]
        exact ⟨_, rfl⟩
    | regU16 | regS16 | u24 | s24 =>
        simp [format, Format.hasNumber] at numbered
    | other code =>
        cases op <;> cases format

end Words

/-! ## Instructions read back -/

section Phrases

variable {op : Operation} {p : Phrase} {i : Instruction}
  (same : p.unplaced = (i.phrase op).unplaced)

include same

theorem operands_of_unplaced :
    p.operands.map Operand.unplaced =
      (i.operands op).map Operand.unplaced :=
  congrArg Phrase.operands same

theorem length_of_unplaced : p.operands.length = op.operands := by
  have lengths := congrArg List.length (operands_of_unplaced same)
  simpa [Instruction.length_operands] using lengths

theorem registers_of_unplaced :
    (p.operands.take op.registers).map Operand.registerIndex =
      (i.named op).map .ok := by
  have placeless (os : List Operand) :
      (os.map Operand.unplaced).map Operand.registerIndex =
        os.map Operand.registerIndex := by
    rw [List.map_map]
    rfl
  have front : (i.operands op).take op.registers =
      (i.named op).map Instruction.registerOperand := by
    rw [Instruction.operands, List.take_left']
    rw [List.length_map, Instruction.length_named]
  calc (p.operands.take op.registers).map Operand.registerIndex
      = ((p.operands.map Operand.unplaced).take op.registers).map
          Operand.registerIndex := by
        rw [← List.map_take, placeless]
    _ = ((i.operands op).take op.registers).map Operand.registerIndex := by
        rw [operands_of_unplaced same, ← List.map_take, placeless]
    _ = (i.named op).map .ok := by
        rw [front, List.map_map]
        exact List.map_congr_left fun r _ =>
          Instruction.registerIndex_registerOperand r

theorem number_of_unplaced {o : Operand}
    (last : p.operands[op.registers]? = some o) :
    o.intValue = .ok i.imm.toInt := by
  have found : ((i.operands op).map Operand.unplaced)[op.registers]? =
      some o.unplaced := by
    rw [← operands_of_unplaced same, List.getElem?_map, last]
    rfl
  have behind : (i.operands op)[op.registers]? =
      (if op.format.hasNumber
        then [Instruction.numberOperand op.format i.imm] else [])[0]? := by
    have length : ((i.named op).map Instruction.registerOperand).length =
        op.registers := by
      rw [List.length_map, Instruction.length_named]
    rw [Instruction.operands, List.getElem?_append_right
      (Nat.le_of_eq length), length, Nat.sub_self]
  rw [List.getElem?_map, behind] at found
  split at found
  · have placeless : Operand.unplaced
        (Instruction.numberOperand op.format i.imm) = o.unplaced := by
      simpa using found
    have value : o.unplaced.intValue = .ok i.imm.toInt := by
      rw [← placeless]
      exact Instruction.intValue_numberOperand op.format i.imm
    exact value
  · cases found

/-- A phrase that says what an instruction says is assembled into a word of
that instruction. -/
theorem encode_of_unplaced (l : Layout) (address : Nat)
    (lower : op.format.lowest ≤ i.imm.toInt)
    (upper : i.imm.toInt ≤ op.format.highest) :
    ∃ v, encode l address p = .ok v ∧
      Encodes l address op p.operands (i.named op) i.imm v := by
  have counted := length_of_unplaced same
  have registers := registers_of_unplaced same
  have name : p.name = op.mnemonic := congrArg Phrase.name same
  have assembles : ∃ v, wordOf l address op p.operands = .ok v :=
    wordOf_eq_ok counted registers
      (fun o last => number_of_unplaced same last) lower upper
  obtain ⟨v, own⟩ := assembles
  obtain ⟨regs, imm, encodes⟩ := wordOf_encodes counted own
  have sameRegisters : regs = i.named op := by
    have mapped := encodes.registers.symm.trans registers
    exact (List.map_inj_right fun _ _ => Except.ok.inj).mp mapped
  have sameNumber : imm.toInt = i.imm.toInt := by
    by_cases numbered : op.format.hasNumber = true
    · obtain ⟨o, -, last⟩ := number_operand counted numbered
      have written := number_of_unplaced same last
      rcases (encodes.number o last).kind with ⟨-, read⟩ | symbol
      · exact Except.ok.inj (read.symm.trans written)
      · rw [kind_of_intValue written] at symbol
        cases symbol
    -- Without a number, the bounds of the format leave nothing but zero.
    · have own := encodes.lower
      have ownUpper := encodes.upper
      cases format : op.format with
      | bare | regs | other code =>
          simp only [format, Format.lowest, Format.highest]
            at lower upper own ownUpper
          omega
      | regU16 | regS16 | u24 | s24 =>
          simp [format, Format.hasNumber] at numbered
  rw [sameRegisters, Int32.toInt_inj.mp sameNumber] at encodes
  refine ⟨v, ?_, encodes⟩
  apply encode_eq_ok_iff.mpr
  exact ⟨op, by rw [name, Operation.ofMnemonic?_mnemonic], counted, own⟩

end Phrases

theorem sameOperands_assembled (op : Operation) (i : Instruction) :
    i.SameOperands op (assembled op (i.named op) i.imm) := by
  rcases Instruction.registers_cases op with count | count | count | count
  all_goals
    constructor <;>
      simp [assembled, Instruction.named, count]

/-- A word assembled from what another word says is equivalent to it. -/
theorem Encodes.equivalent {l : Layout} {address : Nat} {op : Operation}
    {operands : List Operand} {w v : Word}
    (known : Operation.ofByte? w.toUInt8 = some op)
    (encodes : Encodes l address op operands
      ((Instruction.decode w).named op) (Instruction.decode w).imm v) :
    w.Equivalent v where
  opcode := by
    rw [encodes.decode, Instruction.decode_opcode]
    exact Operation.byte_of_ofByte? known
  operands other alsoKnown := by
    rw [Instruction.decode_opcode, known] at alsoKnown
    obtain rfl := Option.some.inj alsoKnown
    rw [encodes.decode]
    exact sameOperands_assembled op (Instruction.decode w)

end Assembly

end WindowMachine
