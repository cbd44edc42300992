import WindowMachine.Proofs.Instruction.UnusedBytes
import WindowMachine.Proofs.Machine.Views
import WindowMachine.Proofs.Number.Numerals
import WindowMachine.Proofs.Source.Printing
import WindowMachine.Source.Operand

/-!
# Instructions as phrases

The text of an instruction is a phrase of assembly: the mnemonic, the registers
that the operation names, and its number.  Each of these is a word of its kind,
and has the value that it was printed from.  The text therefore tells nothing
of the registers that the operation does not name.
-/

namespace WindowMachine

open Source (Operand Phrase Spells)

/-! ## Phrases as text -/

namespace Source

/-- A phrase as text. -/
def Phrase.text (p : Phrase) : String :=
  match p.operands with
  | [] => p.name
  | first :: more =>
    p.name ++ " " ++ String.intercalate ", " ((first :: more).map Operand.text)

theorem ofString_operands (first : Operand) (more : List Operand) :
    Utf8.ofString
        (String.intercalate ", " ((first :: more).map Operand.text)) =
      Utf8.ofString first.text ++ spelled (moreLexemes more) := by
  induction more generalizing first with
  | nil =>
      simp [moreLexemes]
  | cons second more inductionHypothesis =>
      have split : moreLexemes (second :: more) =
          .comma :: .space :: second.lexeme :: moreLexemes more := rfl
      have comma : Utf8.ofString ", " = [0x2C, 0x20] := rfl
      rw [List.map_cons, List.map_cons, String.intercalate_cons_cons,
        Utf8.ofString_append, Utf8.ofString_append, ← List.map_cons,
        inductionHypothesis, split, comma]
      simp [Lexeme.comma, Lexeme.space, Operand.lexeme, Lexeme.word]

theorem ofString_phrase (p : Phrase) (kind : Kind) :
    Utf8.ofString p.text =
      spelled (.word kind p.name :: operandLexemes p.operands) := by
  cases operands : p.operands with
  | nil =>
      simp [Phrase.text, operands, operandLexemes, Lexeme.word]
  | cons first more =>
      have space : Utf8.ofString " " = [0x20] := rfl
      simp only [Phrase.text, operands]
      rw [Utf8.ofString_append, Utf8.ofString_append, ofString_operands, space]
      simp [operandLexemes, Lexeme.space, Operand.lexeme, Lexeme.word]

/-! ## Words -/

theorem isDigit_ofNat {c : Char} (digit : c.isDigit = true) :
    isDigit (UInt8.ofNat c.toNat) = true := by
  have bounds : 48 ≤ c.toNat ∧ c.toNat ≤ 57 :=
    Char.isDigit_iff_toNat.mp digit
  rw [isDigit_iff, UInt8.toNat_ofNat']
  omega

theorem ascii_ofNat (n : Nat) :
    ∀ c ∈ (Numeral.ofNat n).toList, c.toNat < 128 := by
  intro c member
  rw [Numeral.ofNat, String.toList_ofList] at member
  have bound : c.toNat ≤ 57 :=
    (Char.isDigit_iff_toNat.mp (isDigit_of_mem_toDigits member)).2
  omega

/-- The bytes of a numeral without a sign. -/
theorem ofString_ofNat (n : Nat) :
    Utf8.ofString (Numeral.ofNat n) ≠ [] ∧
      ∀ b ∈ Utf8.ofString (Numeral.ofNat n), isDigit b = true := by
  rw [Utf8.ofString_ascii (ascii_ofNat n), Numeral.ofNat,
    String.toList_ofList]
  refine ⟨?_, ?_⟩
  · simp [Nat.toDigits_ne_nil]
  · intro b member
    obtain ⟨c, digit, rfl⟩ := List.mem_map.mp member
    exact isDigit_ofNat (isDigit_of_mem_toDigits digit)

theorem spells_numeral {sign : String}
    (signs : sign = "" ∨ sign = "+" ∨ sign = "-") (n : Nat) :
    Spells .int (sign ++ Numeral.ofNat n) := by
  obtain ⟨nonempty, numeric⟩ := ofString_ofNat n
  refine ⟨rfl, ?_, ?_⟩
  · intro c member
    rw [String.toList_append, List.mem_append] at member
    rcases member with inSign | digit
    · rcases signs with rfl | rfl | rfl
      · cases inSign
      · rw [List.mem_singleton.mp inSign]
        decide
      · rw [List.mem_singleton.mp inSign]
        decide
    · exact ascii_ofNat n c digit
  · rw [Utf8.ofString_append]
    apply firstKind?_numeral numeric nonempty
    rcases signs with rfl | rfl | rfl
    · exact .inl rfl
    · exact .inr (.inl rfl)
    · exact .inr (.inr rfl)

theorem spells_ofInt (i : Int) : Spells .int (Numeral.ofInt i) := by
  by_cases negative : i < 0
  · simpa [Numeral.ofInt, negative]
      using spells_numeral (.inr (.inr rfl)) i.natAbs
  · simpa [Numeral.ofInt, negative] using spells_numeral (.inl rfl) i.natAbs

theorem spells_signed (i : Int) : Spells .int (Numeral.signed i) := by
  by_cases negative : i < 0
  · simpa [Numeral.signed, negative]
      using spells_numeral (.inr (.inr rfl)) i.natAbs
  · simpa [Numeral.signed, negative]
      using spells_numeral (.inr (.inl rfl)) i.natAbs

theorem spells_register (r : UInt8) :
    Spells .register (Instruction.registerText r) := by
  obtain ⟨nonempty, numeric⟩ := ofString_ofNat r.toNat
  refine ⟨rfl, ?_, ?_⟩
  · intro c member
    rw [Instruction.registerText, String.toList_append,
      List.mem_append] at member
    rcases member with letter | digit
    · rw [List.mem_singleton.mp letter]
      decide
    · exact ascii_ofNat r.toNat c digit
  · rw [Instruction.registerText, Utf8.ofString_append]
    exact firstKind?_register numeric nonempty

theorem spells_mnemonic (op : Operation) : Spells .name op.mnemonic where
  word := rfl
  ascii c member := by
    have all : op.mnemonic.toList.all (fun c => c.toNat < 128) = true := by
      cases op <;> rfl
    simpa using List.all_eq_true.mp all c member
  read := by
    cases op <;> rfl

end Source

/-! ## Instructions -/

theorem Operation.ofMnemonic?_mnemonic (op : Operation) :
    ofMnemonic? op.mnemonic = some op := by
  cases op <;> rfl

namespace Instruction

/-- The registers of an instruction that an operation names. -/
def named (op : Operation) (i : Instruction) : List UInt8 :=
  [i.a, i.b, i.c].take op.registers

def registerOperand (r : UInt8) : Operand := ⟨.register, registerText r, {}⟩

/-- The number of an instruction, with its sign if it counts from the next
instruction. -/
def numberOperand (format : Format) (imm : Int32) : Operand :=
  match format with
  | .regS16 | .s24 => ⟨.int, Numeral.signed imm.toInt, {}⟩
  | _ => ⟨.int, Numeral.ofInt imm.toInt, {}⟩

/-- The operands of an operation in an instruction. -/
def operands (op : Operation) (i : Instruction) : List Operand :=
  (i.named op).map registerOperand ++
    if op.format.hasNumber then [numberOperand op.format i.imm] else []

/-- An instruction of an operation as a phrase. -/
def phrase (op : Operation) (i : Instruction) : Phrase :=
  ⟨op.mnemonic, i.operands op, {}⟩

variable {op : Operation} {i j : Instruction}

theorem text_eq_phrase (known : Operation.ofByte? i.opcode = some op)
    (format : i.format = op.format) : i.text = (i.phrase op).text := by
  cases op <;>
    simp [text, known, format, Operation.format, Operation.registers, phrase,
      operands, named, numberOperand, Format.hasNumber, Phrase.text,
      registerOperand, String.append_assoc, String.intercalate_cons_cons]

theorem registers_cases (op : Operation) :
    op.registers = 0 ∨ op.registers = 1 ∨ op.registers = 2 ∨
      op.registers = 3 := by
  cases op <;> decide

theorem named_eq (same : i.SameOperands op j) : j.named op = i.named op := by
  rcases registers_cases op with count | count | count | count
  · simp [named, count]
  · simp [named, count, same.a (by omega)]
  · simp [named, count, same.a (by omega), same.b (by omega)]
  · simp [named, count, same.a (by omega), same.b (by omega),
      same.c (by omega)]

/-- Instructions that agree in their operation and its operands have the same
text. -/
theorem text_eq (opcode : j.opcode = i.opcode)
    (iFormat : i.format = Opcode.format i.opcode)
    (jFormat : j.format = Opcode.format j.opcode)
    (same : ∀ op, Operation.ofByte? i.opcode = some op →
      i.SameOperands op j) :
    j.text = i.text := by
  cases known : Operation.ofByte? i.opcode with
  | none =>
      simp [text, opcode, known]
  | some op =>
      have agree := same op known
      rw [text_eq_phrase known (by rw [iFormat, Opcode.format, known]),
        text_eq_phrase (by rw [opcode, known])
          (by rw [jFormat, opcode, Opcode.format, known])]
      simp only [phrase, operands, named_eq agree, agree.imm]

theorem length_named (op : Operation) (i : Instruction) :
    (i.named op).length = op.registers := by
  rcases registers_cases op with count | count | count | count <;>
    simp [named, count]

theorem length_operands (op : Operation) (i : Instruction) :
    (i.operands op).length = op.operands := by
  simp only [operands, List.length_append, List.length_map, length_named,
    Operation.operands]
  split <;> rfl

theorem phrase_printable (op : Operation) (i : Instruction) :
    (Source.Statement.instruction (i.phrase op)).Printable where
  name := Source.spells_mnemonic op
  operands o member := by
    have split : o ∈ (i.named op).map registerOperand ∨
        o = numberOperand op.format i.imm := by
      rcases List.mem_append.mp member with register | number
      · exact .inl register
      · split at number
        · exact .inr (List.mem_singleton.mp number)
        · cases number
    rcases split with register | rfl
    · obtain ⟨r, -, rfl⟩ := List.mem_map.mp register
      exact Source.spells_register r
    · simp only [numberOperand]
      split
      · exact Source.spells_signed i.imm.toInt
      · exact Source.spells_signed i.imm.toInt
      · exact Source.spells_ofInt i.imm.toInt

/-! ## Values -/

theorem registerIndex_registerOperand (r : UInt8) :
    (registerOperand r).registerIndex = .ok r := by
  have bound := r.toNat_lt
  have value : digitsValue ((registerText r).toList.drop 1) = r.toNat := by
    simp [registerText, Numeral.ofNat, digitsValue_toDigits]
  simp only [Operand.registerIndex, registerOperand, value]
  rw [if_pos (by omega), UInt8.ofNat_toNat]

theorem intValue_numberOperand (format : Format) (imm : Int32) :
    (numberOperand format imm).intValue = .ok imm.toInt := by
  have lower := imm.le_toInt
  have upper := imm.toInt_lt
  have farLower : -2 ^ 63 ≤ imm.toInt := by omega
  have farUpper : imm.toInt < 2 ^ 63 := by omega
  have signed := Integer.read_signed farLower farUpper
  have plain := Integer.read_ofInt farLower farUpper
  simp only [numberOperand]
  split <;> simp [Operand.intValue, signed, plain]

end Instruction

end WindowMachine
