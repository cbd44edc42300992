import WindowMachine.Proofs.Assembly.Encoding
import WindowMachine.Proofs.Machine.Effects

/-!
# Code that says what its source says

Code is faithful to some lines if it has one word for each instruction, with
the opcode of the mnemonic, the registers of the register operands, and the
number written.  Where a jump names a label instead, its number is the way
from behind the jump to the line of the label.  Since both passes count the
same lines, a machine that takes the jump goes on there.
-/

namespace WindowMachine

open Source (Line Operand Phrase)

namespace Assembly

/-! ## What code should say -/

/-- The operands of kind register, in order. -/
def registerOperands (operands : List Operand) : List Operand :=
  operands.filter fun o => o.kind = .register

/-- The register fields of an instruction. -/
def registerFields (i : Instruction) : List UInt8 := [i.a, i.b, i.c]

/-- What the word at an address says, next to the phrase that it stands for
and to all lines. -/
structure Conveys (lines : List Line) (code : Array Word) (address : Nat)
    (p : Phrase) (op : Operation) (i : Instruction) : Prop where
  opcode : i.opcode = op.byte
  registers :
    (registerOperands p.operands).map Operand.registerIndex =
      ((registerFields i).take (registerOperands p.operands).length).map
        .ok
  unused (r : UInt8) :
    r ∈ (registerFields i).drop (registerOperands p.operands).length →
    r = 0
  number (o : Operand) :
    o ∈ p.operands →
    o.kind = .int ∨ o.kind = .float →
    o.intValue = .ok i.imm.toInt
  label (o : Operand) (name : String) :
    o ∈ p.operands →
    o.symbol? = some name →
    op = .jumpIf ∨ op = .jump →
    ∃ place, Declares lines place name ∧
      (∀ other, Declares lines other name → other = place) ∧
        (address : Int) + 1 + i.imm.toInt =
            instructionCount (lines.take place) ∧
          ∀ m : Machine, m.code = code →
            m.frame.pc.toInt = address →
            m.TakesJump op i →
            m.step.2 = .running ∧
              m.step.1.frame.pc =
                Int64.ofNat (instructionCount (lines.take place))

/-- Code that says what some lines say: one word for each instruction, at
the address of its line. -/
structure Faithful (lines : List Line) (code : Array Word) : Prop where
  size : code.size = instructionCount lines
  conveys (place : Nat) (line : Line) (p : Phrase) :
    lines[place]? = some line →
    line.instruction? = some p →
    ∃ op w,
      Operation.ofMnemonic? p.name = some op ∧
        code[instructionCount (lines.take place)]? = some w ∧
          Conveys lines code (instructionCount (lines.take place)) p op
            (Instruction.decode w)

/-! ## Registers -/

theorem Encodes.registerOperands_eq
    {l : Layout} {address : Nat} {op : Operation}
    {operands : List Operand} {regs : List UInt8} {imm : Int32} {w : Word}
    (encodes : Encodes l address op operands regs imm w)
    (counted : operands.length = op.operands) :
    registerOperands operands = operands.take op.registers := by
  have first : registerOperands (operands.take op.registers) =
      operands.take op.registers := by
    apply List.filter_eq_self.mpr
    intro o member
    simp [encodes.kind_of_mem_take member]
  have second : registerOperands (operands.drop op.registers) = [] := by
    apply List.filter_eq_nil_iff.mpr
    intro o member
    have denotes := encodes.denotes_of_mem_drop counted member
    rcases denotes.kind with ⟨kind, -⟩ | kind
    · simp [kind]
    · simp [kind]
  calc registerOperands operands
      = registerOperands (operands.take op.registers) ++
          registerOperands (operands.drop op.registers) := by
        rw [registerOperands, registerOperands, registerOperands,
          ← List.filter_append, List.take_append_drop]
    _ = operands.take op.registers := by
        rw [first, second, List.append_nil]

theorem registerFields_assembled {op : Operation} {regs : List UInt8}
    (length : regs.length = op.registers) (imm : Int32) :
    (registerFields (assembled op regs imm)).take regs.length = regs ∧
      ∀ r ∈ (registerFields (assembled op regs imm)).drop regs.length,
        r = 0 := by
  have atMostThree : regs.length ≤ 3 := by
    rw [length]
    cases op <;> decide
  match regs, atMostThree with
  | [], _ | [_], _ | [_, _], _ | [_, _, _], _ =>
      simp [registerFields, assembled]

/-! ## Jumps -/

theorem pc_eq_ofNat {pc : Int64} {imm : Int32} {address target : Nat}
    (here : pc.toInt = address)
    (there : (address : Int) + 1 + imm.toInt = target) :
    pc + 1 + imm.toInt64 = Int64.ofNat target := by
  have one : (1 : Int64) = Int64.ofInt 1 := rfl
  rw [← Int64.ofInt_toInt pc, here, one,
    ← Int64.ofInt_toInt imm.toInt64, Int32.toInt_toInt64,
    ← Int64.ofInt_add, ← Int64.ofInt_add, there, Int64.ofInt_eq_ofNat]

/-- A machine that takes a jump goes on where its number leads. -/
theorem takesJump_continues {m : Machine} {op : Operation} {w : Word}
    {address target : Nat}
    (opcode : (Instruction.decode w).opcode = op.byte)
    (jumps : op = .jumpIf ∨ op = .jump)
    (found : m.code[address]? = some w)
    (here : m.frame.pc.toInt = address)
    (there : (address : Int) + 1 + (Instruction.decode w).imm.toInt = target)
    (takes : m.TakesJump op (Instruction.decode w)) :
    m.step.2 = .running ∧ m.step.1.frame.pc = Int64.ofNat target := by
  have inside := (Array.getElem?_eq_some_iff.mp found).1
  have word : m.wordAt? m.frame.pc = some w := by
    have place := position?_eq_some_iff.mpr ⟨here, inside⟩
    simp [Machine.wordAt?, place, found]
  have known : Operation.ofByte? (Instruction.decode w).opcode = some op := by
    rw [opcode, Operation.ofByte?_byte]
  rw [← pc_eq_ofNat here there]
  exact takes.step (takes.next? word) known jumps

/-! ## Sources and their code -/

theorem Encodes.conveys {lines : List Line} {l : Layout}
    {code : Array Word} {address : Nat} {p : Phrase} {op : Operation}
    {regs : List UInt8} {imm : Int32} {w : Word}
    (reflects : l.Reflects lines)
    (counted : p.operands.length = op.operands)
    (encodes : Encodes l address op p.operands regs imm w)
    (found : code[address]? = some w) :
    Conveys lines code address p op (Instruction.decode w) := by
  have decoded := encodes.decode
  have count : (registerOperands p.operands).length = regs.length := by
    have lengths := congrArg List.length encodes.registers
    simpa [encodes.registerOperands_eq counted] using lengths
  obtain ⟨used, rest⟩ := registerFields_assembled encodes.length imm
  refine ⟨?_, ?_, ?_, ?_, ?_⟩
  · rw [decoded]
    rfl
  · rw [count, decoded, used, encodes.registerOperands_eq counted]
    exact encodes.registers
  · rw [count, decoded]
    exact rest
  · intro o member kind
    rw [decoded]
    rcases encodes.operand_cases counted member with register | denotes
    · simp [register] at kind
    · rcases denotes.kind with ⟨-, read⟩ | symbol
      · exact read
      · simp [symbol] at kind
  · intro o name member symbol jumps
    have denotes : Denotes l address op o imm.toInt := by
      rcases encodes.operand_cases counted member with register | denotes
      · rw [kind_of_symbol? symbol] at register
        cases register
      · exact denotes
    obtain ⟨target, known, there⟩ := denotes.target symbol jumps
    obtain ⟨place, declares, rfl⟩ := (reflects.label? name target).mp known
    have number : (Instruction.decode w).imm = imm := by
      rw [decoded]
      rfl
    rw [← number] at there
    refine ⟨place, declares, ?_, there, ?_⟩
    · intro other declaresOther
      exact reflects.unique declaresOther declares
    · intro m runs here takes
      exact takesJump_continues (by rw [decoded]; rfl) jumps
        (by rw [runs, found]) here there takes

theorem ofLines_faithful {lines : List Line} {img : Image}
    (laid : ofLines lines = .ok img) : Faithful lines img.words := by
  obtain ⟨l, laid, encoded⟩ := ofLines_eq_ok laid
  refine ⟨?_, ?_⟩
  · rw [encodeFrom_size encoded, length_instructions]
    simp
  · intro place line p here holds
    obtain ⟨w, found, own⟩ :=
      encodeFrom_getElem? encoded (instructions_getElem? here holds)
    rw [Array.size_empty, Nat.zero_add] at found own
    obtain ⟨op, mnemonic, counted, own⟩ := encode_eq_ok_iff.mp own
    obtain ⟨regs, imm, encodes⟩ := wordOf_encodes counted own
    exact ⟨op, w, mnemonic, found,
      encodes.conveys (Layout.ofLines_reflects laid) counted found⟩

/-- The code of every image that a source has says what the source says. -/
theorem assemble_faithful {source : List UInt8} {img : Image}
    (accepted : assemble source = .ok img) :
    ∃ lines, Source.parse source = .ok lines ∧
      Faithful lines img.words := by
  simp only [assemble] at accepted
  split at accepted
  · cases accepted
  · rename_i lines parsed
    exact ⟨lines, parsed, ofLines_faithful accepted⟩

/-- A source whose labels stand alone or beside a directive, and whose
numbers lie on the bounds of their fields. -/
def jumpingSource : List UInt8 :=
  ("top: .method f, 0, 0\n" ++
    "movimm16 r1, 65535\n" ++
    "je r1, out\n" ++
    "jmp top\n" ++
    "je r255, -32768\n" ++
    "jmp 8388607\n" ++
    "out:\n" ++
    "call f\n" ++
    "end\n").toUTF8.toList

def jumpingImage : Image where
  magic := Image.expectedMagic
  version := Image.expectedVersion
  entry := 0
  code := some
    #[0xFFFF011A, 0x8003011E, 0x7FFFFD1F, 0x0000FF1E, 0xFFFFFF1F,
      0x00000020, 0x00000024]
  methods := #[⟨"f", 0, 0, 0, 0⟩]
  globals := #[]
  stack := #[]
  checksum := Vector.replicate 32 0

theorem jumpingSource_faithful :
    assemble jumpingSource = .ok jumpingImage ∧
      ∃ lines, Source.parse jumpingSource = .ok lines ∧
        Faithful lines jumpingImage.words := by
  have accepted : assemble jumpingSource = .ok jumpingImage :=
    toOption_eq_some_iff.mp (by decide +kernel)
  exact ⟨accepted, assemble_faithful accepted⟩

end Assembly

end WindowMachine
