import WindowMachine.Proofs.Assembly.Layout
import WindowMachine.Proofs.Instruction.Fields

/-!
# Words of instructions

The second pass writes one word for each instruction, and never changes it
again.  `Encodes` lists what such a word is made of: the operation, the
registers, and the number that the last operand stands for, within the bounds
of its field.  Taking the word apart therefore gives all of it back.
-/

namespace WindowMachine

open Source (Line Operand Phrase)

namespace Assembly

/-! ## Operands -/

section Operands

variable {o : Operand} {low high n : Int}

theorem integer_eq_ok_iff :
    integer o low high = .ok n ↔
      o.intValue = .ok n ∧ low ≤ n ∧ n ≤ high := by
  simp only [integer]
  cases o.intValue with
  | error fault =>
      simp
  | ok value =>
      by_cases outside : value < low ∨ high < value
      · simp only [outside, if_true, reduceCtorEq, false_iff]
        rintro ⟨same, above, below⟩
        cases same
        omega
      · simp only [outside, if_false, Except.ok.injEq]
        omega

theorem register_eq_ok_iff {r : UInt8} :
    register o = .ok r ↔ o.registerIndex = .ok r := by
  simp only [register]
  cases o.registerIndex with
  | error fault =>
      simp
  | ok index =>
      simp

theorem mapM_register_eq_ok_iff {os : List Operand} {regs : List UInt8} :
    os.mapM register = .ok regs ↔
      os.map Operand.registerIndex = regs.map .ok := by
  induction os generalizing regs with
  | nil =>
      cases regs with
      | nil =>
          simp
      | cons r rest =>
          simp
  | cons o os inductionHypothesis =>
      simp only [List.mapM_cons, bind_eq_ok_iff, pure_eq_ok_iff,
        register_eq_ok_iff, inductionHypothesis, List.map_cons]
      cases regs with
      | nil =>
          simp
      | cons r rest =>
          simp

/-- The number that the last operand of an operation stands for at an
address. -/
inductive Denotes (l : Layout) (address : Nat) (op : Operation)
    (o : Operand) : Int → Prop
  | written {n : Int} :
      o.intValue = .ok n →
      Denotes l address op o n
  | label {name : String} {target : Nat} :
      op = .jumpIf ∨ op = .jump →
      o.symbol? = some name →
      l.label? name = some target →
      Denotes l address op o ((target : Int) - ((address : Int) + 1))
  | method {name : String} {m : NamedMethod} :
      op = .call →
      o.symbol? = some name →
      l.method? name = some m →
      Denotes l address op o (UInt16.ofInt m.index.toInt).toNat

theorem offset_denotes {l : Layout} {address : Nat} {op : Operation}
    (jumps : op = .jumpIf ∨ op = .jump)
    (found : offset l address o low high = .ok n) :
    low ≤ n ∧ n ≤ high ∧ Denotes l address op o n := by
  simp only [offset] at found
  cases symbol : o.symbol? with
  | none =>
      simp only [symbol, integer_eq_ok_iff] at found
      obtain ⟨value, above, below⟩ := found
      exact ⟨above, below, .written value⟩
  | some name =>
      simp only [symbol] at found
      cases known : l.label? name with
      | none =>
          simp [known] at found
      | some target =>
          simp only [known] at found
          split at found
          · cases found
          · cases found
            exact ⟨by omega, by omega, .label jumps symbol known⟩

theorem toNat_ofInt_u16 (above : 0 ≤ n) (below : n ≤ maxU16) :
    ((UInt16.ofInt n).toNat : Int) = n := by
  simp only [maxU16] at below
  simp only [UInt16.ofInt, UInt16.toNat_ofNat']
  omega

theorem unsigned_denotes {l : Layout} {address : Nat} {op : Operation}
    {number : UInt16} (found : unsigned l op o = .ok number) :
    Denotes l address op o number.toNat := by
  simp only [unsigned] at found
  split at found
  · rename_i symbol
    split at found
    · cases found
    · cases found
      exact .method rfl symbol ‹_›
  · obtain ⟨value, counted, rfl⟩ := map_eq_ok_iff.mp found
    obtain ⟨written, above, below⟩ := integer_eq_ok_iff.mp counted
    rw [toNat_ofInt_u16 above below]
    exact .written written

end Operands

/-! ## Instructions -/

section Instructions

variable {l : Layout} {address : Nat} {op : Operation}
  {operands : List Operand} {w : Word}

theorem jumps_of_format
    (signed : op.format = .regS16 ∨ op.format = .s24) :
    op = .jumpIf ∨ op = .jump := by
  cases op <;> simp_all [Operation.format]

theorem number_operand (counted : operands.length = op.operands)
    (numbered : op.format.hasNumber = true) :
    ∃ o, operands.drop op.registers = [o] ∧
      operands[op.registers]? = some o := by
  simp only [Operation.operands, numbered, if_true] at counted
  obtain ⟨o, only⟩ := List.length_eq_one_iff.mp
    (show (operands.drop op.registers).length = 1 by
      rw [List.length_drop]
      omega)
  refine ⟨o, only, ?_⟩
  rw [← List.head?_drop, only]
  rfl

theorem no_number_operand (counted : operands.length = op.operands)
    (unnumbered : op.format.hasNumber = false) :
    operands[op.registers]? = none := by
  apply List.getElem?_eq_none
  simp [counted, Operation.operands, unnumbered]

/-- The instruction of an operation with some registers and a number. -/
def assembled (op : Operation) (regs : List UInt8) (imm : Int32) :
    Instruction :=
  ⟨op.byte, op.format, regs.getD 0 0, regs.getD 1 0, regs.getD 2 0, imm⟩

theorem assembled_fits {regs : List UInt8} {imm : Int32}
    (length : regs.length = op.registers)
    (lower : op.format.lowest ≤ imm.toInt)
    (upper : imm.toInt ≤ op.format.highest) :
    (assembled op regs imm).Fits := by
  have fits := op.registers_le_room
  have unused (place : Nat) (beyond : op.format.room < place + 1) :
      regs.getD place 0 = 0 := by
    simp [List.getElem?_eq_none (show regs.length ≤ place by omega)]
  exact ⟨(Opcode.format_byte op).symm, unused 0, unused 1, unused 2,
    lower, upper⟩

/-- The words that an operation with its operands can get. -/
structure Encodes (l : Layout) (address : Nat) (op : Operation)
    (operands : List Operand) (regs : List UInt8) (imm : Int32)
    (w : Word) : Prop where
  word : w = (assembled op regs imm).encode
  length : regs.length = op.registers
  registers :
    (operands.take op.registers).map Operand.registerIndex = regs.map .ok
  lower : op.format.lowest ≤ imm.toInt
  upper : imm.toInt ≤ op.format.highest
  number (o : Operand) :
    operands[op.registers]? = some o → Denotes l address op o imm.toInt

section Encodes

variable {regs : List UInt8} {imm : Int32} {o : Operand} {n : Int}

theorem Encodes.plain (counted : operands.length = op.operands)
    (unnumbered : op.format.hasNumber = false)
    (length : regs.length = op.registers)
    (registers : (operands.take op.registers).map Operand.registerIndex =
      regs.map .ok)
    (word : w = (assembled op regs 0).encode) :
    Encodes l address op operands regs 0 w := by
  have bounds : op.format.lowest = 0 ∧ op.format.highest = 0 := by
    cases format : op.format <;>
      simp_all [Format.hasNumber, Format.lowest, Format.highest]
  refine ⟨word, length, registers, ?_, ?_, ?_⟩
  · simp [bounds]
  · simp [bounds]
  · simp [no_number_operand counted unnumbered]

theorem Encodes.numbered (last : operands[op.registers]? = some o)
    (length : regs.length = op.registers)
    (registers : (operands.take op.registers).map Operand.registerIndex =
      regs.map .ok)
    (denotes : Denotes l address op o n)
    (lower : op.format.lowest ≤ n) (upper : n ≤ op.format.highest)
    (value : imm.toInt = n) (word : w = (assembled op regs imm).encode) :
    Encodes l address op operands regs imm w := by
  subst value
  refine ⟨word, length, registers, lower, upper, ?_⟩
  rintro other same
  obtain rfl : o = other := by simpa [last] using same
  exact denotes

end Encodes

theorem wordOf_encodes (counted : operands.length = op.operands)
    (encoded : wordOf l address op operands = .ok w) :
    ∃ regs imm, Encodes l address op operands regs imm w := by
  simp only [wordOf, bind_eq_ok_iff, mapM_register_eq_ok_iff] at encoded
  obtain ⟨regs, registers, encoded⟩ := encoded
  have length : regs.length = op.registers := by
    have lengths := congrArg List.length registers
    simp only [List.length_map, List.length_take] at lengths
    simp only [Operation.operands] at counted
    omega
  refine ⟨regs, ?_⟩
  cases format : op.format with
  | bare | regs =>
      simp only [format, pure_eq_ok_iff] at encoded
      refine ⟨0, .plain counted (by simp [format, Format.hasNumber])
        length registers ?_⟩
      simp [← encoded, assembled, Instruction.encode, format]
  | regU16 =>
      obtain ⟨o, only, last⟩ := number_operand counted
        (by simp [format, Format.hasNumber])
      simp only [format, only, bind_eq_ok_iff, pure_eq_ok_iff] at encoded
      obtain ⟨number, found, rfl⟩ := encoded
      have bound := number.toNat_lt
      refine ⟨number.toUInt32.toInt32, .numbered last length registers
        (unsigned_denotes found) ?_ ?_ ?_ ?_⟩
      · simp [format, Format.lowest]
      · simp only [format, Format.highest, maxU16]
        omega
      · rw [toInt_toInt32_of_small (by simp; omega)]
        simp
      · simp [assembled, Instruction.encode, format]
  | regS16 =>
      obtain ⟨o, only, last⟩ := number_operand counted
        (by simp [format, Format.hasNumber])
      simp only [format, only, bind_eq_ok_iff, pure_eq_ok_iff] at encoded
      obtain ⟨number, found, rfl⟩ := encoded
      obtain ⟨lower, upper, denotes⟩ :=
        offset_denotes (jumps_of_format (.inl format)) found
      refine ⟨(Int16.ofInt number).toInt32, .numbered last length registers
        denotes (by rwa [format]) (by rwa [format]) ?_ ?_⟩
      · simp only [minS16, maxS16] at lower upper
        rw [Int16.toInt_toInt32,
          Int16.toInt_ofInt_of_le (by omega) (by omega)]
      · simp [assembled, Instruction.encode, format]
  | u24 =>
      -- No operation has this format, but nothing here depends on that.
      obtain ⟨o, only, last⟩ := number_operand counted
        (by simp [format, Format.hasNumber])
      simp only [format, only, bind_eq_ok_iff, pure_eq_ok_iff] at encoded
      obtain ⟨number, found, rfl⟩ := encoded
      obtain ⟨written, lower, upper⟩ := integer_eq_ok_iff.mp found
      refine ⟨(UInt32.ofInt number).toInt32, .numbered last length registers
        (.written written) (by rwa [format]) (by rwa [format]) ?_ ?_⟩
      · simp only [maxU24] at upper
        have value : ((UInt32.ofInt number).toNat : Int) = number := by
          simp only [UInt32.ofInt, UInt32.toNat_ofNat']
          omega
        rw [toInt_toInt32_of_small (by omega), value]
      · simp [assembled, Instruction.encode, format]
  | s24 =>
      obtain ⟨o, only, last⟩ := number_operand counted
        (by simp [format, Format.hasNumber])
      simp only [format, only, bind_eq_ok_iff, pure_eq_ok_iff] at encoded
      obtain ⟨number, found, rfl⟩ := encoded
      obtain ⟨lower, upper, denotes⟩ :=
        offset_denotes (jumps_of_format (.inr format)) found
      refine ⟨Int32.ofInt number, .numbered last length registers
        denotes (by rwa [format]) (by rwa [format]) ?_ ?_⟩
      · simp only [minS24, maxS24] at lower upper
        exact Int32.toInt_ofInt_of_le (by omega) (by omega)
      · simp [assembled, Instruction.encode, format]
  | other code =>
      cases op <;> cases format

theorem Encodes.decode {regs : List UInt8} {imm : Int32}
    (encodes : Encodes l address op operands regs imm w) :
    Instruction.decode w = assembled op regs imm := by
  rw [encodes.word]
  exact Instruction.decode_encode
    (assembled_fits encodes.length encodes.lower encodes.upper)

theorem encode_eq_ok_iff {p : Phrase} :
    encode l address p = .ok w ↔
      ∃ op, Operation.ofMnemonic? p.name = some op ∧
        p.operands.length = op.operands ∧
          wordOf l address op p.operands = .ok w := by
  simp only [encode]
  cases Operation.ofMnemonic? p.name with
  | none =>
      simp
  | some op =>
      by_cases counted : p.operands.length = op.operands
      · simp [counted]
      · simp [counted]

end Instructions

/-! ## All instructions -/

section Code

variable {l : Layout} {phrases : List Phrase} {seen code : Array Word}

theorem encodeFrom_size
    (encoded : encodeFrom l seen phrases = .ok code) :
    code.size = seen.size + phrases.length := by
  induction phrases generalizing seen with
  | nil =>
      cases encoded
      rfl
  | cons p rest inductionHypothesis =>
      simp only [encodeFrom] at encoded
      split at encoded
      · cases encoded
      · rw [inductionHypothesis encoded, Array.size_push,
          List.length_cons]
        omega

theorem encodeFrom_keeps
    (encoded : encodeFrom l seen phrases = .ok code) {place : Nat}
    (before : place < seen.size) :
    code[place]? = seen[place]? := by
  induction phrases generalizing seen with
  | nil =>
      cases encoded
      rfl
  | cons p rest inductionHypothesis =>
      simp only [encodeFrom] at encoded
      split at encoded
      · cases encoded
      · rw [inductionHypothesis encoded (by simp; omega),
          Array.getElem?_push_lt before, Array.getElem?_eq_getElem before]

/-- Every instruction has its word at its own place, and was encoded for
that address. -/
theorem encodeFrom_getElem?
    (encoded : encodeFrom l seen phrases = .ok code)
    {place : Nat} {p : Phrase} (found : phrases[place]? = some p) :
    ∃ w, code[seen.size + place]? = some w ∧
      encode l (seen.size + place) p = .ok w := by
  induction phrases generalizing seen place with
  | nil =>
      simp at found
  | cons first rest inductionHypothesis =>
      simp only [encodeFrom] at encoded
      split at encoded
      · cases encoded
      · rename_i w own
        cases place with
        | zero =>
            obtain rfl : first = p := by simpa using found
            refine ⟨w, ?_, own⟩
            rw [encodeFrom_keeps encoded (by simp)]
            simp
        | succ place =>
            have behind := inductionHypothesis encoded
              (show rest[place]? = some p by simpa using found)
            simpa [Nat.add_assoc, Nat.add_comm 1] using behind

theorem ofLines_eq_ok {lines : List Line} {img : Image}
    (laid : ofLines lines = .ok img) :
    ∃ l, Layout.ofLines lines = .ok l ∧
      encodeFrom l #[] (instructions lines) = .ok img.words := by
  simp only [ofLines, bind_eq_ok_iff, pure_eq_ok_iff] at laid
  obtain ⟨l, ofLayout, code, encoded, entry, -, rfl⟩ := laid
  refine ⟨l, ofLayout, ?_⟩
  rw [encoded]
  by_cases empty : code.isEmpty
  · simp_all [Image.words]
  · simp [Image.words, empty]

end Code

/-! ## Kinds of operands -/

section Kinds

variable {o : Operand} {l : Layout} {address : Nat} {op : Operation}
  {operands : List Operand} {regs : List UInt8} {imm : Int32} {w : Word}

theorem kind_of_registerIndex {r : UInt8}
    (read : o.registerIndex = .ok r) : o.kind = .register := by
  simp only [Operand.registerIndex] at read
  split at read
  · assumption
  · cases read

theorem kind_of_intValue {n : Int}
    (read : o.intValue = .ok n) : o.kind = .int := by
  simp only [Operand.intValue] at read
  split at read
  · assumption
  · cases read

theorem kind_of_symbol? {name : String}
    (symbol : o.symbol? = some name) : o.kind = .symbol := by
  simp only [Operand.symbol?] at symbol
  split at symbol
  · assumption
  · cases symbol

theorem Denotes.kind {n : Int} (denotes : Denotes l address op o n) :
    o.kind = .int ∧ o.intValue = .ok n ∨ o.kind = .symbol := by
  cases denotes with
  | written read =>
      exact .inl ⟨kind_of_intValue read, read⟩
  | label _ symbol | method _ symbol =>
      exact .inr (kind_of_symbol? symbol)

theorem Denotes.target {n : Int} {name : String}
    (denotes : Denotes l address op o n)
    (symbol : o.symbol? = some name)
    (jumps : op = .jumpIf ∨ op = .jump) :
    ∃ target, l.label? name = some target ∧
      (address : Int) + 1 + n = target := by
  cases denotes with
  | written read =>
      have kind := kind_of_intValue read
      rw [kind_of_symbol? symbol] at kind
      cases kind
  | @label own target _ ownSymbol known =>
      obtain rfl : own = name := by
        simpa [ownSymbol] using symbol
      exact ⟨target, known, by omega⟩
  | method calls =>
      subst calls
      rcases jumps with impossible | impossible
      · cases impossible
      · cases impossible

namespace Encodes

theorem kind_of_mem_take
    (encodes : Encodes l address op operands regs imm w)
    (member : o ∈ operands.take op.registers) : o.kind = .register := by
  have read : o.registerIndex ∈ regs.map .ok := by
    rw [← encodes.registers]
    exact List.mem_map_of_mem member
  obtain ⟨r, -, same⟩ := List.mem_map.mp read
  exact kind_of_registerIndex same.symm

theorem denotes_of_mem_drop
    (encodes : Encodes l address op operands regs imm w)
    (counted : operands.length = op.operands)
    (member : o ∈ operands.drop op.registers) :
    Denotes l address op o imm.toInt := by
  obtain ⟨place, found⟩ := List.mem_iff_getElem?.mp member
  rw [List.getElem?_drop] at found
  have bound := (List.getElem?_eq_some_iff.mp found).1
  obtain rfl : place = 0 := by
    simp only [Operation.operands] at counted
    split at counted <;> omega
  exact encodes.number o found

/-- Every operand is a register, or it stands for the number of the word. -/
theorem operand_cases
    (encodes : Encodes l address op operands regs imm w)
    (counted : operands.length = op.operands)
    (member : o ∈ operands) :
    o.kind = .register ∨ Denotes l address op o imm.toInt := by
  rw [← List.take_append_drop op.registers operands,
    List.mem_append] at member
  rcases member with inside | behind
  · exact .inl (encodes.kind_of_mem_take inside)
  · exact .inr (encodes.denotes_of_mem_drop counted behind)

end Encodes

end Kinds

end Assembly

end WindowMachine
