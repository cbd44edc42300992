import WindowMachine.Proofs.Assembly.Faithful
import WindowMachine.Proofs.Assembly.WellFormed
import WindowMachine.Proofs.Source.Labels

/-!
# Jumps that are added to a source

An instruction at the end of a source changes nothing but the code, which
gets one more word.  If it is a jump to a label, the word leads to the label,
however far back it is, as long as the number of a jump has room for the way.
What a label needs for that is a name that is read as a word: one that starts
with a register can be declared, but no jump can name it.
-/

namespace WindowMachine

open Source (Line Operand Phrase)

namespace Assembly

/-! ## Instructions behind others -/

section Added

variable {l : Layout} {lines : List Line} {own : Line} {p : Phrase}

theorem layout_append_instruction (laid : Layout.ofLines lines = .ok l)
    (unlabelled : own.label = none)
    (holds : own.statement = some (.instruction p)) :
    Layout.ofLines (lines ++ [own]) =
      .ok { l with address := l.address + 1 } := by
  rw [Layout.ofLines] at laid ⊢
  rw [List.foldlM_append, laid]
  simp [Layout.line, unlabelled, holds, bind, Except.bind, pure, Except.pure]

theorem encodeFrom_append {first second : List Phrase}
    {seen code : Array Word}
    (encoded : encodeFrom l seen first = .ok code) :
    encodeFrom l seen (first ++ second) = encodeFrom l code second := by
  induction first generalizing seen with
  | nil =>
      cases encoded
      rfl
  | cons p rest inductionHypothesis =>
      simp only [encodeFrom, List.cons_append] at encoded ⊢
      split at encoded
      · cases encoded
      · exact inductionHypothesis encoded

/-- No instruction depends on how many lines follow. -/
theorem encodeFrom_address {phrases : List Phrase} {seen : Array Word}
    (address : Nat) :
    encodeFrom { l with address := address } seen phrases =
      encodeFrom l seen phrases := by
  induction phrases generalizing seen with
  | nil =>
      rfl
  | cons p rest inductionHypothesis =>
      have same : encode { l with address := address } seen.size p =
          encode l seen.size p := rfl
      simp only [encodeFrom, same, inductionHypothesis]

/-- An instruction that is added to some lines adds its word to the code of
their image. -/
theorem ofLines_append_instruction {img : Image} {w : Word}
    (laid : ofLines lines = .ok img)
    (layout : Layout.ofLines lines = .ok l)
    (unlabelled : own.label = none)
    (holds : own.statement = some (.instruction p))
    (encoded : encode l img.words.size p = .ok w) :
    ofLines (lines ++ [own]) =
      .ok { img with code := some (img.words.push w) } := by
  have settled := (ofLines_data laid layout).2.2
  have code : encodeFrom l #[] (instructions (lines ++ [own])) =
      .ok (img.words.push w) := by
    obtain ⟨same, sameLayout, before⟩ := ofLines_eq_ok laid
    obtain rfl : l = same := Except.ok.inj (layout.symm.trans sameLayout)
    have behind : instructions (lines ++ [own]) = instructions lines ++ [p] := by
      simp [instructions, Line.instruction?, holds]
    rw [behind, encodeFrom_append before]
    simp only [encodeFrom, encoded]
  have start : entryAddress { l with address := l.address + 1 } =
      entryAddress l := rfl
  simp only [ofLines, layout, bind_eq_ok_iff, pure_eq_ok_iff] at laid
  obtain ⟨_, same, _, -, entry, sameEntry, rfl⟩ := laid
  cases same
  simp only [ofLines, layout_append_instruction layout unlabelled holds,
    bind, Except.bind, encodeFrom_address, code, start, settled]
  simp [pure, Except.pure]

/-! ## Jumps -/

/-- Whether the word at an address is a jump to another address: its number
is the way there, and a machine that takes it goes on there. -/
structure JumpsTo (w : Word) (address target : Nat) : Prop where
  opcode : (Instruction.decode w).opcode = Operation.jump.byte
  number : (address : Int) + 1 + (Instruction.decode w).imm.toInt = target
  continues (m : Machine) : m.code[address]? = some w →
    m.frame.pc.toInt = address →
    m.TakesJump .jump (Instruction.decode w) →
    m.step.2 = .running ∧ m.step.1.frame.pc = Int64.ofNat target

/-- A jump back to a known label is encoded as long as its number has room for
the way. -/
theorem encode_jump {o : Operand} {name : String} {address target : Nat}
    (mnemonic : p.name = "jmp") (only : p.operands = [o])
    (symbol : o.symbol? = some name) (known : l.label? name = some target)
    (back : target ≤ address) (few : address < 2 ^ 23) :
    ∃ w, encode l address p = .ok w ∧ JumpsTo w address target := by
  have way : offset l address o minS24 maxS24 =
      .ok ((target : Int) - ((address : Int) + 1)) := by
    have room : ¬ ((target : Int) - ((address : Int) + 1) < minS24 ∨
        maxS24 < (target : Int) - ((address : Int) + 1)) := by
      simp only [minS24, maxS24]
      omega
    simp only [offset, symbol, known, room, if_false]
  obtain ⟨w, assembles⟩ : ∃ w, wordOf l address .jump [o] = .ok w := by
    simp only [wordOf, bind_eq_ok_iff, Operation.format,
      Operation.registers, List.drop_zero, pure_eq_ok_iff]
    exact ⟨_, [], rfl, _, way, rfl⟩
  obtain ⟨regs, imm, encodes⟩ := wordOf_encodes rfl assembles
  obtain ⟨same, sameLabel, there⟩ :=
    (encodes.number o rfl).target symbol (.inr rfl)
  obtain rfl : target = same := Option.some.inj (known.symm.trans sameLabel)
  have opcode : (Instruction.decode w).opcode = Operation.jump.byte := by
    rw [encodes.decode]
    rfl
  have number : (address : Int) + 1 + (Instruction.decode w).imm.toInt =
      target := by
    rw [encodes.decode]
    exact there
  refine ⟨w, ?_, opcode, number, ?_⟩
  · apply encode_eq_ok_iff.mpr
    rw [mnemonic, only]
    exact ⟨.jump, rfl, rfl, assembles⟩
  · intro m found here takes
    exact takesJump_continues opcode (.inr rfl) found here number takes

/-- No jump has a register for its operand. -/
theorem not_register_of_jump {img : Image} {o : Operand}
    (laid : ofLines lines = .ok img) (member : own ∈ lines)
    (holds : own.instruction? = some p) (mnemonic : p.name = "jmp")
    (operand : o ∈ p.operands) : o.kind ≠ .register := by
  obtain ⟨l, -, encoded⟩ := ofLines_eq_ok laid
  obtain ⟨place, found⟩ := List.mem_iff_getElem?.mp
    (List.mem_filterMap.mpr ⟨own, member, holds⟩ : p ∈ instructions lines)
  obtain ⟨w, -, assembles⟩ := encodeFrom_getElem? encoded found
  obtain ⟨op, known, counted, assembles⟩ := encode_eq_ok_iff.mp assembles
  obtain rfl : op = .jump := by
    rw [mnemonic] at known
    exact (Option.some.inj known).symm
  obtain ⟨regs, imm, encodes⟩ := wordOf_encodes counted assembles
  have denotes := encodes.denotes_of_mem_drop counted
    (show o ∈ p.operands.drop 0 from operand)
  rcases denotes.kind with ⟨kind, -⟩ | kind
  · simp [kind]
  · simp [kind]

end Added

/-! ## Labels -/

section Labels

variable {source : List UInt8} {img : Image}

/-- Whether a jump to a label can be added to a source: the image becomes the
same image with one more word, which jumps to a target. -/
def Usable (source : List UInt8) (img : Image) (name : String)
    (target : Nat) : Prop :=
  ∃ w,
    assemble (Source.withJump source name) =
        .ok { img with code := some (img.words.push w) } ∧
      JumpsTo w img.words.size target

/-- Of every source with fewer than `2 ^ 23` instructions that is accepted: a
jump to a label of it can be added if the label is a word, and then it leads
to the label.  If the label starts with a register behind which a word ends,
the source with the jump is refused. -/
theorem labels_usable (accepted : assemble source = .ok img)
    (few : img.words.size < 2 ^ 23) :
    ∃ lines, Source.parse source = .ok lines ∧
      ∀ place name, Declares lines place name →
        (name.toList ∈ Source.Pattern.word →
          Usable source img name (instructionCount (lines.take place))) ∧
          (name.toList ∉ Source.Pattern.word →
            ∀ other, assemble (Source.withJump source name) ≠
              .ok other) := by
  obtain ⟨lines, parsed, laid⟩ := assemble_eq_ok accepted
  refine ⟨lines, parsed, ?_⟩
  intro place name declares
  constructor
  · intro word
    obtain ⟨own, parsedJump, same⟩ := Source.parse_withJump parsed word
    obtain ⟨unlabelled, p, o, holds, mnemonic, only, symbol⟩ :=
      Source.of_jumpLine same
    obtain ⟨l, layout, -⟩ := ofLines_eq_ok laid
    have known := ((Layout.ofLines_reflects layout).label? name _).mpr
      ⟨place, declares, rfl⟩
    have back : instructionCount (lines.take place) ≤ img.words.size := by
      rw [(ofLines_faithful laid).size]
      exact instructionCount_take_le lines place
    obtain ⟨w, encoded, jumps⟩ :=
      encode_jump mnemonic only symbol known back few
    refine ⟨w, ?_, jumps⟩
    simp only [assemble, parsedJump]
    exact ofLines_append_instruction laid layout unlabelled holds encoded
  · intro noWord other acceptedJump
    obtain ⟨line, found, label⟩ := declares
    have named := Source.label_named parsed (List.mem_of_getElem? found) label
    obtain ⟨all, parsedJump, laidJump⟩ := assemble_eq_ok acceptedJump
    obtain ⟨own, member, p, holds, mnemonic, o, operand, register⟩ :=
      Source.parse_withJump_register parsed named noWord parsedJump
    exact not_register_of_jump laidJump member holds mnemonic operand register

/-- A source with two labels, one of which is a register. -/
def shadowedSource : List UInt8 :=
  ("r1: push r1\n" ++
    "loop: end").toUTF8.toList

def shadowedImage : Image where
  magic := Image.expectedMagic
  version := Image.expectedVersion
  entry := 0
  code := some #[0x00000115, 0x00000024]
  methods := #[]
  globals := #[]
  stack := #[]
  checksum := Vector.replicate 32 0

def shadowedLines : List Line :=
  (Source.parse shadowedSource).toOption.getD []

theorem shadowedSource_usable :
    assemble shadowedSource = .ok shadowedImage ∧
      Usable shadowedSource shadowedImage "loop" 1 ∧
        ∀ other, assemble (Source.withJump shadowedSource "r1") ≠
          .ok other := by
  have accepted : assemble shadowedSource = .ok shadowedImage :=
    toOption_eq_some_iff.mp (by decide +kernel)
  have parsed : Source.parse shadowedSource = .ok shadowedLines :=
    toOption_eq_some_iff.mp (by decide +kernel)
  obtain ⟨lines, same, usable⟩ := labels_usable accepted (by decide)
  obtain rfl : shadowedLines = lines := by
    simpa [parsed] using same
  have loop : Declares shadowedLines 1 "loop" :=
    Option.bind_eq_some_iff.mp (by decide +kernel)
  have word : "loop".toList ∈ Source.Pattern.word :=
    Source.word_of_name (Source.name_of_cons rfl rfl) rfl
  have count : instructionCount (shadowedLines.take 1) = 1 := by
    decide +kernel
  have shadowed : Declares shadowedLines 0 "r1" :=
    Option.bind_eq_some_iff.mp (by decide +kernel)
  have register : "r1".toList ∈ Source.Pattern.register :=
    ⟨['r'], ⟨'r', rfl, rfl⟩, ['1'],
      Source.mem_many_of_all (by decide) rfl, rfl⟩
  refine ⟨accepted, ?_, ?_⟩
  · rw [← count]
    exact (usable 1 "loop" loop).1 word
  · exact (usable 0 "r1" shadowed).2 (Source.not_word_of_register register)

end Labels

end Assembly

end WindowMachine
