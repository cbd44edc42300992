import WindowMachine.Listing
import WindowMachine.Proofs.Assembly.Methods
import WindowMachine.Proofs.Assembly.Restated
import WindowMachine.Proofs.Machine.EquivalentCode

/-!
# Code printed and assembled again

The words of some code, printed one to a line, are a source.  Its lines hold
nothing but an instruction each, so that both passes accept them.  The code
that they are assembled into says what the printed code says, word by word,
and therefore runs like it.
-/

namespace WindowMachine

open Source (Line Phrase)

namespace Assembly

/-! ## Lines joined into a source -/

section Joined

/-- A source of some lines of text: each with an end of line, or with ends of
line only between them. -/
def Joins (source : List UInt8) (texts : List String) : Prop :=
  source = Utf8.ofString (Listing.ofLines texts) ∨
    source = Utf8.ofString (String.intercalate "\n" texts)

/-- Lines of text, each with an end of line. -/
def ended (texts : List String) : List UInt8 :=
  texts.flatMap fun text => Utf8.ofString text ++ [0x0A]

theorem ended_append_singleton (texts : List String) (last : String) :
    ended (texts ++ [last]) =
      ended texts ++ Utf8.ofString last ++ [0x0A] := by
  simp [ended]

theorem ofString_ofLines (texts : List String) :
    Utf8.ofString (Listing.ofLines texts) = ended texts := by
  have generalised (seen : String) :
      Utf8.ofString (texts.foldl (fun text line => text ++ line ++ "\n") seen) =
        Utf8.ofString seen ++ ended texts := by
    induction texts generalizing seen with
    | nil =>
        simp [ended]
    | cons line texts inductionHypothesis =>
        have newline : Utf8.ofString "\n" = [0x0A] := rfl
        rw [List.foldl_cons, inductionHypothesis, Utf8.ofString_append,
          Utf8.ofString_append, newline]
        simp [ended]
  exact generalised ""

theorem ofString_intercalate (texts : List String) (last : String) :
    Utf8.ofString (String.intercalate "\n" (texts ++ [last])) =
      ended texts ++ Utf8.ofString last := by
  induction texts with
  | nil =>
      simp [ended]
  | cons first texts inductionHypothesis =>
      have newline : Utf8.ofString "\n" = [0x0A] := rfl
      rw [List.cons_append, String.intercalate_cons_of_ne_nil (by simp),
        Utf8.ofString_append, Utf8.ofString_append, inductionHypothesis,
        newline]
      simp [ended]

/-- Either way of joining lines gives the same lines. -/
theorem terminated_of_joins {source : List UInt8} {texts : List String}
    (joined : Joins source texts) (occupied : texts ≠ [])
    (plain : ∀ text ∈ texts, Utf8.ofString text ≠ [] ∧
      0x0A ∉ Utf8.ofString text) :
    Source.terminated source = ended texts := by
  obtain ⟨front, last, rfl⟩ : ∃ front last, texts = front ++ [last] :=
    ⟨_, _, (List.dropLast_concat_getLast occupied).symm⟩
  obtain ⟨nonempty, unbroken⟩ := plain last (by simp)
  rcases joined with rfl | rfl
  · rw [ofString_ofLines, Source.terminated, if_pos]
    rw [ended_append_singleton]
    simp
  · rw [ofString_intercalate, Source.terminated, if_neg,
      ended_append_singleton]
    -- The last byte is one of the last text, and so no end of line.
    obtain ⟨b, found⟩ := Option.isSome_iff_exists.mp
      (List.getLast?_isSome.mpr nonempty)
    rw [List.getLast?_append, found, Option.some_or]
    rintro ⟨rfl⟩
    exact unbroken (List.mem_of_getLast? found)

end Joined

/-! ## Code as lines -/

/-- The line that a word is printed as. -/
def lineOf (w : Word) : Line :=
  ⟨{}, none, (Operation.ofByte? w.toUInt8).map fun op =>
    .instruction ((Instruction.decode w).phrase op)⟩

section Lines

variable {w : Word} {op : Operation}

theorem lineOf_eq (known : Operation.ofByte? w.toUInt8 = some op) :
    lineOf w =
      ⟨{}, none, some (.instruction ((Instruction.decode w).phrase op))⟩ := by
  simp [lineOf, known]

theorem lineOf_printable (w : Word) : (lineOf w).Printable where
  label name declared := by
    cases declared
  statement body holds := by
    obtain ⟨op, -, rfl⟩ := Option.map_eq_some_iff.mp holds
    exact Instruction.phrase_printable op (Instruction.decode w)

theorem ofString_text (known : Operation.ofByte? w.toUInt8 = some op) :
    Utf8.ofString (Instruction.decode w).text =
      Source.spelled
        (Source.Statement.instruction
          ((Instruction.decode w).phrase op)).lexemes := by
  have opcode : Operation.ofByte? (Instruction.decode w).opcode = some op := by
    rw [Instruction.decode_opcode, known]
  have format : (Instruction.decode w).format = op.format := by
    rw [Instruction.format_decode, Opcode.format, opcode]
  rw [Instruction.text_eq_phrase opcode format]
  exact Source.ofString_phrase _ .name

theorem spelled_lineOf (known : Operation.ofByte? w.toUInt8 = some op) :
    Source.spelled (lineOf w).lexemes =
      Utf8.ofString (Instruction.decode w).text ++ [0x0A] := by
  rw [ofString_text known, lineOf_eq known]
  simp [Line.lexemes, Source.Lexeme.eol]

/-- Neither is the text of an instruction empty, nor does it go on on another
line. -/
theorem text_plain (known : Operation.ofByte? w.toUInt8 = some op) :
    Utf8.ofString (Instruction.decode w).text ≠ [] ∧
      0x0A ∉ Utf8.ofString (Instruction.decode w).text := by
  have printable := Instruction.phrase_printable op (Instruction.decode w)
  obtain ⟨b, bytes, -, mnemonic⟩ := printable.name.exists_cons
  have first : Utf8.ofString op.mnemonic = b :: bytes := mnemonic
  rw [ofString_text known]
  refine ⟨?_, Source.newline_not_mem_spelled printable⟩
  simp [Source.Statement.lexemes, Source.Statement.phrase,
    Instruction.phrase, Source.Lexeme.word, first]

end Lines

/-! ## Both passes -/

section Passes

variable {lines read : List Line}

/-- Lines that declare nothing are laid out. -/
theorem layout_of_plain
    (plain : ∀ line ∈ lines, line.label = none ∧
      ∀ p, line.statement ≠ some (.directive p)) :
    ∃ l, Layout.ofLines lines = .ok l ∧ l.entry = none := by
  have generalised (first : Layout) (unset : first.entry = none) :
      ∃ l, lines.foldlM Layout.line first = .ok l ∧ l.entry = none := by
    induction lines generalizing first with
    | nil =>
        exact ⟨first, rfl, unset⟩
    | cons line lines inductionHypothesis =>
        obtain ⟨unlabelled, undirected⟩ := plain line List.mem_cons_self
        have stepped : ∃ next, first.line line = .ok next ∧
            next.entry = none := by
          cases statement : line.statement with
          | none =>
              refine ⟨first, ?_, unset⟩
              simp only [Layout.line, unlabelled, statement]
              rfl
          | some body =>
              cases body with
              | directive p =>
                  exact absurd statement (undirected p)
              | instruction p =>
                  refine ⟨{ first with address := first.address + 1 }, ?_,
                    unset⟩
                  simp only [Layout.line, unlabelled, statement]
                  rfl
        obtain ⟨next, stepped, stillUnset⟩ := stepped
        rw [List.foldlM_cons, stepped]
        exact inductionHypothesis
          (fun other member => plain other (List.mem_cons_of_mem line member))
          next stillUnset
  exact generalised {} rfl

/-- Instructions that can be encoded at every address are all encoded. -/
theorem encodeFrom_of_all {l : Layout} {phrases : List Phrase}
    (each : ∀ p ∈ phrases, ∀ address, ∃ w, encode l address p = .ok w)
    (seen : Array Word) :
    ∃ code, encodeFrom l seen phrases = .ok code := by
  induction phrases generalizing seen with
  | nil =>
      exact ⟨seen, rfl⟩
  | cons p phrases inductionHypothesis =>
      obtain ⟨w, own⟩ := each p List.mem_cons_self seen.size
      simp only [encodeFrom, own]
      exact inductionHypothesis
        (fun other member => each other (List.mem_cons_of_mem p member))
        (seen.push w)

theorem ofLines_of_plain
    (plain : ∀ line ∈ lines, line.label = none ∧
      ∀ p, line.statement ≠ some (.directive p))
    (each : ∀ p ∈ instructions lines, ∀ l address,
      ∃ w, encode l address p = .ok w) :
    ∃ img, ofLines lines = .ok img := by
  obtain ⟨l, laid, unset⟩ := layout_of_plain plain
  obtain ⟨code, encoded⟩ := encodeFrom_of_all
    (fun p member address => each p member l address) #[]
  simp only [ofLines, laid, bind, Except.bind, encoded, entryAddress, unset]
  exact ⟨_, rfl⟩

end Passes

/-! ## Code assembled again -/

section Again

variable {code : Array Word} {source : List UInt8} {lines : List Line}

/-- The texts of the words of some code. -/
def texts (code : Array Word) : List String :=
  code.toList.map fun w => (Instruction.decode w).text

/-- A line that holds nothing but a phrase, which says what a word says. -/
structure Restates (line : Line) (p : Phrase) (w : Word) (op : Operation) :
    Prop where
  known : Operation.ofByte? w.toUInt8 = some op
  label : line.label = none
  statement : line.statement = some (.instruction p)
  phrase : p.unplaced = ((Instruction.decode w).phrase op).unplaced

/-- Lines that say what some code says, one for each word. -/
structure Transcribes (lines : List Line) (code : Array Word) : Prop where
  length : lines.length = code.size
  restates {place : Nat} {line : Line} : lines[place]? = some line →
    ∃ p w op, code[place]? = some w ∧ Restates line p w op

theorem restates_of_unplaced {line : Line} {w : Word} {op : Operation}
    (known : Operation.ofByte? w.toUInt8 = some op)
    (same : line.unplaced = (lineOf w).unplaced) :
    ∃ p, Restates line p w op := by
  rw [lineOf_eq known] at same
  obtain ⟨label, p, statement, phrase⟩ := Line.of_unplaced_instruction same
  exact ⟨p, known, label, statement, phrase⟩

theorem spelled_lines {words : List Word}
    (valid : ∀ w ∈ words, (Operation.ofByte? w.toUInt8).isSome = true) :
    Source.spelled ((words.map lineOf).flatMap Line.lexemes) =
      ended (words.map fun w => (Instruction.decode w).text) := by
  induction words with
  | nil =>
      rfl
  | cons w words inductionHypothesis =>
      obtain ⟨op, known⟩ :=
        Option.isSome_iff_exists.mp (valid w List.mem_cons_self)
      have others := inductionHypothesis fun other member =>
        valid other (List.mem_cons_of_mem w member)
      rw [List.map_cons, List.flatMap_cons, Source.spelled_append,
        spelled_lineOf known, others]
      simp [ended]

/-- Printed code is read as lines that say what it says. -/
theorem parse_of_joins
    (valid : ∀ w ∈ code, (Operation.ofByte? w.toUInt8).isSome = true)
    (nonempty : code ≠ #[]) (joined : Joins source (texts code)) :
    ∃ lines, Source.parse source = .ok lines ∧ Transcribes lines code := by
  have occupied : texts code ≠ [] := by
    simpa [texts] using nonempty
  have plain : ∀ text ∈ texts code, Utf8.ofString text ≠ [] ∧
      0x0A ∉ Utf8.ofString text := by
    intro text member
    obtain ⟨w, inside, rfl⟩ := List.mem_map.mp member
    obtain ⟨op, known⟩ :=
      Option.isSome_iff_exists.mp (valid w (by simpa using inside))
    exact text_plain known
  have printed : Source.terminated source =
      Source.spelled ((code.toList.map lineOf).flatMap Line.lexemes) := by
    rw [terminated_of_joins joined occupied plain,
      spelled_lines fun w member => valid w (by simpa using member)]
    rfl
  have printable : ∀ line ∈ code.toList.map lineOf, line.Printable := by
    intro line member
    obtain ⟨w, -, rfl⟩ := List.mem_map.mp member
    exact lineOf_printable w
  obtain ⟨lines, parsed, same⟩ := Source.parse_printed printable printed
  refine ⟨lines, parsed, ?_, ?_⟩
  · have lengths := congrArg List.length same
    simpa using lengths
  · intro place line found
    have own := congrArg (·[place]?) same
    simp only [List.getElem?_map, found, Option.map_some] at own
    rw [Array.getElem?_toList] at own
    cases held : code[place]? with
    | none =>
        rw [held] at own
        cases own
    | some w =>
        rw [held] at own
        obtain ⟨op, known⟩ :=
          Option.isSome_iff_exists.mp (valid w (Array.mem_of_getElem? held))
        obtain ⟨p, restates⟩ := restates_of_unplaced known (Option.some.inj own)
        exact ⟨p, w, op, rfl, restates⟩

theorem Restates.instruction? {line : Line} {p : Phrase} {w : Word}
    {op : Operation} (restates : Restates line p w op) :
    line.instruction? = some p := by
  simp [Line.instruction?, restates.statement]

theorem Restates.encode {line : Line} {p : Phrase} {w : Word} {op : Operation}
    (restates : Restates line p w op) (l : Layout) (address : Nat) :
    ∃ v, Assembly.encode l address p = .ok v ∧ w.Equivalent v := by
  obtain ⟨lower, upper⟩ := Instruction.decode_imm_bounds restates.known
  obtain ⟨v, encoded, encodes⟩ :=
    encode_of_unplaced restates.phrase l address lower upper
  exact ⟨v, encoded, encodes.equivalent restates.known⟩

namespace Transcribes

variable (transcribes : Transcribes lines code)

include transcribes

theorem restates_of_mem {line : Line} (member : line ∈ lines) :
    ∃ p w op, Restates line p w op := by
  obtain ⟨place, found⟩ := List.mem_iff_getElem?.mp member
  obtain ⟨p, w, op, -, restates⟩ := transcribes.restates found
  exact ⟨p, w, op, restates⟩

theorem instructionCount_take {place : Nat} (inside : place ≤ lines.length) :
    instructionCount (lines.take place) = place := by
  have all : ∀ line ∈ lines.take place, line.instruction?.isSome = true := by
    intro line member
    obtain ⟨p, w, op, restates⟩ :=
      transcribes.restates_of_mem (List.mem_of_mem_take member)
    rw [restates.instruction?]
    rfl
  rw [instructionCount, List.countP_eq_length.mpr all, List.length_take,
    Nat.min_eq_left inside]

theorem accepted : ∃ img, ofLines lines = .ok img := by
  apply ofLines_of_plain
  · intro line member
    obtain ⟨p, w, op, restates⟩ := transcribes.restates_of_mem member
    refine ⟨restates.label, ?_⟩
    intro q directive
    rw [restates.statement] at directive
    cases directive
  · intro p member l address
    obtain ⟨line, inside, holds⟩ := List.mem_filterMap.mp member
    obtain ⟨q, w, op, restates⟩ := transcribes.restates_of_mem inside
    obtain rfl : q = p :=
      Option.some.inj (restates.instruction?.symm.trans holds)
    obtain ⟨v, encoded, -⟩ := restates.encode l address
    exact ⟨v, encoded⟩

/-- The code of lines that say what some code says is equivalent to it. -/
theorem equivalentCode {img : Image} (laid : ofLines lines = .ok img) :
    EquivalentCode code img.words := by
  obtain ⟨l, -, encoded⟩ := ofLines_eq_ok laid
  refine ⟨?_, ?_⟩
  · have count := transcribes.instructionCount_take (Nat.le_refl _)
    rw [List.take_length] at count
    rw [encodeFrom_size encoded, length_instructions, count,
      transcribes.length]
    simp
  · intro place w v found again
    have inside : place < lines.length := by
      rw [transcribes.length]
      exact (Array.getElem?_eq_some_iff.mp found).1
    have line := List.getElem?_eq_getElem inside
    obtain ⟨p, other, op, own, restates⟩ := transcribes.restates line
    obtain rfl : w = other := Option.some.inj (found.symm.trans own)
    obtain ⟨u, written, encodedHere⟩ := encodeFrom_getElem? encoded
      (instructions_getElem? line restates.instruction?)
    rw [transcribes.instructionCount_take (Nat.le_of_lt inside),
      Array.size_empty, Nat.zero_add] at written encodedHere
    obtain rfl : v = u := Option.some.inj (again.symm.trans written)
    obtain ⟨t, alsoEncoded, alike⟩ := restates.encode l place
    obtain rfl : v = t := Except.ok.inj (encodedHere.symm.trans alsoEncoded)
    exact alike

end Transcribes

theorem assemble_nil :
    ∃ img, assemble [] = .ok img ∧ img.words = #[] :=
  ⟨_, rfl, rfl⟩

theorem assemble_of_joins
    (valid : ∀ w ∈ code, (Operation.ofByte? w.toUInt8).isSome = true)
    (joined : Joins source (texts code)) :
    ∃ img, assemble source = .ok img ∧ EquivalentCode code img.words := by
  by_cases empty : code = #[]
  · subst empty
    obtain rfl : source = [] := by
      rcases joined with rfl | rfl
      · rfl
      · rfl
    obtain ⟨img, assembled, none⟩ := assemble_nil
    refine ⟨img, assembled, ?_⟩
    rw [none]
    exact ⟨rfl, fun found => by simp at found⟩
  · obtain ⟨lines, parsed, transcribes⟩ := parse_of_joins valid empty joined
    obtain ⟨img, laid⟩ := transcribes.accepted
    refine ⟨img, ?_, transcribes.equivalentCode laid⟩
    simp only [assemble, parsed, laid]

/-- Every word that the assembler writes has an operation and is tidy. -/
theorem assemble_tidy {img : Image} (accepted : assemble source = .ok img)
    {w : Word} (member : w ∈ img.words) :
    (Operation.ofByte? w.toUInt8).isSome = true ∧ w.Tidy := by
  obtain ⟨lines, -, laid⟩ := assemble_eq_ok accepted
  obtain ⟨l, -, encoded⟩ := ofLines_eq_ok laid
  obtain ⟨place, found⟩ := Array.mem_iff_getElem?.mp member
  have inside : place < (instructions lines).length := by
    have bound := (Array.getElem?_eq_some_iff.mp found).1
    rw [encodeFrom_size encoded] at bound
    simpa using bound
  obtain ⟨v, written, own⟩ := encodeFrom_getElem? encoded
    (List.getElem?_eq_getElem inside)
  rw [Array.size_empty, Nat.zero_add] at written
  obtain rfl : w = v := Option.some.inj (found.symm.trans written)
  obtain ⟨op, -, counted, own⟩ := encode_eq_ok_iff.mp own
  obtain ⟨regs, imm, encodes⟩ := wordOf_encodes counted own
  exact ⟨by rw [encodes.known]; rfl, encodes.tidy⟩

/-- Printed code is a faithful program.  Assembling it gives equivalent code,
and the same word wherever the bytes that its operation does not read are zero,
as they are in all that the assembler writes.  Both run alike on every machine,
from every address, within every budget. -/
theorem disassembly_faithful
    (valid : ∀ w ∈ code, (Operation.ofByte? w.toUInt8).isSome = true)
    (joined : Joins source (texts code)) :
    (∃ img, assemble source = .ok img ∧
      EquivalentCode code img.words ∧
        (∀ (place : Nat) (w : Word), code[place]? = some w → w.Tidy →
          img.words[place]? = some w) ∧
          ∀ (m : Machine) (entry : Int64),
            Machine.SameRun (m.run code entry) (m.run img.words entry)) ∧
      ∀ (other : List UInt8) (img : Image), assemble other = .ok img →
        ∀ w ∈ img.words,
          (Operation.ofByte? w.toUInt8).isSome = true ∧ w.Tidy := by
  obtain ⟨img, accepted, alike⟩ := assemble_of_joins valid joined
  refine ⟨⟨img, accepted, alike, ?_, Machine.run_sameRun alike⟩, ?_⟩
  · intro place w found tidy
    have inside : place < img.words.size := by
      rw [alike.size]
      exact (Array.getElem?_eq_some_iff.mp found).1
    have again := Array.getElem?_eq_getElem inside
    have alsoTidy :=
      (assemble_tidy accepted (Array.mem_of_getElem? again)).2
    obtain ⟨op, known⟩ :=
      Option.isSome_iff_exists.mp (valid w (Array.mem_of_getElem? found))
    rw [again, (alike.words found again).eq_of_tidy known tidy alsoTidy]
  · intro other image assembled w member
    exact assemble_tidy assembled member

/-- Code with something in every byte that is not read: a third register of a
move, a register of a call, and operands of the end. -/
def untidyCode : Array Word :=
  #[0x07020117, 0x00030520, 0x0000FF1E, 0xFFFFFF1F, 0xABCDEF24]

def untidyText : List UInt8 :=
  ("mov r1, r2\n" ++
    "call 3\n" ++
    "je r255, -32768\n" ++
    "jmp +8388607\n" ++
    "end").toUTF8.toList

theorem untidyCode_restored :
    (∀ w ∈ untidyCode, (Operation.ofByte? w.toUInt8).isSome = true) ∧
      Joins untidyText (texts untidyCode) ∧
        ∃ img, assemble untidyText = .ok img ∧
          EquivalentCode untidyCode img.words ∧
            ∀ (m : Machine) (entry : Int64),
              Machine.SameRun (m.run untidyCode entry)
                (m.run img.words entry) := by
  have valid : ∀ w ∈ untidyCode,
      (Operation.ofByte? w.toUInt8).isSome = true := by
    have all : untidyCode.toList.all
        (fun w => (Operation.ofByte? w.toUInt8).isSome) = true := by
      decide
    intro w member
    exact List.all_eq_true.mp all w (by simpa using member)
  have joined : Joins untidyText (texts untidyCode) :=
    .inr (by decide +kernel)
  obtain ⟨⟨img, accepted, alike, -, runs⟩, -⟩ :=
    disassembly_faithful valid joined
  exact ⟨valid, joined, img, accepted, alike, runs⟩

end Again

end Assembly

end WindowMachine
