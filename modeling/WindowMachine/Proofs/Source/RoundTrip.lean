import WindowMachine.Proofs.Assembly.Disassembly
import WindowMachine.Proofs.Source.Patterns

/-!
# Lines written and parsed

Lines are written as their label, their directive or mnemonic and their
operands, each line with an end of line.  If all pieces match the patterns of
their kinds, parsing the text gives these lines back.  Only a text without any
line does not come back, for an end of line is put behind it, and so it is
parsed as one empty line.
-/

namespace WindowMachine.Source

/-! ## Lines as text -/

def Line.text (l : Line) : String :=
  match l.label, l.statement with
  | none, none => ""
  | some name, none => name ++ ":"
  | none, some body => body.phrase.text
  | some name, some body => name ++ ": " ++ body.phrase.text

/-- Lines as a text. -/
def written (lines : List Line) : String :=
  Listing.ofLines (lines.map Line.text)

section Written

variable {lines : List Line}

theorem spelled_statement (body : Statement) :
    spelled body.lexemes = Utf8.ofString body.phrase.text :=
  (ofString_phrase body.phrase body.kind).symm

theorem spelled_line (l : Line) :
    spelled l.lexemes = Utf8.ofString l.text ++ [0x0A] := by
  have nothing : Utf8.ofString "" = [] := rfl
  have colon : Utf8.ofString ":" = [0x3A] := rfl
  have spaced : Utf8.ofString ": " = [0x3A, 0x20] := rfl
  cases label : l.label with
  | none =>
      cases statement : l.statement with
      | none =>
          simp [Line.lexemes, Line.text, label, statement, Lexeme.eol,
            nothing]
      | some body =>
          simp [Line.lexemes, Line.text, label, statement, Lexeme.eol,
            spelled_statement]
  | some name =>
      cases statement : l.statement with
      | none =>
          simp [Line.lexemes, Line.text, label, statement, Lexeme.eol,
            labelLexeme, Lexeme.word]
      | some body =>
          simp [Line.lexemes, Line.text, label, statement, Lexeme.eol,
            labelLexeme, Lexeme.word, Lexeme.space, spelled_statement,
            Utf8.ofString_append, colon, spaced]

theorem ofString_written (lines : List Line) :
    Utf8.ofString (written lines) = spelled (lines.flatMap Line.lexemes) := by
  rw [written, Assembly.ofString_ofLines, Assembly.ended]
  induction lines with
  | nil =>
      rfl
  | cons l lines inductionHypothesis =>
      rw [List.flatMap_cons, spelled_append, spelled_line,
        ← inductionHypothesis]
      rfl

/-- A written text ends with an end of line, unless it is empty. -/
theorem terminated_written (nonempty : lines ≠ []) :
    terminated (Utf8.ofString (written lines)) =
      spelled (lines.flatMap Line.lexemes) := by
  rw [ofString_written]
  obtain ⟨front, last, rfl⟩ : ∃ front last, lines = front ++ [last] :=
    ⟨_, _, (List.dropLast_concat_getLast nonempty).symm⟩
  rw [terminated, if_pos]
  simp [spelled_line]

end Written

/-! ## Legal lines -/

/-- The texts that operands of a kind can have. -/
def OperandKind.pattern : OperandKind → Language Char
  | .register => Pattern.register
  | .float => Pattern.float
  | .int => Pattern.int
  | .symbol => Pattern.word

/-- What a statement can start with. -/
def Statement.pattern : Statement → Language Char
  | .directive _ => Pattern.directive
  | .instruction _ => Pattern.word

/-- Whether the pieces of a line match the patterns of their kinds. -/
structure Line.Legal (l : Line) : Prop where
  label (name : String) : l.label = some name → name.toList ∈ Pattern.name
  name (body : Statement) : l.statement = some body →
    body.phrase.name.toList ∈ body.pattern
  operands (body : Statement) : l.statement = some body →
    ∀ o ∈ body.phrase.operands, o.text.toList ∈ o.kind.pattern

section Legal

variable {l : Line} {lines : List Line}

theorem spells_operand {o : Operand}
    (matched : o.text.toList ∈ o.kind.pattern) :
    Spells o.kind.token o.text := by
  cases kind : o.kind with
  | register =>
      rw [kind] at matched
      exact spells_anyRegister matched
  | float =>
      rw [kind] at matched
      exact spells_float matched
  | int =>
      rw [kind] at matched
      exact spells_int matched
  | symbol =>
      rw [kind] at matched
      exact spells_word matched

theorem spells_statement {body : Statement}
    (matched : body.phrase.name.toList ∈ body.pattern) :
    Spells body.kind body.phrase.name := by
  cases body with
  | directive p =>
      exact spells_directive matched
  | instruction p =>
      exact spells_word matched

theorem Line.Legal.printable (legal : l.Legal) : l.Printable where
  label name declared := by
    apply spells_label
    rw [String.toList_append]
    exact ⟨_, legal.label name declared, _, ⟨':', rfl, rfl⟩, rfl⟩
  statement body held :=
    ⟨spells_statement (legal.name body held),
      fun o member => spells_operand (legal.operands body held o member)⟩

/-- Parsing gives back written lines, but for their places. -/
theorem parse_written (nonempty : lines ≠ [])
    (legal : ∀ l ∈ lines, l.Legal) :
    ∃ read, parse (Utf8.ofString (written lines)) = .ok read ∧
      read.map Line.unplaced = lines.map Line.unplaced :=
  parse_printed (fun l member => (legal l member).printable)
    (terminated_written nonempty)

/-- Lines with a label, with a directive, with operands of each kind, and with
nothing at all. -/
def medley : List Line :=
  [⟨{}, some "loop", some (.instruction ⟨"ret",
      [⟨.register, "R10", {}⟩, ⟨.int, "-0x1F", {}⟩, ⟨.float, "1.5e+3", {}⟩,
        ⟨.symbol, "x.y", {}⟩], {}⟩)⟩,
   ⟨{}, none, none⟩,
   ⟨{}, some "r1", none⟩,
   ⟨{}, none, some (.directive ⟨".method", [⟨.int, "7", {}⟩], {}⟩)⟩]

theorem medley_legal : ∀ l ∈ medley, l.Legal := by
  have ret : "ret".toList ∈ Pattern.word :=
    word_of_name (name_of_cons rfl rfl) rfl
  have symbol : "x.y".toList ∈ Pattern.word :=
    word_of_name (name_of_cons rfl rfl) rfl
  have register : "R10".toList ∈ Pattern.register :=
    ⟨['R'], ⟨'R', rfl, rfl⟩, ['1', '0'], mem_many_of_all nofun rfl, rfl⟩
  have hex : "-0x1F".toList ∈ Pattern.int :=
    ⟨['-'], .inr ⟨'-', rfl, rfl⟩, _, .inl ⟨['0'], ⟨'0', rfl, rfl⟩, _,
      ⟨['x'], ⟨'x', rfl, rfl⟩, ['1', 'F'], mem_many_of_all nofun rfl, rfl⟩,
      rfl⟩, rfl⟩
  have exponent : "e+3".toList ∈ Pattern.exponent :=
    ⟨['e'], ⟨'e', rfl, rfl⟩, _, ⟨['+'], .inr ⟨'+', rfl, rfl⟩, ['3'],
      mem_many_of_all nofun rfl, rfl⟩, rfl⟩
  have float : "1.5e+3".toList ∈ Pattern.float :=
    ⟨[], .inl rfl, _, ⟨['1'], mem_many_of_all nofun rfl, _,
      ⟨['.'], ⟨'.', rfl, rfl⟩, _, ⟨['5'], mem_many_of_all nofun rfl, _,
        .inr exponent, rfl⟩, rfl⟩, rfl⟩, rfl⟩
  have directive : ".method".toList ∈ Pattern.directive :=
    ⟨['.'], ⟨'.', rfl, rfl⟩, ['m', 'e', 't', 'h', 'o', 'd'],
      mem_many_of_all nofun rfl, rfl⟩
  have decimal : "7".toList ∈ Pattern.int :=
    ⟨[], .inl rfl, ['7'], .inr (mem_many_of_all nofun rfl), rfl⟩
  simp only [medley, List.forall_mem_cons]
  refine ⟨⟨?_, ?_, ?_⟩, ⟨?_, ?_, ?_⟩, ⟨?_, ?_, ?_⟩, ⟨?_, ?_, ?_⟩, by simp⟩
  · rintro _ ⟨⟩
    exact name_of_cons rfl rfl
  · rintro _ ⟨⟩
    exact ret
  · rintro _ ⟨⟩
    simp only [Statement.phrase, List.forall_mem_cons]
    exact ⟨register, hex, float, symbol, by simp⟩
  · rintro _ ⟨⟩
  · rintro _ ⟨⟩
  · rintro _ ⟨⟩
  · rintro _ ⟨⟩
    exact name_of_cons rfl rfl
  · rintro _ ⟨⟩
  · rintro _ ⟨⟩
  · rintro _ ⟨⟩
  · rintro _ ⟨⟩
    exact directive
  · rintro _ ⟨⟩
    simp only [Statement.phrase, List.forall_mem_cons]
    exact ⟨decimal, by simp⟩

theorem medley_parsed :
    medley ≠ [] ∧ (∀ l ∈ medley, l.Legal) ∧
      ∃ read, parse (Utf8.ofString (written medley)) = .ok read ∧
        read.map Line.unplaced = medley.map Line.unplaced := by
  have nonempty : medley ≠ [] := by
    simp [medley]
  exact ⟨nonempty, medley_legal, parse_written nonempty medley_legal⟩

/-- The empty text is not parsed as no lines. -/
theorem parse_written_nil :
    ¬ ∀ lines : List Line, (∀ l ∈ lines, l.Legal) →
      ∃ read, parse (Utf8.ofString (written lines)) = .ok read ∧
        read.map Line.unplaced = lines.map Line.unplaced := by
  intro all
  obtain ⟨read, parsed, same⟩ := all [] (by simp)
  obtain rfl : [⟨{}, none, none⟩] = read := Except.ok.inj parsed
  cases same

end Legal

end WindowMachine.Source
