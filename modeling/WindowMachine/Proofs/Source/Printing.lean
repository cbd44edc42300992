import WindowMachine.Proofs.Source.Scanning
import WindowMachine.Source.Line

/-!
# Lines printed and read back

A line is printed as its label, its directive or mnemonic and its operands,
divided by a space or by a comma and a space.  Where every piece of it is one
token when it stands alone, the printed line is read as these tokens, because
every piece has a stop behind it; and the tokens are read as the line that
was printed.  Only the places are new.
-/

namespace WindowMachine

/-! ## Plain text -/

theorem Utf8.ofString_append (s t : String) :
    ofString (s ++ t) = ofString s ++ ofString t := by
  simp [ofString]

theorem Utf8.ofString_ascii {text : String}
    (ascii : ∀ c ∈ text.toList, c.toNat < 128) :
    ofString text = text.toList.map fun c => UInt8.ofNat c.toNat := by
  rw [ofString]
  generalize text.toList = chars at ascii
  induction chars with
  | nil =>
      rfl
  | cons c chars inductionHypothesis =>
      have small : c.val.toNat ≤ 127 :=
        Nat.le_of_lt_succ (ascii c List.mem_cons_self)
      have encoded : String.utf8EncodeChar c = [UInt8.ofNat c.toNat] := by
        simp only [String.utf8EncodeChar, small, if_true]
        rfl
      rw [List.flatMap_cons, encoded, List.map_cons, inductionHypothesis
        fun other member => ascii other (List.mem_cons_of_mem c member)]
      rfl

namespace Source

theorem Token.text_of_bytes {t : Token} {text : String}
    (ascii : ∀ c ∈ text.toList, c.toNat < 128)
    (bytes : t.bytes = Utf8.ofString text) : t.text = text := by
  have kept : text.toList.map
      ((fun b : UInt8 => Char.ofNat b.toNat) ∘ fun c => UInt8.ofNat c.toNat) =
        text.toList := by
    rw [List.map_congr_left, List.map_id]
    intro c member
    have small := ascii c member
    simp only [Function.comp, UInt8.toNat_ofNat']
    rw [Nat.mod_eq_of_lt (by omega), Char.ofNat_toNat]
    rfl
  rw [Token.text, bytes, Utf8.ofString_ascii ascii, List.map_map, kept,
    String.ofList_toList]

/-- Whether a text is a word of a kind when it stands alone. -/
structure Spells (kind : Kind) (text : String) : Prop where
  word : kind.isWord = true
  ascii (c : Char) : c ∈ text.toList → c.toNat < 128
  read : firstKind? (Utf8.ofString text) =
    some (kind, (Utf8.ofString text).length)

/-! ## Lexemes -/

namespace Lexeme

def word (kind : Kind) (text : String) : Lexeme := ⟨kind, Utf8.ofString text⟩

def space : Lexeme := ⟨.blank, [0x20]⟩

def comma : Lexeme := ⟨.comma, [0x2C]⟩

def eol : Lexeme := ⟨.eol, [0x0A]⟩

end Lexeme

/-- Whether a text starts with a stop. -/
def Stopped (bytes : List UInt8) : Prop :=
  ∃ stop rest, isStop stop = true ∧ bytes = stop :: rest

section Legible

variable {kind : Kind} {text : String} {more : List Lexeme}
  {rest : List UInt8}

theorem Spells.exists_cons (spells : Spells kind text) :
    ∃ b bytes, isInk b = true ∧ Utf8.ofString text = b :: bytes := by
  have read := spells.read
  cases split : Utf8.ofString text with
  | nil =>
      rw [split] at read
      exact absurd (length_of_firstKind? read).2 (Nat.lt_irrefl 0)
  | cons b bytes =>
      rw [split] at read
      exact ⟨b, bytes, isInk_of_firstKind? read spells.word, rfl⟩

/-- No word holds a stop: it would end there. -/
theorem Spells.isStop_eq_false (spells : Spells kind text) {b : UInt8}
    (member : b ∈ Utf8.ofString text) : isStop b = false := by
  obtain ⟨first, bytes, ink, word⟩ := spells.exists_cons
  have read := spells.read
  rw [word] at read member
  cases stops : isStop b with
  | false =>
      rfl
  | true =>
      rcases List.mem_cons.mp member with rfl | inside
      · rcases isStop_cases stops with rfl | rfl | rfl <;> cases ink
      · obtain ⟨front, back, rfl⟩ := List.append_of_mem inside
        have cut : firstKind? (first :: (front ++ b :: back)) =
            firstKind? (first :: front) := firstKind?_append_stop ink stops
        have whole := (length_of_firstKind? (cut ▸ read)).1
        have bound := Kind.length_le kind (first :: front)
        simp only [List.length_cons, List.length_append] at whole bound
        omega

/-- A word that has a stop behind it is read as that word. -/
theorem legible_word (spells : Spells kind text)
    (stopped : Stopped (spelled more ++ rest)) (legible : Legible more rest) :
    Legible (.word kind text :: more) rest := by
  refine ⟨?_, legible⟩
  obtain ⟨stop, behind, stops, split⟩ := stopped
  obtain ⟨b, bytes, ink, word⟩ := spells.exists_cons
  have read := spells.read
  simp only [Lexeme.word, split]
  rw [word] at read ⊢
  rw [firstKind?_append_stop ink stops, read]

theorem legible_space (spells : Spells kind text)
    (legible : Legible (.word kind text :: more) rest) :
    Legible (.space :: .word kind text :: more) rest := by
  refine ⟨?_, legible⟩
  obtain ⟨b, bytes, ink, word⟩ := spells.exists_cons
  simp only [spelled_cons, Lexeme.space, Lexeme.word, word, List.cons_append,
    List.nil_append]
  exact firstKind?_space ink

theorem legible_comma (legible : Legible more rest) :
    Legible (.comma :: more) rest :=
  ⟨firstKind?_comma, legible⟩

theorem legible_eol (rest : List UInt8) : Legible [.eol] rest :=
  ⟨firstKind?_eol, trivial⟩

end Legible

/-! ## Printing -/

/-- The kind of token that an operand is. -/
def OperandKind.token : OperandKind → Kind
  | .register => .register
  | .float => .float
  | .int => .int
  | .symbol => .name

def Operand.lexeme (o : Operand) : Lexeme := .word o.kind.token o.text

/-- Operands that follow another one. -/
def moreLexemes (operands : List Operand) : List Lexeme :=
  operands.flatMap fun o => [.comma, .space, o.lexeme]

/-- The operands of a phrase. -/
def operandLexemes : List Operand → List Lexeme
  | [] => []
  | first :: more => .space :: first.lexeme :: moreLexemes more

/-- The kind of token that a statement starts with. -/
def Statement.kind : Statement → Kind
  | .directive _ => .directive
  | .instruction _ => .name

/-- The directive or mnemonic of a statement with its operands. -/
def Statement.phrase : Statement → Phrase
  | .directive p | .instruction p => p

def Statement.lexemes (body : Statement) : List Lexeme :=
  .word body.kind body.phrase.name :: operandLexemes body.phrase.operands

/-- The label of a line with its colon. -/
def labelLexeme (name : String) : Lexeme := .word .label (name ++ ":")

/-- A line with its end. -/
def Line.lexemes (l : Line) : List Lexeme :=
  match l.label, l.statement with
  | none, none => [.eol]
  | some name, none => [labelLexeme name, .eol]
  | none, some body => body.lexemes ++ [.eol]
  | some name, some body =>
    labelLexeme name :: .space :: (body.lexemes ++ [.eol])

/-- Whether a statement consists of words. -/
structure Statement.Printable (body : Statement) : Prop where
  name : Spells body.kind body.phrase.name
  operands (o : Operand) :
    o ∈ body.phrase.operands → Spells o.kind.token o.text

/-- Whether a line consists of words. -/
structure Line.Printable (l : Line) : Prop where
  label (name : String) : l.label = some name → Spells .label (name ++ ":")
  statement (body : Statement) : l.statement = some body → body.Printable

section Printing

variable {operands : List Operand} {rest : List UInt8}
  (words : ∀ o ∈ operands, Spells o.kind.token o.text)
  (stopped : Stopped rest)

include stopped

theorem stopped_more :
    Stopped (spelled (moreLexemes operands) ++ rest) := by
  cases operands with
  | nil =>
      exact stopped
  | cons o operands =>
      exact ⟨0x2C, _, rfl, rfl⟩

include words

theorem legible_more : Legible (moreLexemes operands) rest := by
  induction operands with
  | nil =>
      trivial
  | cons o operands inductionHypothesis =>
      have own := words o List.mem_cons_self
      have others := inductionHypothesis fun other member =>
        words other (List.mem_cons_of_mem o member)
      exact legible_comma
        (legible_space own (legible_word own (stopped_more stopped) others))

theorem legible_operands {kind : Kind} {name : String}
    (spells : Spells kind name) :
    Legible (.word kind name :: operandLexemes operands) rest := by
  cases operands with
  | nil =>
      exact legible_word spells stopped trivial
  | cons o operands =>
      have own := words o List.mem_cons_self
      have others := legible_more
        (fun other member => words other (List.mem_cons_of_mem o member))
        stopped
      exact legible_word spells ⟨0x20, _, rfl, rfl⟩
        (legible_space own (legible_word own (stopped_more stopped) others))

end Printing

section Legible

variable {body : Statement} {l : Line} {rest : List UInt8}

theorem legible_statement (printable : body.Printable) :
    Legible (body.lexemes ++ [.eol]) rest := by
  have stopped : Stopped (spelled [.eol] ++ rest) := ⟨0x0A, rest, rfl, rfl⟩
  apply legible_append.mpr
  exact ⟨legible_operands printable.operands stopped printable.name,
    legible_eol rest⟩

theorem mem_operandLexemes {operands : List Operand} {x : Lexeme}
    (member : x ∈ operandLexemes operands) :
    x = .space ∨ x = .comma ∨ ∃ o ∈ operands, x = o.lexeme := by
  cases operands with
  | nil =>
      cases member
  | cons first more =>
      simp only [operandLexemes, moreLexemes, List.mem_cons,
        List.mem_flatMap, List.not_mem_nil, or_false] at member
      rcases member with space | own | ⟨o, inside, comma | space | other⟩
      · exact .inl space
      · exact .inr (.inr ⟨first, List.mem_cons_self, own⟩)
      · exact .inr (.inl comma)
      · exact .inl space
      · exact .inr (.inr ⟨o, List.mem_cons_of_mem first inside, other⟩)

/-- A statement stays on its line. -/
theorem newline_not_mem_spelled (printable : body.Printable) :
    0x0A ∉ spelled body.lexemes := by
  intro newline
  obtain ⟨x, member, inside⟩ := List.mem_flatMap.mp newline
  have unbroken {kind : Kind} {text : String} (spells : Spells kind text) :
      0x0A ∉ (Lexeme.word kind text).bytes := by
    intro held
    have stops := spells.isStop_eq_false held
    cases stops
  rcases List.mem_cons.mp member with rfl | member
  · exact unbroken printable.name inside
  · rcases mem_operandLexemes member with rfl | rfl | ⟨o, own, rfl⟩
    · simp [Lexeme.space] at inside
    · simp [Lexeme.comma] at inside
    · exact unbroken (printable.operands o own) inside

theorem legible_line (printable : l.Printable) : Legible l.lexemes rest := by
  have ended : Stopped (spelled [.eol] ++ rest) := ⟨0x0A, rest, rfl, rfl⟩
  cases label : l.label with
  | none =>
      cases statement : l.statement with
      | none =>
          simp only [Line.lexemes, label, statement]
          exact legible_eol rest
      | some body =>
          simp only [Line.lexemes, label, statement]
          exact legible_statement (printable.statement body statement)
  | some name =>
      have spells := printable.label name label
      cases statement : l.statement with
      | none =>
          simp only [Line.lexemes, label, statement]
          exact legible_word spells ended (legible_eol rest)
      | some body =>
          have printableBody := printable.statement body statement
          have legible : Legible (body.lexemes ++ [.eol]) rest :=
            legible_statement printableBody
          simp only [Line.lexemes, label, statement]
          exact legible_word spells ⟨0x20, _, rfl, rfl⟩
            (legible_space printableBody.name legible)

theorem legible_lines {lines : List Line}
    (printable : ∀ l ∈ lines, l.Printable) :
    Legible (lines.flatMap Line.lexemes) rest := by
  induction lines with
  | nil =>
      trivial
  | cons l lines inductionHypothesis =>
      rw [List.flatMap_cons, legible_append]
      exact ⟨legible_line (printable l List.mem_cons_self),
        inductionHypothesis fun other member =>
          printable other (List.mem_cons_of_mem l member)⟩

end Legible

/-! ## Reading -/

/-- An operand without its place. -/
def Operand.unplaced (o : Operand) : Operand := { o with pos := {} }

/-- A phrase without its places. -/
def Phrase.unplaced (p : Phrase) : Phrase :=
  ⟨p.name, p.operands.map Operand.unplaced, {}⟩

/-- A statement without its places. -/
def Statement.unplaced : Statement → Statement
  | .directive p => .directive p.unplaced
  | .instruction p => .instruction p.unplaced

/-- A line without its places. -/
def Line.unplaced (l : Line) : Line :=
  ⟨{}, l.label, l.statement.map Statement.unplaced⟩

theorem Line.of_unplaced_instruction {l : Line} {p : Phrase}
    {label : Option String}
    (same : l.unplaced = ⟨{}, label, some (.instruction p)⟩) :
    l.label = label ∧
      ∃ own, l.statement = some (.instruction own) ∧ own.unplaced = p := by
  refine ⟨congrArg Line.label same, ?_⟩
  have statements : l.statement.map Statement.unplaced =
      some (.instruction p) := congrArg Line.statement same
  obtain ⟨body, found, unplaced⟩ := Option.map_eq_some_iff.mp statements
  cases body with
  | directive own =>
      cases unplaced
  | instruction own =>
      exact ⟨own, found, Statement.instruction.inj unplaced⟩

/-- The lexemes that are not left out. -/
def kept (lexemes : List Lexeme) : List Lexeme :=
  lexemes.filter fun x => !x.kind.isSkipped

section Kept

variable {more : List Lexeme}

theorem kept_word {kind : Kind} (word : kind.isWord = true) (text : String) :
    kept (.word kind text :: more) = .word kind text :: kept more := by
  have keeps : kind.isSkipped = false := by
    cases kind <;> first | rfl | cases word
  simp [kept, Lexeme.word, keeps]

theorem kept_operand (o : Operand) :
    kept (o.lexeme :: more) = o.lexeme :: kept more :=
  kept_word (by cases o.kind <;> rfl) o.text

theorem kept_more (o : Operand) (operands : List Operand) :
    kept (moreLexemes (o :: operands)) =
      .comma :: o.lexeme :: kept (moreLexemes operands) :=
  congrArg (List.cons Lexeme.comma) (kept_operand o)

end Kept

section Reading

variable {tokens : List Token} {eol : Token} {operands : List Operand}

theorem operand?_of_lexeme {t : Token} {o : Operand}
    (spells : Spells o.kind.token o.text) (same : t.lexeme = o.lexeme) :
    ∃ read, operand? t = some read ∧ read.unplaced = o.unplaced := by
  have kind : t.kind = o.kind.token := congrArg Lexeme.kind same
  have text : t.text = o.text :=
    Token.text_of_bytes spells.ascii (congrArg Lexeme.bytes same)
  refine ⟨⟨o.kind, o.text, t.pos⟩, ?_, rfl⟩
  cases ownKind : o.kind with
  | register | float | int | symbol =>
      simp [operand?, kind, ownKind, OperandKind.token, text]

variable (rest : List Token) (ends : eol.kind = .eol)
  (words : ∀ o ∈ operands, Spells o.kind.token o.text)

include ends words

theorem moreOperands_of_lexemes (seen : Array Operand)
    (same : tokens.map Token.lexeme = kept (moreLexemes operands)) :
    ∃ read : List Operand,
      moreOperands seen (tokens ++ eol :: rest) =
          (seen ++ read.toArray, eol :: rest) ∧
        read.map Operand.unplaced = operands.map Operand.unplaced := by
  induction operands generalizing tokens seen with
  | nil =>
      obtain rfl := List.map_eq_nil_iff.mp same
      refine ⟨[], ?_, rfl⟩
      cases rest <;> simp [moreOperands, ends]
  | cons o operands inductionHypothesis =>
      have own := words o List.mem_cons_self
      rw [kept_more] at same
      obtain ⟨comma, behind, rfl, commaSame, same⟩ :=
        List.map_eq_cons_iff.mp same
      obtain ⟨t, tokens, rfl, tokenSame, same⟩ :=
        List.map_eq_cons_iff.mp same
      have isComma : comma.kind = .comma := congrArg Lexeme.kind commaSame
      obtain ⟨first, firstRead, firstSame⟩ := operand?_of_lexeme own tokenSame
      obtain ⟨more, moreRead, moreSame⟩ := inductionHypothesis
        (fun other member => words other (List.mem_cons_of_mem o member))
        (seen.push first) same
      refine ⟨first :: more, ?_, ?_⟩
      · simp [moreOperands, isComma, firstRead, moreRead]
      · simp [firstSame, moreSame]

theorem operands_of_lexemes
    (same : tokens.map Token.lexeme = kept (operandLexemes operands)) :
    ∃ read,
      Source.operands (tokens ++ eol :: rest) = (read, eol :: rest) ∧
        read.map Operand.unplaced = operands.map Operand.unplaced := by
  cases operands with
  | nil =>
      obtain rfl := List.map_eq_nil_iff.mp same
      refine ⟨[], ?_, rfl⟩
      simp [Source.operands, operand?, ends]
  | cons o operands =>
      have own := words o List.mem_cons_self
      have split : kept (operandLexemes (o :: operands)) =
          o.lexeme :: kept (moreLexemes operands) := kept_operand o
      rw [split] at same
      obtain ⟨t, tokens, rfl, tokenSame, same⟩ :=
        List.map_eq_cons_iff.mp same
      obtain ⟨first, firstRead, firstSame⟩ := operand?_of_lexeme own tokenSame
      obtain ⟨more, moreRead, moreSame⟩ := moreOperands_of_lexemes rest ends
        (fun other member => words other (List.mem_cons_of_mem o member))
        #[first] same
      refine ⟨first :: more, ?_, ?_⟩
      · simp [Source.operands, firstRead, moreRead]
      · simp [firstSame, moreSame]

omit words

theorem statement_of_lexemes {body : Statement} (printable : body.Printable)
    (same : tokens.map Token.lexeme = kept body.lexemes) :
    ∃ read,
      statement (tokens ++ eol :: rest) = (some read, eol :: rest) ∧
        read.unplaced = body.unplaced := by
  have split : kept body.lexemes =
      .word body.kind body.phrase.name ::
        kept (operandLexemes body.phrase.operands) :=
    kept_word printable.name.word body.phrase.name
  rw [split] at same
  obtain ⟨t, tokens, rfl, tokenSame, same⟩ := List.map_eq_cons_iff.mp same
  have kind : t.kind = body.kind := congrArg Lexeme.kind tokenSame
  have text : t.text = body.phrase.name :=
    Token.text_of_bytes printable.name.ascii
      (congrArg Lexeme.bytes tokenSame)
  obtain ⟨read, operandsRead, operandsSame⟩ :=
    operands_of_lexemes rest ends printable.operands same
  cases body with
  | directive p =>
      simp only [Statement.kind, Statement.phrase] at kind text operandsSame
      refine ⟨.directive ⟨p.name, read, t.pos⟩, ?_, ?_⟩
      · simp [statement, kind, text, operandsRead]
      · simp [Statement.unplaced, Phrase.unplaced, operandsSame]
  | instruction p =>
      simp only [Statement.kind, Statement.phrase] at kind text operandsSame
      refine ⟨.instruction ⟨p.name, read, t.pos⟩, ?_, ?_⟩
      · simp [statement, kind, text, operandsRead]
      · simp [Statement.unplaced, Phrase.unplaced, operandsSame]

/-- The tokens of a line without its label and its end are read as what the
line does. -/
theorem body_of_lexemes {body : Option Statement}
    (printable : ∀ s, body = some s → s.Printable)
    (same : tokens.map Token.lexeme =
      kept (body.elim [] Statement.lexemes)) :
    ∃ read,
      statement (tokens ++ eol :: rest) = (read, eol :: rest) ∧
        read.map Statement.unplaced = body.map Statement.unplaced := by
  cases body with
  | none =>
      obtain rfl := List.map_eq_nil_iff.mp same
      exact ⟨none, by simp [statement, ends], rfl⟩
  | some body =>
      obtain ⟨read, statementRead, statementSame⟩ :=
        statement_of_lexemes rest ends (printable body rfl) same
      exact ⟨some read, statementRead, congrArg some statementSame⟩

end Reading

theorem kept_line (l : Line) :
    kept l.lexemes =
      l.label.toList.map labelLexeme ++
        (kept (l.statement.elim [] Statement.lexemes) ++ [.eol]) := by
  have nothing : kept [] = [] := rfl
  have alone : kept [.eol] = [.eol] := rfl
  have spaced (more : List Lexeme) : kept (.space :: more) = kept more := rfl
  have ended (lexemes : List Lexeme) :
      kept (lexemes ++ [.eol]) = kept lexemes ++ [.eol] :=
    List.filter_append lexemes [.eol]
  have labelled (name : String) (more : List Lexeme) :
      kept (labelLexeme name :: more) = labelLexeme name :: kept more :=
    kept_word rfl (name ++ ":")
  cases label : l.label with
  | none =>
      cases statement : l.statement with
      | none =>
          simp [Line.lexemes, label, statement, nothing, alone]
      | some body =>
          simp [Line.lexemes, label, statement, ended]
  | some name =>
      cases statement : l.statement with
      | none =>
          simp [Line.lexemes, label, statement, labelled, nothing, alone]
      | some body =>
          simp [Line.lexemes, label, statement, labelled, spaced, ended]

section Lines

variable {tokens : List Token} {eol : Token} {l : Line}

theorem label_of_lexeme {t : Token} {name : String}
    (spells : Spells .label (name ++ ":"))
    (same : t.lexeme = labelLexeme name) (rest : List Token) :
    label (t :: rest) = (some name, rest) := by
  have kind : t.kind = .label := congrArg Lexeme.kind same
  have text : t.text = name ++ ":" :=
    Token.text_of_bytes spells.ascii (congrArg Lexeme.bytes same)
  simp [label, kind, text]

/-- What a line does is not taken for a label. -/
theorem label_of_body {body : Option Statement}
    (printable : ∀ s, body = some s → s.Printable) (ends : eol.kind = .eol)
    (same : tokens.map Token.lexeme = kept (body.elim [] Statement.lexemes))
    (rest : List Token) :
    label (tokens ++ eol :: rest) = (none, tokens ++ eol :: rest) := by
  cases body with
  | none =>
      obtain rfl := List.map_eq_nil_iff.mp same
      simp [label, ends]
  | some body =>
      have split : kept body.lexemes =
          .word body.kind body.phrase.name ::
            kept (operandLexemes body.phrase.operands) :=
        kept_word (printable body rfl).name.word body.phrase.name
      simp only [Option.elim_some, split] at same
      obtain ⟨t, tokens, rfl, tokenSame, -⟩ := List.map_eq_cons_iff.mp same
      have kind : t.kind = body.kind := congrArg Lexeme.kind tokenSame
      have other : body.kind ≠ .label := by
        cases body <;> simp [Statement.kind]
      simp [label, kind, other]

/-- The tokens of a printed line are read as that line. -/
theorem line_of_lexemes (rest : List Token) (printable : l.Printable)
    (same : tokens.map Token.lexeme = kept l.lexemes) (pos : Position) :
    ∃ read, line pos (tokens ++ rest) = .ok (read, rest) ∧
      read.unplaced = l.unplaced := by
  rw [kept_line] at same
  obtain ⟨labels, behind, rfl, labelSame, same⟩ :=
    List.map_eq_append_iff.mp same
  obtain ⟨body, last, rfl, bodySame, lastSame⟩ :=
    List.map_eq_append_iff.mp same
  obtain ⟨eol, rfl, eolSame⟩ := List.map_eq_singleton_iff.mp lastSame
  have ends : eol.kind = .eol := congrArg Lexeme.kind eolSame
  obtain ⟨read, bodyRead, readSame⟩ :=
    body_of_lexemes rest ends printable.statement bodySame
  have labelRead : label (labels ++ (body ++ [eol]) ++ rest) =
      (l.label, body ++ eol :: rest) := by
    simp only [List.append_assoc, List.cons_append, List.nil_append]
    cases named : l.label with
    | none =>
        simp only [named, Option.toList_none, List.map_nil] at labelSame
        obtain rfl := List.map_eq_nil_iff.mp labelSame
        exact label_of_body printable.statement ends bodySame rest
    | some name =>
        simp only [named, Option.toList_some, List.map_cons, List.map_nil]
          at labelSame
        obtain ⟨t, rfl, tokenSame⟩ := List.map_eq_singleton_iff.mp labelSame
        exact label_of_lexeme (printable.label name named) tokenSame _
  refine ⟨⟨pos, l.label, read⟩, ?_, ?_⟩
  · simp only [line, labelRead, bodyRead, ends]
    rfl
  · simp [Line.unplaced, readSame]

theorem linesFrom_of_lexemes {lines : List Line}
    (printable : ∀ l ∈ lines, l.Printable)
    (same : tokens.map Token.lexeme =
      lines.flatMap fun l => kept l.lexemes)
    {fuel : Nat} (enough : lines.length ≤ fuel) (seen : Array Line) :
    ∃ read : List Line,
      linesFrom fuel seen tokens = .ok (seen ++ read.toArray) ∧
        read.map Line.unplaced = lines.map Line.unplaced := by
  induction lines generalizing tokens fuel seen with
  | nil =>
      obtain rfl := List.map_eq_nil_iff.mp same
      exact ⟨[], by cases fuel <;> simp [linesFrom], rfl⟩
  | cons l lines inductionHypothesis =>
      rw [List.flatMap_cons] at same
      obtain ⟨own, others, rfl, ownSame, othersSame⟩ :=
        List.map_eq_append_iff.mp same
      rw [List.length_cons] at enough
      obtain ⟨fuel, rfl⟩ : ∃ less, fuel = less + 1 := ⟨fuel - 1, by omega⟩
      cases own with
      | nil =>
          simp [kept_line] at ownSame
      | cons t own =>
          obtain ⟨first, firstRead, firstSame⟩ := line_of_lexemes others
            (printable l List.mem_cons_self) ownSame t.pos
          obtain ⟨more, moreRead, moreSame⟩ := inductionHypothesis
            (fun other member =>
              printable other (List.mem_cons_of_mem l member))
            othersSame (Nat.le_of_succ_le_succ enough) (seen.push first)
          refine ⟨first :: more, ?_, ?_⟩
          · rw [List.cons_append] at firstRead
            simp [linesFrom, firstRead, moreRead]
          · simp [firstSame, moreSame]

theorem length_le_kept (lines : List Line) :
    lines.length ≤ (lines.flatMap fun l => kept l.lexemes).length := by
  induction lines with
  | nil =>
      exact Nat.le_refl 0
  | cons l lines inductionHypothesis =>
      simp only [List.flatMap_cons, List.length_append, List.length_cons,
        kept_line, List.length_nil]
      simp only [kept_line] at inductionHypothesis
      omega

/-- Reading undoes printing: a source that holds printed lines, perhaps
without the last end of line, is read as these lines. -/
theorem parse_printed {lines : List Line} {source : List UInt8}
    (printable : ∀ l ∈ lines, l.Printable)
    (printed : terminated source = spelled (lines.flatMap Line.lexemes)) :
    ∃ read, parse source = .ok read ∧
      read.map Line.unplaced = lines.map Line.unplaced := by
  obtain ⟨tokens, same, scanned⟩ := scan_legible (legible_lines printable)
  let shown := tokens.toList.filter fun t => !t.kind.isSkipped
  have shownSame : shown.map Token.lexeme =
      lines.flatMap fun l => kept l.lexemes := by
    calc shown.map Token.lexeme
        = kept (tokens.toList.map Token.lexeme) := by
          rw [kept, List.filter_map]
          rfl
      _ = kept (lines.flatMap Line.lexemes) := by rw [same]
      _ = lines.flatMap fun l => kept l.lexemes := List.filter_flatMap
  have enough : lines.length ≤ shown.length := by
    have lengths := congrArg List.length shownSame
    rw [List.length_map] at lengths
    rw [lengths]
    exact length_le_kept lines
  obtain ⟨read, linesRead, readSame⟩ :=
    linesFrom_of_lexemes printable shownSame enough #[]
  refine ⟨read, ?_, readSame⟩
  simp [parse, printed, scanned, linesRead, shown, Except.map]

end Lines

end Source

end WindowMachine
