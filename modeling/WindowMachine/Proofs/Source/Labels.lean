import WindowMachine.Proofs.Source.Appended
import WindowMachine.Proofs.Source.Patterns
import WindowMachine.Proofs.Text.Utf8

/-!
# Labels where they are declared and used

Where a label is declared, its name stands before a colon, and the pattern of
labels is tried before the one of registers.  Where it is used it stands by
itself, and there a register comes first.  A name that starts with a register
behind which a word ends can thus be declared, but not be named again: what
is read is the register.
-/

namespace WindowMachine.Source

/-! ## Bytes as characters -/

/-- The character of a byte of ASCII. -/
def charOf (b : UInt8) : Char := Char.ofNat b.toNat

section Characters

variable {b : UInt8} {name : List UInt8}

theorem toNat_charOf (small : b.toNat < 128) :
    (charOf b).toNat = b.toNat :=
  (Utf8.ofNat_eq_iff (.inl (by omega))).mp rfl

theorem Agree.charOf {byte : UInt8 → Bool} {char : Char → Bool}
    (agree : Agree byte char) (small : b.toNat < 128) :
    char (charOf b) = byte b := by
  have number := toNat_charOf small
  rw [← agree.same _ (by omega), byteOf, number, UInt8.ofNat_toNat]

theorem isNameByte_narrow (passes : isNameByte b = true) :
    b.toNat < 128 := by
  simp only [isNameByte, isWordByte, isLetter, isDigit, Bool.or_eq_true,
    Bool.and_eq_true, decide_eq_true_eq, beq_iff_eq, UInt8.le_iff_toNat_le,
    ← UInt8.toNat_inj, UInt8.reduceToNat] at passes
  omega

theorem name_of_bytes (starts : isNameStart b = true)
    (goesOn : ∀ c ∈ name, isNameByte c = true) :
    (b :: name).map charOf ∈ Pattern.name := by
  have value := isNameStart_iff.mp starts
  apply name_of_cons
  · rw [agree_isNameStart.charOf (by omega), starts]
  · rw [List.all_map, List.all_eq_true]
    intro c member
    have passes := goesOn c member
    rw [Function.comp, agree_isNameByte.charOf (isNameByte_narrow passes),
      passes]

end Characters

/-! ## Labels that are read -/

section Declared

variable {tokens left : List Token} {l : Line} {name : String}

theorem Lexeme.Occurs.label_bytes {x : Lexeme} (occurs : x.Occurs)
    (label : x.kind = .label) :
    ∃ b name, x.bytes = b :: name ++ [0x3A] ∧ isNameStart b = true ∧
      ∀ c ∈ name, isNameByte c = true := by
  obtain ⟨rest, found⟩ := occurs
  obtain ⟨length, positive⟩ := length_of_firstKind? found
  rw [label] at length
  obtain ⟨b, name, back, text, starts, goesOn, measured⟩ :=
    of_labelLength_ne_zero (Nat.ne_of_gt (length ▸ positive))
  have front : x.bytes ++ rest = (b :: name ++ [0x3A]) ++ back := by
    simpa using text
  have sameLength : x.bytes.length = (b :: name ++ [0x3A]).length := by
    simp
    omega
  exact ⟨b, name, (List.append_inj front sameLength).1, starts, goesOn⟩

theorem label_of_line {pos : Position}
    (taken : line pos tokens = .ok (l, left))
    (labelled : l.label = some name) :
    ∃ t ∈ tokens, t.kind = .label ∧
      name = String.ofList t.text.toList.dropLast := by
  have same : (label tokens).1 = some name := by
    rw [← labelled]
    simp only [line] at taken
    split at taken
    · cases taken
      rfl
    · split at taken
      · cases taken
        rfl
      · cases taken
  cases tokens with
  | nil =>
      cases same
  | cons t rest =>
      by_cases kind : t.kind = .label
      · refine ⟨t, List.mem_cons_self, kind, ?_⟩
        simpa [label, kind, eq_comm] using same
      · simp [label, kind] at same

/-- Every label of a text is a name. -/
theorem label_named {source : List UInt8} {lines : List Line}
    (parsed : parse source = .ok lines) (member : l ∈ lines)
    (labelled : l.label = some name) : name.toList ∈ Pattern.name := by
  obtain ⟨tokens, -, -, legible, -, done⟩ := parse_eq_ok parsed
  obtain ⟨read, same, each⟩ := linesFrom_extends done
  obtain rfl : lines = read := by simpa using same
  obtain ⟨own, pos, left, suffix, taken⟩ := each l member
  obtain ⟨t, inside, kind, rfl⟩ := label_of_line taken labelled
  have shown : t ∈ tokens := (List.mem_filter.mp (suffix.subset inside)).1
  obtain ⟨b, name, bytes, starts, goesOn⟩ := Lexeme.Occurs.label_bytes
    (occurs_of_legible legible t.lexeme (List.mem_map_of_mem shown)) kind
  have chars : t.text.toList.dropLast = (b :: name).map charOf := by
    have ended : t.text.toList = (b :: name).map charOf ++ [':'] := by
      rw [Token.text, String.toList_ofList,
        show t.bytes = b :: name ++ [0x3A] from bytes, List.map_append]
      rfl
    rw [ended, List.dropLast_concat]
  rw [chars, String.toList_ofList]
  exact name_of_bytes starts goesOn

end Declared

/-! ## Labels that are used -/

/-- The line that jumps to a label. -/
def jumpLine (name : String) : Line :=
  ⟨{}, none, some (.instruction ⟨"jmp", [⟨.symbol, name, {}⟩], {}⟩)⟩

/-- A text with a jump to a label in a line of its own at its end. -/
def withJump (source : List UInt8) (name : String) : List UInt8 :=
  terminated source ++ Utf8.ofString ("jmp " ++ name ++ "\n")

section Used

variable {source : List UInt8} {lines all : List Line} {name : String}

theorem spells_jmp : Spells .name "jmp" :=
  spells_word (word_of_name (name_of_cons rfl rfl) rfl)

theorem ofString_jump (name : String) :
    Utf8.ofString ("jmp " ++ name ++ "\n") =
      Utf8.ofString "jmp" ++ ([0x20] ++ (Utf8.ofString name ++ [0x0A])) := by
  have mnemonic : Utf8.ofString "jmp " = Utf8.ofString "jmp" ++ [0x20] := rfl
  have newline : Utf8.ofString "\n" = [0x0A] := rfl
  rw [Utf8.ofString_append, Utf8.ofString_append, mnemonic, newline,
    List.append_assoc, List.append_assoc]

theorem spelled_jumpLine (name : String) :
    spelled (jumpLine name).lexemes =
      Utf8.ofString ("jmp " ++ name ++ "\n") := by
  rw [ofString_jump]
  simp [jumpLine, Line.lexemes, Statement.lexemes, Statement.phrase,
    operandLexemes, moreLexemes, Operand.lexeme, Lexeme.word, Lexeme.space,
    Lexeme.eol]

/-- A jump to a label that is a word is read as that. -/
theorem parse_withJump (parsed : parse source = .ok lines)
    (word : name.toList ∈ Pattern.word) :
    ∃ own, parse (withJump source name) = .ok (lines ++ [own]) ∧
      own.unplaced = jumpLine name := by
  have printable : (jumpLine name).Printable := by
    refine ⟨by simp [jumpLine], ?_⟩
    rintro body same
    obtain rfl := Option.some.inj same
    exact ⟨spells_jmp,
      List.forall_mem_singleton.mpr (spells_word word)⟩
  rw [withJump, ← spelled_jumpLine]
  exact parse_append_line parsed printable

theorem of_jumpLine {own : Line} (same : own.unplaced = jumpLine name) :
    own.label = none ∧
      ∃ p o, own.statement = some (.instruction p) ∧ p.name = "jmp" ∧
        p.operands = [o] ∧ o.symbol? = some name := by
  obtain ⟨label, p, statement, unplaced⟩ := Line.of_unplaced_instruction same
  obtain ⟨o, operands, operand⟩ := List.map_eq_singleton_iff.mp
    (congrArg Phrase.operands unplaced)
  have symbol : o.unplaced.symbol? = some name := by
    rw [operand]
    rfl
  exact ⟨label, p, o, statement, congrArg Phrase.name unplaced, operands,
    symbol⟩

theorem mem_moreOperands_of_seen {seen : Array Operand}
    {tokens : List Token} {o : Operand} (held : o ∈ seen) :
    o ∈ (moreOperands seen tokens).1 := by
  fun_induction moreOperands seen tokens with
  | case1 seen comma t more separates own found inductionHypothesis =>
      exact inductionHypothesis (Array.mem_push_of_mem own held)
  | case2 | case3 | case4 =>
      exact held

/-- What a line does that starts with a name and a register. -/
theorem line_of_name_register {mnemonic first : Token} {l : Line}
    {rest left : List Token} {pos : Position} (named : mnemonic.kind = .name)
    (register : first.kind = .register)
    (taken : line pos (mnemonic :: first :: rest) = .ok (l, left)) :
    ∃ p, l.instruction? = some p ∧ p.name = mnemonic.text ∧
      ∃ o ∈ p.operands, o.kind = .register := by
  have unlabelled : label (mnemonic :: first :: rest) =
      (none, mnemonic :: first :: rest) := by
    simp [label, named]
  have statement : l.statement =
      some (.instruction
        ⟨mnemonic.text, (operands (first :: rest)).1, mnemonic.pos⟩) := by
    simp only [line, unlabelled, statement, named] at taken
    split at taken
    · cases taken
      rfl
    · split at taken
      · cases taken
        rfl
      · cases taken
  have read : operand? first = some ⟨.register, first.text, first.pos⟩ := by
    simp [operand?, register]
  refine ⟨_, by rw [Line.instruction?, statement], rfl,
    ⟨.register, first.text, first.pos⟩, ?_, rfl⟩
  simpa [operands, read] using mem_moreOperands_of_seen (by simp)

/-- The first token of a text is the one that is read there. -/
theorem exists_firstToken {tokens : List Token} {front back : List UInt8}
    {kind : Kind}
    (text : spelled (tokens.map Token.lexeme) = front ++ back)
    (legible : Legible (tokens.map Token.lexeme) [])
    (read : firstKind? (front ++ back) = some (kind, front.length)) :
    ∃ t others, tokens = t :: others ∧ t.lexeme = ⟨kind, front⟩ ∧
      spelled (others.map Token.lexeme) = back ∧
        Legible (others.map Token.lexeme) [] := by
  have positive := (length_of_firstKind? read).2
  cases tokens with
  | nil =>
      have lengths := congrArg List.length text
      simp only [List.map_nil, spelled_nil, List.length_nil,
        List.length_append] at lengths
      omega
  | cons t others =>
      obtain ⟨found, legible⟩ := legible
      rw [List.map_cons, spelled_cons] at text
      rw [List.append_nil, text, read] at found
      obtain ⟨kind, length⟩ :
          kind = t.lexeme.kind ∧ front.length = t.lexeme.bytes.length := by
        simpa using found
      obtain ⟨bytes, behind⟩ := List.append_inj text length.symm
      exact ⟨t, others, rfl, by rw [kind, ← bytes], behind, legible⟩

/-- A name that is no word is read as a register and whatever else it
holds. -/
theorem firstKind?_of_not_word (named : name.toList ∈ Pattern.name)
    (noWord : name.toList ∉ Pattern.word) :
    ∃ b front back, Utf8.ofString name = b :: front ++ back ∧
      firstKind? (b :: front ++ back) =
        some (.register, (b :: front).length) := by
  have ascii := plain_name _ named
  have fits : registerLength (name.toList.map byteOf) ≠ 0 := by
    apply registerLength_of_register ascii
    by_contra other
    exact noWord ⟨named, other⟩
  obtain ⟨b, rest, bytes, starts, goesOn⟩ := bytes_of_name named
  rw [bytes] at fits
  have register := firstKind?_registerFront starts goesOn fits
  have within := registerLength_le (b :: rest)
  obtain ⟨k, length⟩ := Nat.exists_eq_succ_of_ne_zero fits
  rw [length, List.length_cons] at within
  have whole : b :: rest.take k ++ rest.drop k = b :: rest := by
    rw [List.cons_append, List.take_append_drop]
  refine ⟨b, rest.take k, rest.drop k, ?_, ?_⟩
  · rw [whole]
    exact (Utf8.ofString_ascii ascii).trans bytes
  · rw [whole, register, length, List.length_cons,
      List.length_take_of_le (by omega)]

/-- The tokens of a jump to a label that starts with a register: the register
is one of them. -/
theorem exists_jumpTokens {tokens : List Token}
    (named : name.toList ∈ Pattern.name)
    (noWord : name.toList ∉ Pattern.word)
    (text : spelled (tokens.map Token.lexeme) =
      Utf8.ofString ("jmp " ++ name ++ "\n"))
    (legible : Legible (tokens.map Token.lexeme) []) :
    ∃ mnemonic first others, shown tokens = mnemonic :: first :: others ∧
      mnemonic.lexeme = .word .name "jmp" ∧ first.kind = .register := by
  obtain ⟨b, front, back, own, register⟩ :=
    firstKind?_of_not_word named noWord
  have ink := isInk_of_firstKind? register rfl
  rw [ofString_jump, own, List.append_assoc] at text
  obtain ⟨mnemonic, tokens, rfl, mnemonicSame, text, legible⟩ :=
    exists_firstToken text legible
      ((firstKind?_append_stop rfl rfl).trans spells_jmp.read)
  obtain ⟨blank, tokens, rfl, blankSame, text, legible⟩ :=
    exists_firstToken text legible (firstKind?_space ink)
  obtain ⟨first, others, rfl, firstSame, -, -⟩ :=
    exists_firstToken text legible (by
      rw [← register, ← List.append_assoc]
      exact firstKind?_append_stop ink rfl)
  have nameKind : mnemonic.kind = .name := congrArg Lexeme.kind mnemonicSame
  have blankKind : blank.kind = .blank := congrArg Lexeme.kind blankSame
  have registerKind : first.kind = .register :=
    congrArg Lexeme.kind firstSame
  refine ⟨mnemonic, first, shown others, ?_, mnemonicSame, registerKind⟩
  simp [shown, nameKind, blankKind, registerKind, Kind.isSkipped]

/-- A jump to a label that starts with a register is read as a jump to that
register, if it can be read at all. -/
theorem parse_withJump_register (parsed : parse source = .ok lines)
    (named : name.toList ∈ Pattern.name)
    (noWord : name.toList ∉ Pattern.word)
    (done : parse (withJump source name) = .ok all) :
    ∃ l ∈ all, ∃ p, l.instruction? = some p ∧ p.name = "jmp" ∧
      ∃ o ∈ p.operands, o.kind = .register := by
  have ended : (Utf8.ofString ("jmp " ++ name ++ "\n")).getLast? =
      some 0x0A := by
    rw [← spelled_jumpLine]
    exact getLast?_spelled_line _
  obtain ⟨tokens, left, text, legible, enough, taken⟩ :=
    parse_append_eq_ok parsed ended done
  obtain ⟨mnemonic, first, others, same, mnemonicSame, register⟩ :=
    exists_jumpTokens named noWord text legible
  rw [same] at taken enough
  obtain ⟨left, rfl⟩ : ∃ less, left = less + 1 :=
    ⟨left - 1, by rw [List.length_cons] at enough; omega⟩
  simp only [linesFrom] at taken
  split at taken
  · cases taken
  · rename_i l behind read
    obtain ⟨more, split, -⟩ := linesFrom_extends taken
    obtain ⟨p, instruction, mnemonicText, operand⟩ :=
      line_of_name_register (congrArg Lexeme.kind mnemonicSame) register read
    refine ⟨l, by simp [show all = _ from split], p, instruction, ?_,
      operand⟩
    rw [mnemonicText]
    exact Token.text_of_bytes spells_jmp.ascii
      (congrArg Lexeme.bytes mnemonicSame)

end Used

end WindowMachine.Source
