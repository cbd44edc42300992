import WindowMachine.Proofs.Checks
import WindowMachine.Proofs.Source.Printing
import WindowMachine.Proofs.Source.Sizes
import WindowMachine.Proofs.Text.Pieces

/-!
# Lines and their numbers

Comments and blanks are left out before lines are read, and a line ends where
a token says so.  Only the ends of lines hold newlines, one each, so the lines
that are read are nevertheless the physical lines of the text, one for one and
in order, and every place in a line has the number of its physical line.

Nothing of a line depends on the text around it: a physical line that is read
by itself gives the same line, but for its places.
-/

namespace WindowMachine.Source

/-! ## Physical lines -/

/-- The pieces of a text that newlines end, the last one included. -/
def physicalLines (source : List UInt8) : List (List UInt8) :=
  Text.pieces 0x0A (terminated source)

theorem getLast?_terminated (source : List UInt8) :
    (terminated source).getLast? = some 0x0A := by
  unfold terminated
  split
  · assumption
  · simp

theorem prefix_terminated (bytes : List UInt8) :
    bytes <+: terminated bytes := by
  unfold terminated
  split
  · exact List.prefix_rfl
  · exact List.prefix_append _ _

theorem flatMap_physicalLines (source : List UInt8) :
    (physicalLines source).flatMap (· ++ [0x0A]) = terminated source := by
  apply Text.flatMap_pieces
  simp [getLast?_terminated]

theorem newline_not_mem_physicalLines (source : List UInt8) :
    ∀ piece ∈ physicalLines source, 0x0A ∉ piece :=
  Text.stop_not_mem_pieces 0x0A (terminated source)

theorem length_physicalLines (source : List UInt8) :
    (physicalLines source).length = (terminated source).count 0x0A := by
  rw [← flatMap_physicalLines,
    Text.count_flatMap_stop (newline_not_mem_physicalLines source)]

theorem terminated_of_free {piece : List UInt8} (free : 0x0A ∉ piece) :
    terminated piece = piece ++ [0x0A] := by
  rw [terminated, if_neg]
  exact fun last => free (List.mem_of_getLast? last)

/-! ## Tokens before a newline -/

section Newline

variable {b : UInt8} {bytes rest piece : List UInt8} {kind : Kind}
  {lexemes : List Lexeme}

theorem Kind.length_append_newline (other : b ≠ 0x0A) (kind : Kind) :
    kind.length (b :: bytes ++ 0x0A :: rest) = kind.length (b :: bytes) := by
  cases starts : kind.starts b with
  | false =>
      rw [List.cons_append, Kind.length_of_starts_false starts,
        Kind.length_of_starts_false starts]
  | true =>
      cases kind with
      | comment =>
          obtain rfl : b = 0x3B := by simpa [Kind.starts] using starts
          exact congrArg (1 + ·) (spanLength_append_stop bytes rest rfl)
      | blank =>
          exact spanLength_append_stop (b :: bytes) rest rfl
      | eol =>
          exact absurd (by simpa [Kind.starts] using starts) other
      | label =>
          exact labelLength_append_stop (b :: bytes) rest rfl
      | directive =>
          obtain rfl : b = 0x2E := by simpa [Kind.starts] using starts
          simp only [List.cons_append, Kind.length,
            spanLength_append_stop bytes rest
              (show isLetter 0x0A = false from rfl)]
      | register =>
          exact registerLength_append_stop (b :: bytes) rest rfl
      | float =>
          exact floatLength_append_stop (b :: bytes) rest rfl
      | int =>
          exact intLength_append_stop (b :: bytes) rest rfl
      | name =>
          exact nameLength_append_stop (b :: bytes) rest rfl
      | comma =>
          obtain rfl : b = 0x2C := by simpa [Kind.starts] using starts
          rfl

/-- Nothing behind the end of a line has a say in which token comes first,
unless that is the end of the line itself. -/
theorem firstKind?_append_newline (other : b ≠ 0x0A) :
    firstKind? (b :: bytes ++ 0x0A :: rest) = firstKind? (b :: bytes) := by
  simp only [firstKind?, Kind.length_append_newline other]

/-- The tokens of a text whose first line is known: those of this line, its
end, and the others. -/
structure Splits (lexemes : List Lexeme) (piece rest : List UInt8)
    (own others : List Lexeme) : Prop where
  whole : lexemes = own ++ .eol :: others
  piece : spelled own = piece
  rest : spelled others = rest
  inner : ∀ x ∈ own, x.kind ≠ .eol
  alone : Legible (own ++ [.eol]) []
  behind : Legible others []

theorem legible_splits (legible : Legible lexemes [])
    (free : 0x0A ∉ piece)
    (text : spelled lexemes = piece ++ 0x0A :: rest) :
    ∃ own others, Splits lexemes piece rest own others := by
  induction lexemes generalizing piece with
  | nil =>
      simp at text
  | cons first more inductionHypothesis =>
      obtain ⟨found, legible⟩ := legible
      rw [spelled_cons] at text
      rw [List.append_nil, text] at found
      cases piece with
      | nil =>
          rw [List.nil_append, firstKind?_eol] at found
          obtain ⟨kind, length⟩ :
              Kind.eol = first.kind ∧ 1 = first.bytes.length := by
            simpa using found
          obtain ⟨bytes, behind⟩ := List.append_inj
            (show first.bytes ++ spelled more = [0x0A] ++ rest from text)
            length.symm
          have isEol : first = .eol := by
            rw [Lexeme.eol, kind, ← bytes]
          subst isEol
          exact ⟨[], more, rfl, rfl, behind, by simp,
            legible_eol [], legible⟩
      | cons b piece =>
          have other : b ≠ 0x0A := fun same => free (by simp [same])
          have alone := found
          rw [firstKind?_append_newline other] at alone
          obtain ⟨length, positive⟩ := length_of_firstKind? alone
          have within := first.kind.length_le (b :: piece)
          rw [length] at within
          -- The token ends before the newline, so the line goes on with what
          -- it leaves.
          obtain ⟨left, split, behind⟩ :
              ∃ left, b :: piece = first.bytes ++ left ∧
                spelled more = left ++ 0x0A :: rest := by
            obtain ⟨left, pieceSplit, moreSplit⟩ |
              ⟨left, bytesSplit, newlineSplit⟩ :=
                List.append_eq_append_iff.mp text
            · exact ⟨left, pieceSplit, moreSplit⟩
            · have none : left = [] := by
                have lengths := congrArg List.length bytesSplit
                rw [List.length_append] at lengths
                exact List.eq_nil_of_length_eq_zero (by omega)
              subst none
              exact ⟨[], by simpa using bytesSplit.symm,
                by simpa using newlineSplit.symm⟩
          have freeLeft : 0x0A ∉ left := fun member =>
            free (by rw [split]; exact List.mem_append_right _ member)
          obtain ⟨own, others, splits⟩ :=
            inductionHypothesis legible freeLeft behind
          have kind : first.kind ≠ .eol := by
            intro isEol
            rw [isEol] at length
            simp [Kind.length, other] at length
            omega
          refine ⟨first :: own, others, ?_, ?_, splits.rest, ?_, ?_,
            splits.behind⟩
          · rw [splits.whole, List.cons_append]
          · rw [spelled_cons, splits.piece, split]
          · simpa [kind] using splits.inner
          · refine ⟨?_, splits.alone⟩
            change firstKind?
              (first.bytes ++ (spelled (own ++ [.eol]) ++ [])) = _
            rw [spelled_append, splits.piece, List.append_nil,
              ← List.append_assoc, ← split]
            exact (firstKind?_append_newline other).trans alone

end Newline

/-! ## Tokens up to the end of a line -/

section Reading

variable {front : List Token} {eol : Token} (rest : List Token)

theorem operand?_eol (ends : eol.kind = .eol) : operand? eol = none := by
  simp [operand?, ends]

theorem moreOperands_append_eol (ends : eol.kind = .eol)
    (seen : Array Operand) (front : List Token) :
    moreOperands seen (front ++ eol :: rest) =
      ((moreOperands seen front).1,
        (moreOperands seen front).2 ++ eol :: rest) := by
  fun_induction moreOperands seen front with
  | case1 seen comma t more separates o found inductionHypothesis =>
      simp [moreOperands, separates, found, inductionHypothesis]
  | case2 seen comma t more separates nothing =>
      simp [moreOperands, separates, nothing]
  | case3 seen comma t more other =>
      simp [moreOperands, other]
  | case4 seen front short =>
      rcases front with _ | ⟨comma, _ | ⟨t, more⟩⟩
      · cases rest <;> simp [moreOperands, ends]
      · simp [moreOperands, operand?_eol ends]
      · exact absurd rfl (short comma t more)

theorem operands_append_eol (ends : eol.kind = .eol) (front : List Token) :
    operands (front ++ eol :: rest) =
      ((operands front).1, (operands front).2 ++ eol :: rest) := by
  cases front with
  | nil =>
      simp [operands, operand?_eol ends]
  | cons t front =>
      cases read : operand? t with
      | none =>
          simp [operands, read]
      | some o =>
          simp [operands, read, moreOperands_append_eol rest ends]

theorem label_append_eol (ends : eol.kind = .eol) (front : List Token) :
    label (front ++ eol :: rest) =
      ((label front).1, (label front).2 ++ eol :: rest) := by
  cases front with
  | nil =>
      simp [label, ends]
  | cons t front =>
      by_cases isLabel : t.kind = .label
      · simp [label, isLabel]
      · simp [label, isLabel]

theorem statement_append_eol (ends : eol.kind = .eol)
    (front : List Token) :
    statement (front ++ eol :: rest) =
      ((statement front).1, (statement front).2 ++ eol :: rest) := by
  cases front with
  | nil =>
      simp [statement, ends]
  | cons t front =>
      have operandsRead := operands_append_eol rest ends front
      cases kind : t.kind <;> simp [statement, kind, operandsRead]

end Reading

/-! ## Tokens of a line -/

/-- The line that some tokens are read as, if they are read to their end. -/
def lineOf (pos : Position) (tokens : List Token) : Line :=
  ⟨pos, (label tokens).1, (statement (label tokens).2).1⟩

/-- What is left of some tokens once a line is read. -/
def leftOf (tokens : List Token) : List Token :=
  (statement (label tokens).2).2

/-- A line is read from the tokens before its end, which it has to use up. -/
theorem line_eq_ok_iff {front rest left : List Token} {eol : Token}
    {pos : Position} {l : Line} (free : ∀ t ∈ front, t.kind ≠ .eol)
    (ends : eol.kind = .eol) :
    line pos (front ++ eol :: rest) = .ok (l, left) ↔
      leftOf front = [] ∧ l = lineOf pos front ∧ left = rest := by
  have suffix : leftOf front <:+ front :=
    (statement_suffix _).trans (label_suffix front)
  have same : (statement (label front).2).2 = leftOf front := rfl
  simp only [line, label_append_eol rest ends,
    statement_append_eol rest ends, same]
  cases remaining : leftOf front with
  | nil =>
      simp [ends, lineOf, eq_comm]
  | cons t more =>
      have other : t.kind ≠ .eol := by
        apply free t
        apply suffix.subset
        rw [remaining]
        exact List.mem_cons_self
      simp [other]

/-! ## Tokens without their places -/

/-- A token without its place. -/
def Token.unplaced (t : Token) : Token := { t with pos := {} }

@[simp]
theorem Token.kind_unplaced (t : Token) : t.unplaced.kind = t.kind := rfl

@[simp]
theorem Token.text_unplaced (t : Token) : t.unplaced.text = t.text := rfl

@[simp]
theorem Token.pos_unplaced (t : Token) : t.unplaced.pos = {} := rfl

theorem operand?_unplaced (t : Token) :
    operand? t.unplaced = (operand? t).map Operand.unplaced := by
  cases kind : t.kind <;> simp [operand?, kind, Operand.unplaced]

theorem moreOperands_unplaced (seen : Array Operand)
    (tokens : List Token) :
    moreOperands (seen.map Operand.unplaced)
        (tokens.map Token.unplaced) =
      ((moreOperands seen tokens).1.map Operand.unplaced,
        (moreOperands seen tokens).2.map Token.unplaced) := by
  fun_induction moreOperands seen tokens with
  | case1 seen comma t more separates o found inductionHypothesis =>
      rw [Array.map_push] at inductionHypothesis
      simp [moreOperands, separates, operand?_unplaced, found,
        inductionHypothesis]
  | case2 seen comma t more separates nothing =>
      simp [moreOperands, separates, operand?_unplaced, nothing]
  | case3 seen comma t more other =>
      simp [moreOperands, other]
  | case4 seen tokens short =>
      rcases tokens with _ | ⟨comma, _ | ⟨t, more⟩⟩
      · rfl
      · rfl
      · exact absurd rfl (short comma t more)

theorem operands_unplaced (tokens : List Token) :
    operands (tokens.map Token.unplaced) =
      ((operands tokens).1.map Operand.unplaced,
        (operands tokens).2.map Token.unplaced) := by
  cases tokens with
  | nil =>
      rfl
  | cons t rest =>
      cases read : operand? t with
      | none =>
          simp [operands, operand?_unplaced, read]
      | some o =>
          have more := moreOperands_unplaced #[o] rest
          simp only [List.map_toArray, List.map_cons, List.map_nil] at more
          simp [operands, operand?_unplaced, read, more]

theorem label_unplaced (tokens : List Token) :
    label (tokens.map Token.unplaced) =
      ((label tokens).1, (label tokens).2.map Token.unplaced) := by
  cases tokens with
  | nil =>
      rfl
  | cons t rest =>
      by_cases isLabel : t.kind = .label
      · simp [label, isLabel]
      · simp [label, isLabel]

theorem statement_unplaced (tokens : List Token) :
    statement (tokens.map Token.unplaced) =
      ((statement tokens).1.map Statement.unplaced,
        (statement tokens).2.map Token.unplaced) := by
  cases tokens with
  | nil =>
      rfl
  | cons t rest =>
      have operandsRead := operands_unplaced rest
      cases kind : t.kind <;>
        simp [statement, kind, operandsRead, Statement.unplaced,
          Phrase.unplaced]

theorem lineOf_unplaced (pos : Position) (tokens : List Token) :
    lineOf {} (tokens.map Token.unplaced) = (lineOf pos tokens).unplaced := by
  rw [lineOf, label_unplaced, statement_unplaced]
  rfl

theorem leftOf_unplaced (tokens : List Token) :
    leftOf (tokens.map Token.unplaced) =
      (leftOf tokens).map Token.unplaced := by
  rw [leftOf, label_unplaced, statement_unplaced, leftOf]

/-! ## Tokens that a line is read from -/

section Sources

variable {tokens : List Token} {o : Operand}

theorem pos_of_operand? {t : Token} (read : operand? t = some o) :
    o.pos = t.pos := by
  cases kind : t.kind <;> simp [operand?, kind] at read
  all_goals rw [← read]

theorem mem_moreOperands {seen : Array Operand}
    (member : o ∈ (moreOperands seen tokens).1) :
    o ∈ seen ∨ ∃ t ∈ tokens, operand? t = some o := by
  fun_induction moreOperands seen tokens with
  | case1 seen comma t more separates own found inductionHypothesis =>
      rcases inductionHypothesis member with held | ⟨other, later, read⟩
      · rcases Array.mem_push.mp held with earlier | rfl
        · exact .inl earlier
        · exact .inr ⟨t, by simp, found⟩
      · exact .inr ⟨other, by simp [later], read⟩
  | case2 | case3 | case4 =>
      exact .inl member

theorem mem_operands (member : o ∈ (operands tokens).1) :
    ∃ t ∈ tokens, operand? t = some o := by
  cases tokens with
  | nil =>
      simp [operands] at member
  | cons t rest =>
      cases read : operand? t with
      | none =>
          simp [operands, read] at member
      | some own =>
          have held : o ∈ (moreOperands #[own] rest).1 := by
            simpa [operands, read] using member
          rcases mem_moreOperands held with first | ⟨other, later, found⟩
          · obtain rfl : o = own := by simpa using first
            exact ⟨t, by simp, read⟩
          · exact ⟨other, by simp [later], found⟩

/-- A statement is read from tokens: its place is that of one of them, and its
operands are others. -/
theorem of_statement {body : Statement}
    (read : (statement tokens).1 = some body) :
    (∃ t ∈ tokens, body.phrase.pos = t.pos) ∧
      ∀ o ∈ body.phrase.operands, ∃ t ∈ tokens, operand? t = some o := by
  cases tokens with
  | nil =>
      cases read
  | cons t rest =>
      have later (o : Operand) (member : o ∈ (operands rest).1) :
          ∃ x ∈ t :: rest, operand? x = some o := by
        obtain ⟨x, inside, found⟩ := mem_operands member
        exact ⟨x, List.mem_cons_of_mem t inside, found⟩
      cases kind : t.kind <;> simp [statement, kind] at read
      all_goals
        subst read
        exact ⟨⟨t, List.mem_cons_self, rfl⟩, later⟩

end Sources

/-! ## Places of a line -/

/-- A statement all of whose places are on one line. -/
structure Statement.StandsOn (body : Statement) (number : Nat) : Prop where
  phrase : body.phrase.pos.line = number
  operands : ∀ o ∈ body.phrase.operands, o.pos.line = number

/-- A line all of whose places have one number. -/
structure Line.StandsOn (l : Line) (number : Nat) : Prop where
  start : l.pos.line = number
  statement : ∀ body, l.statement = some body → body.StandsOn number

theorem lineOf_standsOn {tokens : List Token} {pos : Position}
    {number : Nat} (placed : ∀ t ∈ tokens, t.pos.line = number)
    (start : pos.line = number) :
    (lineOf pos tokens).StandsOn number := by
  have behind : ∀ t ∈ (label tokens).2, t.pos.line = number :=
    fun t member => placed t ((label_suffix tokens).subset member)
  refine ⟨start, fun body read => ?_⟩
  obtain ⟨⟨t, member, same⟩, operands⟩ := of_statement read
  refine ⟨by rw [same, behind t member], fun o held => ?_⟩
  obtain ⟨other, inside, found⟩ := operands o held
  rw [pos_of_operand? found, behind other inside]

/-! ## Words of a line -/

/-- Whether a lexeme is the first token of some text. -/
def Lexeme.Occurs (x : Lexeme) : Prop :=
  ∃ rest, firstKind? (x.bytes ++ rest) = some (x.kind, x.bytes.length)

theorem occurs_of_legible {lexemes : List Lexeme} {rest : List UInt8}
    (legible : Legible lexemes rest) : ∀ x ∈ lexemes, x.Occurs := by
  induction lexemes with
  | nil =>
      simp
  | cons first more inductionHypothesis =>
      obtain ⟨found, legible⟩ := legible
      exact List.forall_mem_cons.mpr
        ⟨⟨_, found⟩, inductionHypothesis legible⟩

/-- A name that occurs in some text consists of what names consist of. -/
theorem Lexeme.Occurs.name_bytes {x : Lexeme} (occurs : x.Occurs)
    (name : x.kind = .name) :
    x.bytes ≠ [] ∧ ∀ b ∈ x.bytes, isNameByte b = true := by
  obtain ⟨rest, found⟩ := occurs
  obtain ⟨length, positive⟩ := length_of_firstKind? found
  rw [name] at length
  cases bytes : x.bytes with
  | nil =>
      simp [bytes] at positive
  | cons b more =>
      rw [bytes] at length
      simp only [Kind.length, List.cons_append, nameLength] at length
      split at length
      · rename_i starts
        have first : isNameByte b = true := by
          simp only [isNameStart, Bool.or_eq_true] at starts
          rcases starts with letter | underscore
          · simp [isNameByte, isWordByte, letter]
          · simp [isNameByte, isWordByte, underscore]
        -- The span is as long as what the name goes on with, so it is that.
        have span : (more ++ rest).takeWhile isNameByte = more := by
          have whole := List.prefix_iff_eq_take.mp
            (List.takeWhile_prefix (l := more ++ rest) isNameByte)
          have same : ((more ++ rest).takeWhile isNameByte).length =
              more.length := by
            simp only [spanLength, List.length_cons] at length
            omega
          rw [whole, same, List.take_left]
        refine ⟨by simp, List.forall_mem_cons.mpr ⟨first, ?_⟩⟩
        rw [← span]
        exact List.all_eq_true.mp List.all_takeWhile
      · cases length

/-- Whether every operand of a line is a token of some text. -/
def Line.Worded (l : Line) : Prop :=
  ∀ body, l.statement = some body → ∀ o ∈ body.phrase.operands,
    ∃ t, operand? t = some o ∧ t.lexeme.Occurs

theorem lineOf_worded {tokens : List Token} {pos : Position}
    (occurs : ∀ t ∈ tokens, t.lexeme.Occurs) :
    (lineOf pos tokens).Worded := by
  intro body read o held
  obtain ⟨t, member, found⟩ := (of_statement read).2 o held
  exact ⟨t, found, occurs t ((label_suffix tokens).subset member)⟩

/-! ## Numbers of tokens -/

/-- Whether every token has the number of the line that it stands in, from the
number of the first one on. -/
def Numbered : Nat → List Token → Prop
  | _, [] => True
  | number, t :: rest =>
    t.pos.line = number ∧ Numbered (number + t.bytes.count 0x0A) rest

theorem numbered_append {number : Nat} {front back : List Token}
    (numbered : Numbered number (front ++ back))
    (free : 0x0A ∉ spelled (front.map Token.lexeme)) :
    (∀ t ∈ front, t.pos.line = number) ∧ Numbered number back := by
  induction front with
  | nil =>
      exact ⟨by simp, numbered⟩
  | cons t front inductionHypothesis =>
      obtain ⟨own, later⟩ := numbered
      simp only [List.map_cons, spelled_cons, List.mem_append, not_or]
        at free
      rw [List.count_eq_zero.mpr (show 0x0A ∉ t.bytes from free.1),
        Nat.add_zero] at later
      obtain ⟨others, behind⟩ := inductionHypothesis later free.2
      exact ⟨List.forall_mem_cons.mpr ⟨own, others⟩, behind⟩

/-- A text that is read to its end consists of its tokens, and each of them
has the number of its line. -/
theorem of_scanFrom {fuel : Nat} {seen : Array Token} {pos : Position}
    {bytes : List UInt8}
    (whole : (scanFrom fuel seen pos bytes).stuck = none) :
    ∃ tokens,
      (scanFrom fuel seen pos bytes).tokens.toList = seen.toList ++ tokens ∧
        spelled (tokens.map Token.lexeme) = bytes ∧
          Legible (tokens.map Token.lexeme) [] ∧
            Numbered pos.line tokens := by
  fun_induction scanFrom fuel seen pos bytes with
  | case1 fuel seen pos =>
      exact ⟨[], by simp, rfl, trivial, trivial⟩
  | case2 | case3 =>
      cases whole
  | case4 fuel seen pos rest nonempty kind length found bytes
      inductionHypothesis =>
      obtain ⟨tokens, read, text, legible, numbered⟩ :=
        inductionHypothesis whole
      have measured := (length_of_firstKind? found).1
      have within : length ≤ rest.length := measured ▸ kind.length_le rest
      have own : (rest.take length).length = length := by
        rw [List.length_take]
        omega
      refine ⟨⟨kind, rest.take length, pos⟩ :: tokens, ?_, ?_, ⟨?_, legible⟩,
        rfl, numbered⟩
      · simp [read, bytes]
      · simp [Token.lexeme, text]
      · rw [List.append_nil, text]
        simpa [Token.lexeme, own] using found

/-! ## Lines of a text -/

/-- The tokens that are not left out. -/
def shown (tokens : List Token) : List Token :=
  tokens.filter fun t => !t.kind.isSkipped

/-- A line that has been read off a physical line of some number: all its
places have that number, its operands are tokens, and read by itself the
physical line gives the same line. -/
structure Line.ReadOff (l : Line) (number : Nat) (piece : List UInt8) :
    Prop where
  standsOn : l.StandsOn number
  worded : l.Worded
  alone : ∃ own, parse piece = .ok [own] ∧ own.unplaced = l.unplaced

section Alone

variable {front others : List Token}

theorem unplaced_of_lexemes
    (same : others.map Token.lexeme = front.map Token.lexeme) :
    (shown others).map Token.unplaced = (shown front).map Token.unplaced := by
  have place (tokens : List Token) :
      (shown tokens).map Token.unplaced =
        (kept (tokens.map Token.lexeme)).map fun x =>
          ⟨x.kind, x.bytes, {}⟩ := by
    rw [kept, List.filter_map, List.map_map]
    rfl
  rw [place, same, place]

/-- Reading starts a line at its first token, which is the end of the line if
there is no other one. -/
theorem linesFrom_succ (front : List Token) (eol : Token) :
    ∃ t ∈ front ++ [eol], ∀ rest fuel seen,
      linesFrom (fuel + 1) seen (front ++ eol :: rest) =
        match line t.pos (front ++ eol :: rest) with
        | .error why => .error why
        | .ok (l, left) => linesFrom fuel (seen.push l) left := by
  cases front with
  | nil =>
      exact ⟨eol, by simp, fun _ _ _ => rfl⟩
  | cons t front =>
      exact ⟨t, by simp, fun _ _ _ => rfl⟩

theorem eol_not_mem_shown (inner : ∀ t ∈ front, t.kind ≠ .eol) :
    ∀ t ∈ shown front, t.kind ≠ .eol :=
  fun t member => inner t (List.mem_filter.mp member).1

/-- A physical line that is read by itself. -/
theorem parse_alone {piece : List UInt8} {own : List Lexeme}
    (free : 0x0A ∉ piece) (text : spelled own = piece)
    (inner : ∀ x ∈ own, x.kind ≠ .eol)
    (legible : Legible (own ++ [.eol]) [])
    (same : front.map Token.lexeme = own)
    (done : leftOf (shown front) = []) (pos : Position) :
    ∃ alone, parse piece = .ok [alone] ∧
      alone.unplaced = (lineOf pos (shown front)).unplaced := by
  obtain ⟨tokens, lexemes, scanned⟩ := scan_legible legible
  obtain ⟨others, last, split, othersSame, lastSame⟩ :=
    List.map_eq_append_iff.mp lexemes
  obtain ⟨eol, rfl, eolSame⟩ := List.map_eq_singleton_iff.mp lastSame
  have ends : eol.kind = .eol := congrArg Lexeme.kind eolSame
  have unplaced := unplaced_of_lexemes (othersSame.trans same.symm)
  have doneAlone : leftOf (shown others) = [] := by
    have left := leftOf_unplaced (shown others)
    rw [unplaced, leftOf_unplaced, done] at left
    exact List.map_eq_nil_iff.mp left.symm
  have freeAlone : ∀ t ∈ shown others, t.kind ≠ .eol := by
    apply eol_not_mem_shown
    intro t member
    apply inner t.lexeme
    rw [← othersSame]
    exact List.mem_map_of_mem member
  have ended : terminated piece = spelled (own ++ [.eol]) := by
    rw [terminated_of_free free, spelled_append, text]
    rfl
  have kept : tokens.toList.filter (fun t => !t.kind.isSkipped) =
      shown others ++ [eol] := by
    have stays : eol.kind.isSkipped = false := by
      rw [ends]
      rfl
    simp [split, shown, stays]
  obtain ⟨t, -, continued⟩ := linesFrom_succ (shown others) eol
  have read : line t.pos (shown others ++ eol :: []) =
      .ok (lineOf t.pos (shown others), []) :=
    (line_eq_ok_iff freeAlone ends).mpr ⟨doneAlone, rfl, rfl⟩
  refine ⟨lineOf t.pos (shown others), ?_, ?_⟩
  · simp only [parse, ended, scanned, kept]
    rw [List.length_append, List.length_singleton, continued, read]
    cases (shown others).length <;> rfl
  · rw [← lineOf_unplaced, unplaced, lineOf_unplaced]

end Alone

/-- Lines that have been read off physical lines, one for one, from some
number on. -/
structure ReadOffFrom (number : Nat) (pieces : List (List UInt8))
    (lines : List Line) : Prop where
  length : lines.length = pieces.length
  each {place : Nat} {l : Line} {piece : List UInt8} :
    lines[place]? = some l → pieces[place]? = some piece →
      l.ReadOff (number + place) piece

theorem ReadOffFrom.cons {number : Nat} {piece : List UInt8}
    {pieces : List (List UInt8)} {l : Line} {lines : List Line}
    (first : l.ReadOff number piece)
    (others : ReadOffFrom (number + 1) pieces lines) :
    ReadOffFrom number (piece :: pieces) (l :: lines) where
  length := by simp [others.length]
  each := by
    intro place other own found alsoFound
    cases place with
    | zero =>
        cases found
        cases alsoFound
        exact first
    | succ place =>
        rw [Nat.add_comm place 1, ← Nat.add_assoc]
        exact others.each found alsoFound

/-- The tokens of a text whose first line is known: those of this line, its
end, and the others. -/
structure FirstLine (tokens : List Token) (piece rest : List UInt8)
    (front : List Token) (eol : Token) (back : List Token) : Prop where
  whole : tokens = front ++ eol :: back
  ends : eol.lexeme = .eol
  inner : ∀ t ∈ front, t.kind ≠ .eol
  piece : spelled (front.map Token.lexeme) = piece
  rest : spelled (back.map Token.lexeme) = rest
  alone : Legible (front.map Token.lexeme ++ [.eol]) []
  behind : Legible (back.map Token.lexeme) []

theorem exists_firstLine {tokens : List Token} {piece rest : List UInt8}
    (free : 0x0A ∉ piece)
    (text : spelled (tokens.map Token.lexeme) = piece ++ 0x0A :: rest)
    (legible : Legible (tokens.map Token.lexeme) []) :
    ∃ front eol back, FirstLine tokens piece rest front eol back := by
  obtain ⟨own, others, splits⟩ := legible_splits legible free text
  obtain ⟨front, back, rfl, frontSame, backSame⟩ :=
    List.map_eq_append_iff.mp splits.whole
  obtain ⟨eol, back, rfl, eolSame, backSame⟩ :=
    List.map_eq_cons_iff.mp backSame
  refine ⟨front, eol, back, rfl, eolSame, ?_, ?_, ?_, ?_, ?_⟩
  · intro t member
    apply splits.inner t.lexeme
    rw [← frontSame]
    exact List.mem_map_of_mem member
  · rw [frontSame, splits.piece]
  · rw [backSame, splits.rest]
  · rw [frontSame]
    exact splits.alone
  · rw [backSame]
    exact splits.behind

theorem FirstLine.shown {tokens front back : List Token} {eol : Token}
    {piece rest : List UInt8}
    (first : FirstLine tokens piece rest front eol back) :
    Source.shown tokens =
      Source.shown front ++ eol :: Source.shown back := by
  have kind : eol.kind = .eol := congrArg Lexeme.kind first.ends
  have stays : eol.kind.isSkipped = false := by
    rw [kind]
    rfl
  simp [Source.shown, first.whole, stays]

theorem linesFrom_readOff {pieces : List (List UInt8)}
    (free : ∀ piece ∈ pieces, 0x0A ∉ piece) {tokens : List Token}
    (text : spelled (tokens.map Token.lexeme) =
      pieces.flatMap (· ++ [0x0A]))
    (legible : Legible (tokens.map Token.lexeme) []) {number : Nat}
    (numbered : Numbered number tokens) {fuel : Nat} {seen read : Array Line}
    (enough : (shown tokens).length ≤ fuel)
    (done : linesFrom fuel seen (shown tokens) = .ok read) :
    ∃ lines, read.toList = seen.toList ++ lines ∧
      ReadOffFrom number pieces lines := by
  induction pieces generalizing tokens number fuel seen with
  | nil =>
      cases tokens with
      | nil =>
          have same : seen = read := by
            cases fuel <;> simpa [shown, linesFrom] using done
          exact ⟨[], by simp [same], rfl, by simp⟩
      | cons t tokens =>
          have positive := (length_of_firstKind? legible.1).2
          simp only [List.map_cons, spelled_cons, List.flatMap_nil,
            List.append_eq_nil_iff] at text
          rw [text.1] at positive
          cases positive
  | cons piece pieces inductionHypothesis =>
      obtain ⟨own, others⟩ := List.forall_mem_cons.mp free
      have split : spelled (tokens.map Token.lexeme) =
          piece ++ 0x0A :: pieces.flatMap (· ++ [0x0A]) := by
        simpa using text
      obtain ⟨front, eol, back, first⟩ := exists_firstLine own split legible
      have ends : eol.kind = .eol := congrArg Lexeme.kind first.ends
      have newline : eol.bytes = [0x0A] := congrArg Lexeme.bytes first.ends
      rw [first.whole] at numbered
      obtain ⟨placed, eolPlaced, later⟩ := numbered_append numbered
        (by rw [first.piece]; exact own)
      rw [newline] at later
      have shownPlaced : ∀ t ∈ shown front, t.pos.line = number :=
        fun t member => placed t (List.mem_filter.mp member).1
      rw [first.shown] at enough done
      rw [List.length_append, List.length_cons] at enough
      obtain ⟨fuel, rfl⟩ : ∃ less, fuel = less + 1 := ⟨fuel - 1, by omega⟩
      obtain ⟨t, member, continued⟩ := linesFrom_succ (shown front) eol
      have start : t.pos.line = number := by
        rcases List.mem_append.mp member with inside | last
        · exact shownPlaced t inside
        · rw [List.mem_singleton.mp last, eolPlaced]
      rw [continued] at done
      split at done
      · cases done
      · rename_i l left taken
        obtain ⟨complete, rfl, rfl⟩ :=
          (line_eq_ok_iff (eol_not_mem_shown first.inner) ends).mp taken
        obtain ⟨lines, same, readOff⟩ := inductionHypothesis others
          first.rest first.behind later (by omega) done
        refine ⟨lineOf t.pos (shown front) :: lines, ?_,
          .cons ⟨?_, ?_, ?_⟩ readOff⟩
        · simp [same]
        · exact lineOf_standsOn shownPlaced start
        · apply lineOf_worded
          intro x inside
          apply occurs_of_legible first.alone
          exact List.mem_append_left _
            (List.mem_map_of_mem (List.mem_filter.mp inside).1)
        · have inner : ∀ x ∈ front.map Token.lexeme, x.kind ≠ .eol :=
            List.forall_mem_map.mpr first.inner
          exact parse_alone own first.piece inner first.alone rfl complete
            t.pos

/-- A text that is read consists of its tokens, and those that are shown give
its lines. -/
theorem parse_eq_ok {source : List UInt8} {lines : List Line}
    (parsed : parse source = .ok lines) :
    ∃ tokens : List Token,
      scan (terminated source) = ⟨tokens.toArray, none⟩ ∧
        spelled (tokens.map Token.lexeme) = terminated source ∧
          Legible (tokens.map Token.lexeme) [] ∧ Numbered 1 tokens ∧
            linesFrom (shown tokens).length #[] (shown tokens) =
              .ok lines.toArray := by
  simp only [parse] at parsed
  split at parsed
  · cases parsed
  · rename_i whole
    obtain ⟨read, done, rfl⟩ := map_eq_ok_iff.mp parsed
    obtain ⟨tokens, scanned, text, legible, numbered⟩ := of_scanFrom whole
    simp only [List.nil_append] at scanned
    refine ⟨tokens, ?_, text, legible, numbered, ?_⟩
    · rw [← scanned, ← whole]
      rfl
    · rw [scan, scanned] at done
      exact done

/-- The lines of a text are its physical lines, one for one and in order. -/
theorem parse_readOff {source : List UInt8} {lines : List Line}
    (parsed : parse source = .ok lines) :
    ReadOffFrom 1 (physicalLines source) lines := by
  obtain ⟨tokens, -, text, legible, numbered, done⟩ := parse_eq_ok parsed
  obtain ⟨read, same, readOff⟩ := linesFrom_readOff
    (newline_not_mem_physicalLines source)
    (by rw [text, flatMap_physicalLines]) legible numbered
    (Nat.le_refl _) done
  rw [show lines = read by simpa using same]
  exact readOff

end WindowMachine.Source
