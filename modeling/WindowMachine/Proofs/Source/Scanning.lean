import WindowMachine.Source.Token

/-!
# Tokens and what stands behind them

Which token a text starts with depends on the bytes up to the next space,
comma or end of a line, and on nothing behind it: no kind of token but a
comment reaches over one of these, and none looks further ahead.  A piece of
text that is one token when it stands alone is therefore the same token in
front of them.
-/

namespace WindowMachine.Source

/-- A byte at which the token before it ends, unless that is a comment. -/
def isStop (b : UInt8) : Bool := b == 0x20 || b == 0x2C || b == 0x0A

theorem isStop_cases {b : UInt8} (stops : isStop b = true) :
    b = 0x20 ∨ b = 0x2C ∨ b = 0x0A := by
  simpa [isStop, or_assoc] using stops

/-! ## Lengths -/

theorem spanLength_le (test : UInt8 → Bool) (bytes : List UInt8) :
    spanLength test bytes ≤ bytes.length :=
  (List.takeWhile_sublist test).length_le

theorem spanLength_of_all {test : UInt8 → Bool} {bytes : List UInt8}
    (passes : ∀ b ∈ bytes, test b = true) :
    spanLength test bytes = bytes.length := by
  have all : bytes.takeWhile test = bytes := by
    simpa using @List.takeWhile_append_of_pos _ test bytes [] passes
  rw [spanLength, all]

theorem signLength_cons (b : UInt8) (rest : List UInt8) :
    signLength (b :: rest) = if b = 0x2B ∨ b = 0x2D then 1 else 0 := by
  unfold signLength
  split <;> simp_all

theorem signLength_le (bytes : List UInt8) :
    signLength bytes ≤ bytes.length := by
  cases bytes with
  | nil =>
      exact Nat.le_refl 0
  | cons b rest =>
      rw [signLength_cons]
      split <;> simp

theorem nameLength_le (bytes : List UInt8) :
    nameLength bytes ≤ bytes.length := by
  cases bytes with
  | nil =>
      exact Nat.le_refl 0
  | cons b rest =>
      have bound := spanLength_le isNameByte rest
      simp only [nameLength, List.length_cons]
      split <;> omega

theorem hexLength_cons_cons (b x : UInt8) (rest : List UInt8) :
    hexLength (b :: x :: rest) =
      if b = 0x30 ∧ (x = 0x58 ∨ x = 0x78) ∧ spanLength isHexDigit rest ≠ 0
      then 2 + spanLength isHexDigit rest
      else 0 := by
  by_cases zero : b = 0x30
  · subst zero
    simp [hexLength]
  · simp [hexLength, zero]

theorem exponentLength_le (bytes : List UInt8) :
    exponentLength bytes ≤ bytes.length := by
  cases bytes with
  | nil =>
      exact Nat.le_refl 0
  | cons e rest =>
      have sign := signLength_le rest
      have digits := spanLength_le isDigit (rest.drop (signLength rest))
      rw [List.length_drop] at digits
      simp only [exponentLength, List.length_cons]
      split
      · split <;> omega
      · omega

theorem floatLength_le (bytes : List UInt8) :
    floatLength bytes ≤ bytes.length := by
  have sign := signLength_le bytes
  have whole := spanLength_le isDigit (bytes.drop (signLength bytes))
  rw [List.length_drop] at whole
  simp only [floatLength]
  split
  · omega
  · rename_i rest point _
    have behind := congrArg List.length point
    have fraction := spanLength_le isDigit rest
    have exponent := exponentLength_le (rest.drop (spanLength isDigit rest))
    rw [List.length_drop] at behind exponent
    rw [List.length_cons] at behind
    split <;> omega
  · omega

theorem hexLength_le (bytes : List UInt8) :
    hexLength bytes ≤ bytes.length := by
  match bytes with
  | [] =>
      exact Nat.le_refl 0
  | [b] =>
      simp [hexLength]
  | b :: x :: rest =>
      have digits := spanLength_le isHexDigit rest
      rw [hexLength_cons_cons, List.length_cons, List.length_cons]
      split <;> omega

theorem intLength_le (bytes : List UInt8) :
    intLength bytes ≤ bytes.length := by
  have sign := signLength_le bytes
  have hex := hexLength_le (bytes.drop (signLength bytes))
  have digits := spanLength_le isDigit (bytes.drop (signLength bytes))
  rw [List.length_drop] at hex digits
  by_cases plain : hexLength (bytes.drop (signLength bytes)) = 0
  · simp only [intLength, plain, if_true]
    split <;> omega
  · simp only [intLength, plain, if_false]
    omega

theorem registerLength_le (bytes : List UInt8) :
    registerLength bytes ≤ bytes.length := by
  cases bytes with
  | nil =>
      exact Nat.le_refl 0
  | cons r rest =>
      have digits := spanLength_le isDigit rest
      simp only [registerLength, List.length_cons]
      split <;> split <;> omega

/-- No token is longer than the text that it is read from. -/
theorem Kind.length_le (kind : Kind) (bytes : List UInt8) :
    kind.length bytes ≤ bytes.length := by
  cases kind with
  | comment =>
      cases bytes with
      | nil =>
          exact Nat.le_refl 0
      | cons b rest =>
          have span := spanLength_le (· != 0x0A) rest
          by_cases semicolon : b = 0x3B
          · subst semicolon
            simp only [Kind.length, List.length_cons]
            omega
          · simp [Kind.length, semicolon]
  | directive =>
      cases bytes with
      | nil =>
          exact Nat.le_refl 0
      | cons b rest =>
          have span := spanLength_le isLetter rest
          by_cases dot : b = 0x2E
          · subst dot
            simp only [Kind.length, List.length_cons]
            split <;> omega
          · simp [Kind.length, dot]
  | eol =>
      cases bytes with
      | nil =>
          exact Nat.le_refl 0
      | cons b rest =>
          by_cases newline : b = 0x0A
          · simp [Kind.length, newline]
          · simp [Kind.length, newline]
  | comma =>
      cases bytes with
      | nil =>
          exact Nat.le_refl 0
      | cons b rest =>
          by_cases comma : b = 0x2C
          · simp [Kind.length, comma]
          · simp [Kind.length, comma]
  | label =>
      have name := nameLength_le bytes
      simp only [Kind.length]
      split
      · omega
      · rename_i colon _
        have behind := congrArg List.length colon
        rw [List.length_drop, List.length_cons] at behind
        omega
      · omega
  | blank =>
      exact spanLength_le isBlank bytes
  | register =>
      exact registerLength_le bytes
  | float =>
      exact floatLength_le bytes
  | int =>
      exact intLength_le bytes
  | name =>
      exact nameLength_le bytes

/-! ## Behind a stop -/

section Stops

variable {stop : UInt8} (bytes rest : List UInt8)

theorem spanLength_append_stop {test : UInt8 → Bool}
    (fails : test stop = false) :
    spanLength test (bytes ++ stop :: rest) = spanLength test bytes := by
  induction bytes with
  | nil =>
      simp [spanLength, fails]
  | cons b bytes inductionHypothesis =>
      simp only [spanLength] at inductionHypothesis
      cases passes : test b with
      | false =>
          simp [spanLength, passes]
      | true =>
          simp [spanLength, passes, inductionHypothesis]

variable (stops : isStop stop = true)

include stops

theorem isNameByte_of_isStop : isNameByte stop = false := by
  rcases isStop_cases stops with rfl | rfl | rfl <;> rfl

theorem isWordByte_of_isStop : isWordByte stop = false := by
  rcases isStop_cases stops with rfl | rfl | rfl <;> rfl

theorem isLetter_of_isStop : isLetter stop = false := by
  rcases isStop_cases stops with rfl | rfl | rfl <;> rfl

theorem isDigit_of_isStop : isDigit stop = false := by
  rcases isStop_cases stops with rfl | rfl | rfl <;> rfl

theorem isHexDigit_of_isStop : isHexDigit stop = false := by
  rcases isStop_cases stops with rfl | rfl | rfl <;> rfl

theorem signLength_append_stop :
    signLength (bytes ++ stop :: rest) = signLength bytes := by
  cases bytes with
  | nil =>
      rcases isStop_cases stops with rfl | rfl | rfl <;> rfl
  | cons b bytes =>
      simp only [List.cons_append, signLength_cons]

theorem nameLength_append_stop :
    nameLength (bytes ++ stop :: rest) = nameLength bytes := by
  cases bytes with
  | nil =>
      rcases isStop_cases stops with rfl | rfl | rfl <;> rfl
  | cons b bytes =>
      simp only [List.cons_append, nameLength,
        spanLength_append_stop bytes rest (isNameByte_of_isStop stops)]

theorem exponentLength_append_stop :
    exponentLength (bytes ++ stop :: rest) = exponentLength bytes := by
  cases bytes with
  | nil =>
      rcases isStop_cases stops with rfl | rfl | rfl <;> rfl
  | cons e bytes =>
      simp only [List.cons_append, exponentLength,
        signLength_append_stop bytes rest stops,
        List.drop_append_of_le_length (signLength_le bytes),
        spanLength_append_stop _ rest (isDigit_of_isStop stops)]

theorem floatLength_append_stop :
    floatLength (bytes ++ stop :: rest) = floatLength bytes := by
  have signFits := signLength_le bytes
  have wholeFits :=
    spanLength_le isDigit (bytes.drop (signLength bytes))
  rw [List.length_drop] at wholeFits
  simp only [floatLength, signLength_append_stop bytes rest stops,
    List.drop_append_of_le_length signFits,
    spanLength_append_stop _ rest (isDigit_of_isStop stops)]
  rw [List.drop_append_of_le_length (by omega)]
  generalize spanLength isDigit (bytes.drop (signLength bytes)) = whole
  cases whole with
  | zero =>
      rfl
  | succ whole =>
      cases bytes.drop (signLength bytes + (whole + 1)) with
      | nil =>
          rcases isStop_cases stops with rfl | rfl | rfl <;> rfl
      | cons b behind =>
          by_cases point : b = 0x2E
          · subst point
            simp only [List.cons_append,
              spanLength_append_stop behind rest (isDigit_of_isStop stops),
              List.drop_append_of_le_length (spanLength_le isDigit behind),
              exponentLength_append_stop _ rest stops]
          · simp [point]

theorem hexLength_append_stop :
    hexLength (bytes ++ stop :: rest) = hexLength bytes := by
  match bytes with
  | [] =>
      rcases isStop_cases stops with rfl | rfl | rfl
      all_goals cases rest <;> rfl
  | [b] =>
      have short : hexLength [b] = 0 := by
        simp [hexLength]
      simp only [List.cons_append, List.nil_append, hexLength_cons_cons, short]
      rcases isStop_cases stops with rfl | rfl | rfl <;> simp
  | b :: x :: more =>
      simp only [List.cons_append, hexLength_cons_cons,
        spanLength_append_stop more rest (isHexDigit_of_isStop stops)]

theorem intLength_append_stop :
    intLength (bytes ++ stop :: rest) = intLength bytes := by
  simp only [intLength, signLength_append_stop bytes rest stops,
    List.drop_append_of_le_length (signLength_le bytes),
    hexLength_append_stop _ rest stops,
    spanLength_append_stop _ rest (isDigit_of_isStop stops)]

theorem registerLength_append_stop :
    registerLength (bytes ++ stop :: rest) = registerLength bytes := by
  cases bytes with
  | nil =>
      rcases isStop_cases stops with rfl | rfl | rfl <;> rfl
  | cons r bytes =>
      simp only [List.cons_append, registerLength,
        spanLength_append_stop bytes rest (isDigit_of_isStop stops),
        List.drop_append_of_le_length (spanLength_le isDigit bytes)]
      cases bytes.drop (spanLength isDigit bytes) with
      | nil =>
          simp [isWordByte_of_isStop stops]
      | cons b behind =>
          rfl

theorem labelLength_append_stop :
    Kind.label.length (bytes ++ stop :: rest) = Kind.label.length bytes := by
  simp only [Kind.length, nameLength_append_stop bytes rest stops,
    List.drop_append_of_le_length (nameLength_le bytes)]
  generalize nameLength bytes = name
  cases name with
  | zero =>
      rfl
  | succ name =>
      cases bytes.drop (name + 1) with
      | nil =>
          rcases isStop_cases stops with rfl | rfl | rfl <;> rfl
      | cons b behind =>
          by_cases colon : b = 0x3A
          · subst colon
            rfl
          · simp [colon]

end Stops

/-! ## The first token -/

/-- Whether tokens of a kind are words: neither left out nor punctuation. -/
def Kind.isWord : Kind → Bool
  | .comment | .blank | .eol | .comma => false
  | _ => true

/-- Whether tokens of a kind can start with a byte. -/
def Kind.starts : Kind → UInt8 → Bool
  | .comment, b => b == 0x3B
  | .blank, b => isBlank b
  | .eol, b => b == 0x0A
  | .label, b | .name, b => isNameStart b
  | .directive, b => b == 0x2E
  | .register, b => b == 0x52 || b == 0x72
  | .float, b | .int, b => isDigit b || b == 0x2B || b == 0x2D
  | .comma, b => b == 0x2C

/-- A byte that a word can start with. -/
def isInk (b : UInt8) : Bool :=
  !isBlank b && b != 0x3B && b != 0x0A && b != 0x2C

section First

variable {b stop : UInt8} {bytes rest : List UInt8} {kind : Kind}
  {length : Nat}

theorem isInk_iff :
    isInk b = true ↔
      isBlank b = false ∧ b ≠ 0x3B ∧ b ≠ 0x0A ∧ b ≠ 0x2C := by
  simp [isInk, and_assoc]

theorem Kind.length_append_stop (ink : isInk b = true)
    (stops : isStop stop = true) (kind : Kind) :
    kind.length (b :: bytes ++ stop :: rest) = kind.length (b :: bytes) := by
  obtain ⟨blank, semicolon, eol, comma⟩ := isInk_iff.mp ink
  cases kind with
  | comment =>
      simp [Kind.length, semicolon]
  | blank =>
      simp [Kind.length, spanLength, blank]
  | eol =>
      simp [Kind.length, eol]
  | comma =>
      simp [Kind.length, comma]
  | label =>
      exact labelLength_append_stop (b :: bytes) rest stops
  | directive =>
      by_cases dot : b = 0x2E
      · subst dot
        simp only [List.cons_append, Kind.length,
          spanLength_append_stop bytes rest (isLetter_of_isStop stops)]
      · simp [Kind.length, dot]
  | register =>
      exact registerLength_append_stop (b :: bytes) rest stops
  | float =>
      exact floatLength_append_stop (b :: bytes) rest stops
  | int =>
      exact intLength_append_stop (b :: bytes) rest stops
  | name =>
      exact nameLength_append_stop (b :: bytes) rest stops

/-- Nothing behind a stop has a say in which token comes first. -/
theorem firstKind?_append_stop (ink : isInk b = true)
    (stops : isStop stop = true) :
    firstKind? (b :: bytes ++ stop :: rest) = firstKind? (b :: bytes) := by
  simp only [firstKind?, Kind.length_append_stop ink stops]

theorem Kind.length_of_starts_false (other : kind.starts b = false) :
    kind.length (b :: rest) = 0 := by
  cases kind with
  | comment | eol | directive | comma =>
      have different := beq_eq_false_iff_ne.mp other
      simp [Kind.length, different]
  | blank =>
      have blank : isBlank b = false := other
      simp [Kind.length, spanLength, blank]
  | label | name =>
      have name : isNameStart b = false := other
      simp [Kind.length, nameLength, name]
  | register =>
      have letter : (b == 0x52 || b == 0x72) = false := other
      simp [Kind.length, registerLength, letter]
  | float =>
      have start : isDigit b = false ∧ b ≠ 0x2B ∧ b ≠ 0x2D := by
        simpa [Kind.starts, and_assoc] using other
      simp [Kind.length, floatLength, signLength_cons, spanLength, start]
  | int =>
      have start : isDigit b = false ∧ b ≠ 0x2B ∧ b ≠ 0x2D := by
        simpa [Kind.starts, and_assoc] using other
      have zero : b ≠ 0x30 := by
        rintro rfl
        cases start.1
      have hex : hexLength (b :: rest) = 0 := by
        simp [hexLength, zero]
      simp [Kind.length, intLength, signLength_cons, spanLength, start, hex]

/-- A kind is taken if it fits and none that is tried before it does. -/
theorem firstKind?_of_before {before after : List Kind}
    (order : Kind.all = before ++ kind :: after)
    (skips : ∀ earlier ∈ before, earlier.length bytes = 0)
    (fits : kind.length bytes = length) (positive : 0 < length) :
    firstKind? bytes = some (kind, length) := by
  rw [firstKind?, order]
  clear order
  induction before with
  | nil =>
      cases length with
      | zero =>
          cases positive
      | succ n =>
          simp [fits]
  | cons earlier before inductionHypothesis =>
      have skipped := skips earlier List.mem_cons_self
      simp only [List.cons_append, List.findSome?_cons, skipped]
      exact inductionHypothesis fun other member =>
        skips other (List.mem_cons_of_mem earlier member)

theorem length_of_firstKind?
    (found : firstKind? bytes = some (kind, length)) :
    kind.length bytes = length ∧ 0 < length := by
  obtain ⟨tried, -, fits⟩ := List.exists_of_findSome?_eq_some found
  cases measured : tried.length bytes with
  | zero =>
      simp [measured] at fits
  | succ n =>
      simp only [measured, Option.some.injEq, Prod.mk.injEq] at fits
      obtain ⟨rfl, rfl⟩ := fits
      exact ⟨measured, Nat.succ_pos n⟩

theorem firstKind?_eol : firstKind? (0x0A :: rest) = some (.eol, 1) := by
  simp [firstKind?, Kind.all, Kind.length, spanLength, isBlank]

theorem firstKind?_comma : firstKind? (0x2C :: rest) = some (.comma, 1) := by
  have skips : ∀ kind ∈ Kind.all.dropLast,
      kind.length (0x2C :: rest) = 0 := by
    intro kind member
    apply Kind.length_of_starts_false
    revert kind
    decide
  exact firstKind?_of_before rfl skips rfl (by decide)

theorem firstKind?_space (ink : isInk b = true) :
    firstKind? (0x20 :: b :: rest) = some (.blank, 1) := by
  have blank := (isInk_iff.mp ink).1
  have space : isBlank 0x20 = true := rfl
  simp [firstKind?, Kind.all, Kind.length, spanLength, blank, space]

theorem isInk_of_firstKind?
    (found : firstKind? (b :: rest) = some (kind, length))
    (word : kind.isWord = true) : isInk b = true := by
  apply isInk_iff.mpr
  refine ⟨?_, ?_, ?_, ?_⟩
  · cases blank : isBlank b with
    | false =>
        rfl
    | true =>
        have semicolon : b ≠ 0x3B := by
          rintro rfl
          cases blank
        simp only [firstKind?, Kind.all, List.findSome?_cons, Kind.length,
          spanLength, List.takeWhile_cons, blank] at found
        simp [semicolon] at found
        rw [← found.1] at word
        cases word
  · rintro rfl
    simp [firstKind?, Kind.all, Kind.length, Nat.add_comm 1] at found
    rw [← found.1] at word
    cases word
  · rintro rfl
    rw [firstKind?_eol] at found
    cases found
    cases word
  · rintro rfl
    rw [firstKind?_comma] at found
    cases found
    cases word

end First

/-! ## Numerals and registers -/

section Digits

variable {b : UInt8} {digits : List UInt8}
  (numeric : ∀ b ∈ digits, isDigit b = true) (nonempty : digits ≠ [])

theorem isDigit_iff : isDigit b = true ↔ 48 ≤ b.toNat ∧ b.toNat ≤ 57 := by
  simp [isDigit, UInt8.le_iff_toNat_le]

/-- The kinds that are tried before numbers. -/
def beforeNumbers : List Kind :=
  [.comment, .blank, .eol, .label, .directive, .register]

theorem starts_beforeNumbers (starts : Kind.int.starts b = true) :
    ∀ kind ∈ beforeNumbers, kind.starts b = false := by
  have value : 48 ≤ b.toNat ∧ b.toNat ≤ 57 ∨ b.toNat = 43 ∨ b.toNat = 45 := by
    simpa [Kind.starts, isDigit_iff, ← UInt8.toNat_inj, or_assoc] using starts
  simp [beforeNumbers, Kind.starts, isBlank, isNameStart, isLetter,
    UInt8.le_iff_toNat_le, ← UInt8.toNat_inj]
  omega

include numeric

theorem signLength_digits : signLength digits = 0 := by
  cases digits with
  | nil =>
      rfl
  | cons b rest =>
      have digit := isDigit_iff.mp (numeric b List.mem_cons_self)
      rw [signLength_cons, if_neg]
      simp only [← UInt8.toNat_inj, UInt8.reduceToNat]
      omega

theorem hexLength_digits : hexLength digits = 0 := by
  match digits, numeric with
  | [], _ =>
      rfl
  | [b], _ =>
      simp [hexLength]
  | b :: x :: rest, numeric =>
      have digit := isDigit_iff.mp (numeric x (by simp))
      rw [hexLength_cons_cons, if_neg]
      simp only [← UInt8.toNat_inj, UInt8.reduceToNat]
      omega

include nonempty

/-- Digits, perhaps with a sign, are an integer. -/
theorem firstKind?_numeral {sign : List UInt8}
    (signs : sign = [] ∨ sign = [0x2B] ∨ sign = [0x2D]) :
    firstKind? (sign ++ digits) =
      some (.int, (sign ++ digits).length) := by
  have whole := spanLength_of_all numeric
  have signed : signLength (sign ++ digits) = sign.length := by
    rcases signs with rfl | rfl | rfl
    · exact signLength_digits numeric
    · rfl
    · rfl
  have float : floatLength (sign ++ digits) = 0 := by
    simp only [floatLength, signed, List.drop_left, whole]
    rw [List.drop_eq_nil_of_le (by simp)]
    split <;> simp_all
  have int : intLength (sign ++ digits) = (sign ++ digits).length := by
    simp [intLength, signed, hexLength_digits numeric, whole, nonempty]
  have starts : ∀ b ∈ (sign ++ digits).head?, Kind.int.starts b = true := by
    intro b first
    rcases signs with rfl | rfl | rfl
    · have digit := numeric b (List.mem_of_head? first)
      simp [Kind.starts, digit]
    · cases first
      rfl
    · cases first
      rfl
  cases split : sign ++ digits with
  | nil =>
      exact absurd (List.append_eq_nil_iff.mp split).2 nonempty
  | cons b rest =>
      rw [split] at float int starts
      have others := starts_beforeNumbers (starts b rfl)
      have skips : ∀ kind ∈ beforeNumbers ++ [.float],
          kind.length (b :: rest) = 0 := by
        intro kind member
        rcases List.mem_append.mp member with earlier | last
        · exact Kind.length_of_starts_false (others kind earlier)
        · rw [List.mem_singleton.mp last]
          exact float
      exact firstKind?_of_before rfl skips int (by simp)

/-- The letter r and digits are a register. -/
theorem firstKind?_register :
    firstKind? (0x72 :: digits) =
      some (.register, (0x72 :: digits).length) := by
  have word : spanLength isNameByte digits = digits.length := by
    apply spanLength_of_all
    intro b member
    simp [isNameByte, isWordByte, numeric b member]
  have label : Kind.label.length (0x72 :: digits) = 0 := by
    have letter : isNameStart 0x72 = true := rfl
    simp only [Kind.length, nameLength, letter, if_true, word]
    rw [List.drop_eq_nil_of_le (by rw [List.length_cons]; omega)]
    split <;> simp_all
  have register : registerLength (0x72 :: digits) =
      (0x72 :: digits).length := by
    simp [registerLength, spanLength_of_all numeric, nonempty, Nat.add_comm]
  have skips : ∀ kind ∈ [Kind.comment, .blank, .eol, .label, .directive],
      kind.length (0x72 :: digits) = 0 := by
    intro kind member
    by_cases same : kind = .label
    · rw [same]
      exact label
    · apply Kind.length_of_starts_false
      revert kind
      decide
  exact firstKind?_of_before rfl skips register (by simp)

end Digits

/-! ## Texts made of tokens -/

/-- A kind of token with bytes for it. -/
structure Lexeme where
  kind : Kind
  bytes : List UInt8
  deriving DecidableEq, Repr

/-- The kind and the bytes of a token. -/
def Token.lexeme (t : Token) : Lexeme := ⟨t.kind, t.bytes⟩

/-- The text that some lexemes make up. -/
def spelled (lexemes : List Lexeme) : List UInt8 :=
  lexemes.flatMap Lexeme.bytes

/-- Whether lexemes are read as the tokens that they are, with some text
behind them. -/
def Legible : List Lexeme → List UInt8 → Prop
  | [], _ => True
  | first :: more, rest =>
    firstKind? (first.bytes ++ (spelled more ++ rest)) =
      some (first.kind, first.bytes.length) ∧ Legible more rest

section Lexemes

variable {lexemes more : List Lexeme} {rest : List UInt8}

@[simp]
theorem spelled_nil : spelled [] = [] := rfl

@[simp]
theorem spelled_cons (first : Lexeme) :
    spelled (first :: more) = first.bytes ++ spelled more := by
  simp [spelled]

@[simp]
theorem spelled_append :
    spelled (lexemes ++ more) = spelled lexemes ++ spelled more := by
  simp [spelled]

theorem legible_append :
    Legible (lexemes ++ more) rest ↔
      Legible lexemes (spelled more ++ rest) ∧ Legible more rest := by
  induction lexemes with
  | nil =>
      simp [Legible]
  | cons first lexemes inductionHypothesis =>
      simp [Legible, inductionHypothesis, and_assoc]

theorem scanFrom_succ {bytes : List UInt8} {kind : Kind} {length : Nat}
    (found : firstKind? bytes = some (kind, length))
    (fuel : Nat) (seen : Array Token) (pos : Position) :
    scanFrom (fuel + 1) seen pos bytes =
      scanFrom fuel (seen.push ⟨kind, bytes.take length, pos⟩)
        (pos.after (bytes.take length)) (bytes.drop length) := by
  cases bytes with
  | nil =>
      have nothing : firstKind? [] = none := rfl
      rw [nothing] at found
      cases found
  | cons b bytes =>
      simp only [scanFrom, found]

theorem scanFrom_legible (legible : Legible lexemes []) {fuel : Nat}
    (enough : (spelled lexemes).length ≤ fuel)
    (seen : Array Token) (pos : Position) :
    ∃ tokens : List Token, tokens.map Token.lexeme = lexemes ∧
      scanFrom fuel seen pos (spelled lexemes) =
        ⟨seen ++ tokens.toArray, none⟩ := by
  induction lexemes generalizing fuel seen pos with
  | nil =>
      exact ⟨[], rfl, by cases fuel <;> simp [scanFrom]⟩
  | cons first lexemes inductionHypothesis =>
      obtain ⟨found, legible⟩ := legible
      have positive := (length_of_firstKind? found).2
      simp only [spelled_cons, List.length_append] at enough
      obtain ⟨fuel, rfl⟩ : ∃ less, fuel = less + 1 := ⟨fuel - 1, by omega⟩
      obtain ⟨tokens, same, scanned⟩ := inductionHypothesis legible
        (show (spelled lexemes).length ≤ fuel by omega)
        (seen.push ⟨first.kind, first.bytes, pos⟩) (pos.after first.bytes)
      refine ⟨⟨first.kind, first.bytes, pos⟩ :: tokens, ?_, ?_⟩
      · simp [Token.lexeme, same]
      · rw [List.append_nil] at found
        rw [spelled_cons, scanFrom_succ found, List.take_left, List.drop_left,
          scanned]
        simp

/-- A text of legible lexemes is read as just these. -/
theorem scan_legible (legible : Legible lexemes []) :
    ∃ tokens : Array Token, tokens.toList.map Token.lexeme = lexemes ∧
      scan (spelled lexemes) = ⟨tokens, none⟩ := by
  obtain ⟨tokens, same, scanned⟩ :=
    scanFrom_legible legible (Nat.le_refl _) #[] {}
  refine ⟨tokens.toArray, same, ?_⟩
  rw [scan, scanned]
  simp

end Lexemes

end WindowMachine.Source
