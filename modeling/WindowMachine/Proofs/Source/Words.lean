import WindowMachine.Proofs.Source.Scanning

/-!
# Words of each kind

The kinds of token overlap: a label starts with a name, a register is a name
as well, and a number with a point starts with an integer.  For the words of
each kind this module says why the kinds that are tried before it do not fit,
and that its own kind takes the whole word.
-/

namespace WindowMachine.Source

variable {b : UInt8} {front back digits : List UInt8}

/-! ## Spans -/

theorem drop_length_takeWhile {α : Type} (test : α → Bool) (xs : List α) :
    xs.drop (xs.takeWhile test).length = xs.dropWhile test := by
  have whole := @List.takeWhile_append_dropWhile _ test xs
  calc xs.drop (xs.takeWhile test).length
      = (xs.takeWhile test ++ xs.dropWhile test).drop
          (xs.takeWhile test).length := by rw [whole]
    _ = xs.dropWhile test := List.drop_left

/-- A span ends where the test fails. -/
theorem spanLength_append {test : UInt8 → Bool}
    (passes : ∀ b ∈ front, test b = true)
    (fails : ∀ b ∈ back.head?, test b = false) :
    spanLength test (front ++ back) = front.length := by
  rw [spanLength, List.takeWhile_append_of_pos passes]
  cases back with
  | nil =>
      simp
  | cons b rest =>
      simp [fails b rfl]

theorem signLength_append {sign : List UInt8}
    (signs : sign = [] ∨ sign = [0x2B] ∨ sign = [0x2D])
    (unsigned : ∀ b ∈ back.head?, isDigit b = true) :
    signLength (sign ++ back) = sign.length := by
  rcases signs with rfl | rfl | rfl
  · cases back with
    | nil =>
        rfl
    | cons b rest =>
        have digit := isDigit_iff.mp (unsigned b rfl)
        rw [List.nil_append, signLength_cons, if_neg]
        · rfl
        · simp only [← UInt8.toNat_inj, UInt8.reduceToNat]
          omega
  · rfl
  · rfl

/-! ## Names and labels -/

section Names

variable {name : List UInt8} (starts : isNameStart b = true)
  (goesOn : ∀ b ∈ name, isNameByte b = true)

theorem isNameStart_iff :
    isNameStart b = true ↔
      65 ≤ b.toNat ∧ b.toNat ≤ 90 ∨ 97 ≤ b.toNat ∧ b.toNat ≤ 122 ∨
        b.toNat = 95 := by
  simp [isNameStart, isLetter, UInt8.le_iff_toNat_le, ← UInt8.toNat_inj,
    or_assoc]

include starts in
/-- Nothing that starts like a name is of one of these kinds. -/
theorem starts_of_isNameStart :
    ∀ kind ∈ [Kind.comment, .blank, .eol, .directive, .float, .int],
      kind.starts b = false := by
  have value := isNameStart_iff.mp starts
  simp [Kind.starts, isBlank, isDigit, UInt8.le_iff_toNat_le,
    ← UInt8.toNat_inj]
  omega

include starts goesOn

theorem nameLength_name (fails : ∀ b ∈ back.head?, isNameByte b = false) :
    nameLength (b :: name ++ back) = name.length + 1 := by
  rw [List.cons_append, nameLength, if_pos starts,
    spanLength_append goesOn fails, Nat.add_comm]

theorem nameLength_whole : nameLength (b :: name) = name.length + 1 := by
  have length : nameLength (b :: name ++ []) = name.length + 1 :=
    nameLength_name starts goesOn (by simp)
  rwa [List.append_nil] at length

/-- A name with a colon is a label. -/
theorem firstKind?_label :
    firstKind? (b :: name ++ [0x3A]) =
      some (.label, (b :: name ++ [0x3A]).length) := by
  have length : nameLength (b :: name ++ [0x3A]) = name.length + 1 :=
    nameLength_name starts goesOn (by simp; rfl)
  have label : Kind.label.length (b :: name ++ [0x3A]) =
      (b :: name ++ [0x3A]).length := by
    simp only [Kind.length, length]
    simp
  have skips : ∀ kind ∈ [Kind.comment, .blank, .eol],
      kind.length (b :: name ++ [0x3A]) = 0 := by
    intro kind member
    apply Kind.length_of_starts_false
    apply starts_of_isNameStart starts
    revert kind
    decide
  exact firstKind?_of_before rfl skips label (by simp)

theorem labelLength_name : Kind.label.length (b :: name) = 0 := by
  simp only [Kind.length, nameLength_whole starts goesOn]
  simp

/-- A name that starts with a register is read as that register first. -/
theorem firstKind?_registerFront (fits : registerLength (b :: name) ≠ 0) :
    firstKind? (b :: name) =
      some (.register, registerLength (b :: name)) := by
  have skips : ∀ kind ∈ [Kind.comment, .blank, .eol, .label, .directive],
      kind.length (b :: name) = 0 := by
    intro kind member
    by_cases isLabel : kind = .label
    · rw [isLabel]
      exact labelLength_name starts goesOn
    · apply Kind.length_of_starts_false
      apply starts_of_isNameStart starts
      revert kind
      decide
  exact firstKind?_of_before rfl skips rfl (Nat.pos_of_ne_zero fits)

/-- A name that is no register is a name. -/
theorem firstKind?_name (other : registerLength (b :: name) = 0) :
    firstKind? (b :: name) = some (.name, (b :: name).length) := by
  have length := nameLength_whole starts goesOn
  have skips : ∀ kind ∈ [Kind.comment, .blank, .eol, .label, .directive,
      .register, .float, .int], kind.length (b :: name) = 0 := by
    intro kind member
    by_cases isLabel : kind = .label
    · rw [isLabel]
      exact labelLength_name starts goesOn
    · by_cases isRegister : kind = .register
      · rw [isRegister]
        exact other
      · apply Kind.length_of_starts_false
        apply starts_of_isNameStart starts
        revert kind
        decide
  exact firstKind?_of_before rfl skips length (by simp)

end Names

/-- A label is a name and a colon. -/
theorem of_labelLength_ne_zero {text : List UInt8}
    (fits : Kind.label.length text ≠ 0) :
    ∃ b name back, text = b :: name ++ 0x3A :: back ∧
      isNameStart b = true ∧ (∀ c ∈ name, isNameByte c = true) ∧
        Kind.label.length text = name.length + 2 := by
  cases text with
  | nil =>
      exact absurd rfl fits
  | cons b rest =>
      cases starts : isNameStart b with
      | false =>
          simp [Kind.length, nameLength, starts] at fits
      | true =>
          have length : nameLength (b :: rest) =
              (rest.takeWhile isNameByte).length + 1 := by
            rw [nameLength, if_pos starts, spanLength, Nat.add_comm]
          simp only [Kind.length, length, List.drop_succ_cons,
            drop_length_takeWhile] at fits ⊢
          split at fits
          · exact absurd rfl fits
          · rename_i back behind _
            refine ⟨b, rest.takeWhile isNameByte, back, ?_, starts,
              List.all_eq_true.mp List.all_takeWhile, rfl⟩
            rw [← behind, List.cons_append, List.takeWhile_append_dropWhile]
          · exact absurd rfl fits

/-! ## Directives -/

theorem firstKind?_directive {letters : List UInt8}
    (alphabetic : ∀ b ∈ letters, isLetter b = true)
    (nonempty : letters ≠ []) :
    firstKind? (0x2E :: letters) =
      some (.directive, (0x2E :: letters).length) := by
  have skips : ∀ kind ∈ [Kind.comment, .blank, .eol, .label],
      kind.length (0x2E :: letters) = 0 := by
    intro kind member
    apply Kind.length_of_starts_false
    revert kind
    decide
  have directive : Kind.directive.length (0x2E :: letters) =
      (0x2E :: letters).length := by
    simp [Kind.length, spanLength_of_all alphabetic, nonempty,
      Nat.add_comm]
  exact firstKind?_of_before rfl skips directive (by simp)

/-! ## Registers and numbers -/

section Digits

variable (numeric : ∀ b ∈ digits, isDigit b = true) (nonempty : digits ≠ [])

include numeric

theorem isNameByte_of_isDigit : ∀ b ∈ digits, isNameByte b = true := by
  intro b member
  simp [isNameByte, isWordByte, numeric b member]

include nonempty

/-- The letter r in either case and digits are a register. -/
theorem firstKind?_anyRegister (letter : b = 0x52 ∨ b = 0x72) :
    firstKind? (b :: digits) = some (.register, (b :: digits).length) := by
  have starts : isNameStart b = true := by
    rcases letter with rfl | rfl
    · rfl
    · rfl
  have register : registerLength (b :: digits) = (b :: digits).length := by
    simp [registerLength, spanLength_of_all numeric, nonempty, letter,
      Nat.add_comm]
  rw [firstKind?_registerFront starts (isNameByte_of_isDigit numeric)
    (by simp [register]), register]

end Digits

/-- What a register consists of, and that a word ends behind it. -/
theorem of_registerLength_ne_zero {rest : List UInt8}
    (fits : registerLength (b :: rest) ≠ 0) :
    (b = 0x52 ∨ b = 0x72) ∧ spanLength isDigit rest ≠ 0 ∧
      ∀ x ∈ (rest.drop (spanLength isDigit rest)).head?,
        isWordByte x = false := by
  simp only [registerLength, Bool.and_eq_true, Bool.or_eq_true, beq_iff_eq,
    bne_iff_ne, ne_eq, ite_eq_right_iff, Nat.add_eq_zero_iff,
    Nat.succ_ne_self, false_and, imp_false, not_and, Bool.not_eq_true,
    and_imp, Classical.not_imp, Bool.not_eq_false] at fits
  obtain ⟨letter, someDigits, ends⟩ := fits
  refine ⟨letter, someDigits, ?_⟩
  cases behind : rest.drop (spanLength isDigit rest) with
  | nil =>
      simp
  | cons x more =>
      rw [behind] at ends
      simpa using ends

/-! ## Numbers -/

section Numbers

variable {sign : List UInt8}
  (signs : sign = [] ∨ sign = [0x2B] ∨ sign = [0x2D])

include signs

/-- No kind that is tried before numbers fits a number. -/
theorem skips_of_signed (unsigned : ∀ b ∈ back.head?, isDigit b = true)
    (nonempty : back ≠ []) :
    ∀ kind ∈ beforeNumbers, kind.length (sign ++ back) = 0 := by
  obtain ⟨b, rest, split, starts⟩ : ∃ b rest,
      sign ++ back = b :: rest ∧ Kind.int.starts b = true := by
    cases back with
    | nil =>
        exact absurd rfl nonempty
    | cons first rest =>
        rcases signs with rfl | rfl | rfl
        · exact ⟨first, rest, rfl, by simp [Kind.starts, unsigned first rfl]⟩
        · exact ⟨0x2B, first :: rest, rfl, rfl⟩
        · exact ⟨0x2D, first :: rest, rfl, rfl⟩
  intro kind member
  rw [split]
  exact Kind.length_of_starts_false (starts_beforeNumbers starts kind member)

theorem exponentLength_exponent {e : UInt8} (letter : e = 0x45 ∨ e = 0x65)
    (numeric : ∀ b ∈ digits, isDigit b = true) (nonempty : digits ≠ []) :
    exponentLength (e :: (sign ++ digits)) =
      (e :: (sign ++ digits)).length := by
  have first : ∀ b ∈ digits.head?, isDigit b = true :=
    fun b member => numeric b (List.mem_of_head? member)
  have signed := signLength_append signs first
  simp only [exponentLength, signed, List.drop_left,
    spanLength_of_all numeric]
  simp [letter, nonempty]
  omega

/-- Digits on both sides of a point, and perhaps an exponent, are a number
with a point. -/
theorem firstKind?_float {whole fraction exponent : List UInt8}
    (wholeNumeric : ∀ b ∈ whole, isDigit b = true)
    (wholeNonempty : whole ≠ [])
    (fractionNumeric : ∀ b ∈ fraction, isDigit b = true)
    (fractionNonempty : fraction ≠ [])
    (exponentFails : ∀ b ∈ exponent.head?, isDigit b = false)
    (exponentFits : exponentLength exponent = exponent.length) :
    firstKind? (sign ++ (whole ++ 0x2E :: (fraction ++ exponent))) =
      some (.float,
        (sign ++ (whole ++ 0x2E :: (fraction ++ exponent))).length) := by
  obtain ⟨d, more, rfl⟩ := List.exists_cons_of_ne_nil wholeNonempty
  have first : ∀ b ∈ (d :: more ++ 0x2E :: (fraction ++ exponent)).head?,
      isDigit b = true := by
    rintro b ⟨⟩
    exact wholeNumeric d List.mem_cons_self
  have point : ∀ b ∈ (0x2E :: (fraction ++ exponent)).head?,
      isDigit b = false := by
    rintro b ⟨⟩
    rfl
  have behind : (sign ++ (d :: more ++ 0x2E :: (fraction ++ exponent))).drop
      (sign.length + (d :: more).length) =
        0x2E :: (fraction ++ exponent) := by
    rw [← List.drop_drop, List.drop_left, List.drop_left]
  have someFraction := List.length_pos_iff.mpr fractionNonempty
  have float : floatLength
      (sign ++ (d :: more ++ 0x2E :: (fraction ++ exponent))) =
        (sign ++ (d :: more ++ 0x2E :: (fraction ++ exponent))).length := by
    simp only [floatLength, signLength_append signs first, List.drop_left,
      spanLength_append wholeNumeric point, behind]
    simp only [List.length_cons,
      spanLength_append fractionNumeric exponentFails, List.drop_left,
      exponentFits, List.length_append]
    rw [if_neg (by omega)]
    omega
  exact firstKind?_of_before rfl
    (skips_of_signed signs first (by simp)) float
    (List.length_pos_iff.mpr (by simp))

/-- Digits of base 16 behind their mark are an integer. -/
theorem firstKind?_hex {x : UInt8} (mark : x = 0x58 ∨ x = 0x78)
    (hexadecimal : ∀ b ∈ digits, isHexDigit b = true)
    (nonempty : digits ≠ []) :
    firstKind? (sign ++ 0x30 :: x :: digits) =
      some (.int, (sign ++ 0x30 :: x :: digits).length) := by
  have first : ∀ b ∈ (0x30 :: x :: digits).head?, isDigit b = true := by
    rintro b ⟨⟩
    rfl
  have markFails : isDigit x = false ∧ x ≠ 0x2E := by
    rcases mark with rfl | rfl
    · exact ⟨rfl, by decide⟩
    · exact ⟨rfl, by decide⟩
  have zero : spanLength isDigit ([0x30] ++ x :: digits) = 1 :=
    spanLength_append (List.forall_mem_singleton.mpr rfl)
      (by simp [markFails])
  rw [List.singleton_append] at zero
  have behind : (sign ++ 0x30 :: x :: digits).drop (sign.length + 1) =
      x :: digits := by
    rw [← List.drop_drop, List.drop_left, List.drop_succ_cons, List.drop_zero]
  have float : floatLength (sign ++ 0x30 :: x :: digits) = 0 := by
    simp only [floatLength, signLength_append signs first, List.drop_left,
      zero, behind]
    split
    · rfl
    · rename_i point _
      cases point
      exact absurd rfl markFails.2
    · rfl
  have int : intLength (sign ++ 0x30 :: x :: digits) =
      (sign ++ 0x30 :: x :: digits).length := by
    simp only [intLength, signLength_append signs first, List.drop_left,
      hexLength_cons_cons, spanLength_of_all hexadecimal]
    simp [mark, nonempty]
    omega
  have skips : ∀ kind ∈ beforeNumbers ++ [.float],
      kind.length (sign ++ 0x30 :: x :: digits) = 0 := by
    intro kind member
    rcases List.mem_append.mp member with earlier | last
    · exact skips_of_signed signs first (by simp) kind earlier
    · rw [List.mem_singleton.mp last]
      exact float
  exact firstKind?_of_before rfl skips int
    (List.length_pos_iff.mpr (by simp))

end Numbers

end WindowMachine.Source
