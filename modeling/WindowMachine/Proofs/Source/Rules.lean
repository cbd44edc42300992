import WindowMachine.Proofs.Source.Scanning
import WindowMachine.Proofs.Text.Regex

/-!
# The rules of tokens

Which token a text starts with is a matter of ten regular expressions, which
are tried in order, leftmost first each.  The lengths of tokens are computed
without a search.  For every rule its first match is just the token of that
length: a repetition never has to give back what it took, but for a word that
goes on behind the digits of a register, and there no match is left.  So the
first kind that fits is that of the first rule that matches, and the token is
what this rule matches.
-/

namespace WindowMachine.Source

open Text (CharSet Regex Cursor)

/-! ## Rules -/

/-- A regular expression and the kind of the tokens that it matches. -/
structure Rule where
  kind : Kind
  regex : Regex
  deriving DecidableEq, Repr

namespace Rule

def digits : CharSet := .among [('0', '9')]

def hexDigits : CharSet := .among [('0', '9'), ('a', 'f'), ('A', 'F')]

def letters : CharSet := .among [('A', 'Z'), ('a', 'z')]

/-- What a name may start with. -/
def nameStarts : CharSet := .among [('A', 'Z'), ('a', 'z'), ('_', '_')]

/-- What a name may go on with. -/
def nameChars : CharSet :=
  .among [('A', 'Z'), ('a', 'z'), ('0', '9'), ('_', '_'), ('.', '.')]

def signs : CharSet := .oneOf ['-', '+']

/-- The pattern `[-+]?`. -/
def sign : Regex := .optional (.one signs)

/-- The pattern `;[^\n]*`. -/
def comment : Rule :=
  ⟨.comment, .seq (.one (.oneOf [';'])) (.star (.except '\n'))⟩

/-- The pattern `[ \t\r]+`. -/
def blank : Rule := ⟨.blank, .many (.oneOf [' ', '\t', '\r'])⟩

/-- The pattern `\n`. -/
def eol : Rule := ⟨.eol, .one (.oneOf ['\n'])⟩

/-- The pattern `[A-Za-z_][A-Za-z0-9_.]*:`. -/
def label : Rule :=
  ⟨.label, .seq (.one nameStarts)
    (.seq (.star nameChars) (.one (.oneOf [':'])))⟩

/-- The pattern `\.[A-Za-z]+`. -/
def directive : Rule :=
  ⟨.directive, .seq (.one (.oneOf ['.'])) (.many letters)⟩

/-- The pattern `[rR][0-9]+\b`. -/
def register : Rule :=
  ⟨.register, .seq (.one (.oneOf ['r', 'R'])) (.seq (.many digits) .edge)⟩

/-- The pattern `[eE][-+]?[0-9]+`. -/
def exponent : Regex :=
  .seq (.one (.oneOf ['e', 'E'])) (.seq sign (.many digits))

/-- The pattern `\.[0-9]+([eE][-+]?[0-9]+)?`. -/
def fraction : Regex :=
  .seq (.one (.oneOf ['.'])) (.seq (.many digits) (.optional exponent))

/-- The pattern `[-+]?[0-9]+\.[0-9]+([eE][-+]?[0-9]+)?`. -/
def float : Rule := ⟨.float, .seq sign (.seq (.many digits) fraction)⟩

/-- The pattern `0[xX][0-9a-fA-F]+`. -/
def hex : Regex :=
  .seq (.one (.oneOf ['0']))
    (.seq (.one (.oneOf ['x', 'X'])) (.many hexDigits))

/-- The pattern `[-+]?(0[xX][0-9a-fA-F]+|[0-9]+)`. -/
def int : Rule := ⟨.int, .seq sign (.either hex (.many digits))⟩

/-- The pattern `[A-Za-z_][A-Za-z0-9_.]*`. -/
def name : Rule := ⟨.name, .seq (.one nameStarts) (.star nameChars)⟩

/-- The pattern `,`. -/
def comma : Rule := ⟨.comma, .one (.oneOf [','])⟩

end Rule

/-- The rules in the order in which they are tried. -/
def rules : List Rule :=
  [.comment, .blank, .eol, .label, .directive, .register, .float, .int, .name,
    .comma]

/-- What the first of the rules that match at the front of a text makes of
it. -/
def FirstMatch (text : List UInt8) (x : Lexeme) : Prop :=
  ∃ earlier rule later, rules = earlier ++ rule :: later ∧
    (∀ other ∈ earlier, other.regex.front? text = none) ∧
      rule.kind = x.kind ∧ rule.regex.front? text = some x.bytes

/-! ## Sets as tests of bytes -/

section Sets

variable {ranges : List (Char × Char)} {test : UInt8 → Bool} {b : UInt8}

theorem hasByte_eq (same : ∀ b : UInt8, (∃ range ∈ ranges,
      range.1.toNat ≤ b.toNat ∧ b.toNat ≤ range.2.toNat) ↔ test b = true) :
    (CharSet.among ranges).hasByte = test := by
  funext b
  rw [Bool.eq_iff_iff, CharSet.hasByte_among, same]

theorem hasByte_digits : Rule.digits.hasByte = isDigit := by
  apply hasByte_eq
  simp [isDigit, UInt8.le_iff_toNat_le]

theorem hasByte_hexDigits : Rule.hexDigits.hasByte = isHexDigit := by
  apply hasByte_eq
  simp [isHexDigit, isDigit, UInt8.le_iff_toNat_le]
  omega

theorem hasByte_letters : Rule.letters.hasByte = isLetter := by
  apply hasByte_eq
  simp [isLetter, UInt8.le_iff_toNat_le]

theorem hasByte_nameStarts : Rule.nameStarts.hasByte = isNameStart := by
  apply hasByte_eq
  simp [isNameStart, isLetter, UInt8.le_iff_toNat_le, ← UInt8.toNat_inj]
  omega

theorem hasByte_word : CharSet.word.hasByte = isWordByte := by
  apply hasByte_eq
  simp [isWordByte, isLetter, isDigit, UInt8.le_iff_toNat_le,
    ← UInt8.toNat_inj]
  omega

theorem hasByte_nameChars : Rule.nameChars.hasByte = isNameByte := by
  apply hasByte_eq
  simp [isNameByte, isWordByte, isLetter, isDigit, UInt8.le_iff_toNat_le,
    ← UInt8.toNat_inj]
  omega

/-- A set of one character as a test. -/
theorem hasByte_char {c : Char} (number : b.toNat = c.toNat) :
    (CharSet.oneOf [c]).hasByte = (· == b) := by
  apply hasByte_eq
  intro x
  simp [← UInt8.toNat_inj, number]
  omega

/-- A set of two characters as a test of the second and the first. -/
theorem hasByte_pair {c d : Char} {a : UInt8} (first : b.toNat = c.toNat)
    (second : a.toNat = d.toNat) :
    (CharSet.oneOf [c, d]).hasByte = fun x => x == a || x == b := by
  apply hasByte_eq
  intro x
  simp [← UInt8.toNat_inj, first, second]
  omega

theorem hasByte_signs :
    Rule.signs.hasByte = fun b => b == 0x2B || b == 0x2D :=
  hasByte_pair rfl rfl

theorem hasByte_blanks :
    (CharSet.oneOf [' ', '\t', '\r']).hasByte = isBlank := by
  apply hasByte_eq
  intro b
  simp [isBlank, ← UInt8.toNat_inj]
  omega

theorem isDigit_of_sign (sign : Rule.signs.hasByte b = true) :
    isDigit b = false := by
  simp only [hasByte_signs, Bool.or_eq_true, beq_iff_eq] at sign
  rcases sign with rfl | rfl
  · rfl
  · rfl

theorem isNameByte_of_isNameStart (starts : isNameStart b = true) :
    isNameByte b = true := by
  simp only [isNameStart, Bool.or_eq_true] at starts
  rcases starts with letter | underscore
  · simp [isNameByte, isWordByte, letter]
  · simp [isNameByte, isWordByte, underscore]

theorem isWordByte_of_isDigit (digit : isDigit b = true) :
    isWordByte b = true := by
  simp [isWordByte, digit]

end Sets

/-! ## First matches of bytes -/

/-- Whether the first match of an expression, if there is one, is as long as a
function says, which is zero if there is none. -/
def Finds (e : Regex) (length : List UInt8 → Nat) : Prop :=
  ∀ p : Cursor UInt8, (e.ways CharSet.hasByte p).head? =
    if length p.behind = 0 then none else some (p.moved (length p.behind))

section Finds

variable {set : CharSet} {test : UInt8 → Bool} {e : Regex}
  {length whole : List UInt8 → Nat}

theorem Finds.ways_eq_nil (finds : Finds e length) {p : Cursor UInt8}
    (none : length p.behind = 0) : e.ways CharSet.hasByte p = [] := by
  have head := finds p
  rw [if_pos none] at head
  exact List.head?_eq_none_iff.mp head

theorem span_eq (same : set.hasByte = test) (p : Cursor UInt8) :
    p.span set.hasByte = spanLength test p.behind := by
  rw [same]
  rfl

theorem finds_many (same : set.hasByte = test) :
    Finds (.many set) (spanLength test) := by
  subst same
  exact Regex.head?_ways_many

theorem finds_one (same : set.hasByte = test) (nil : whole [] = 0)
    (cons : ∀ b rest, whole (b :: rest) = if test b then 1 else 0) :
    Finds (.one set) whole := by
  rintro ⟨before, behind⟩
  cases behind with
  | nil =>
      simp [nil]
  | cons b rest =>
      subst same
      cases passes : set.hasByte b with
      | false =>
          simp [cons, passes]
      | true =>
          simp [cons, passes]

theorem finds_one_seq (same : set.hasByte = test) (finds : Finds e length)
    (nil : whole [] = 0)
    (cons : ∀ b rest, whole (b :: rest) =
      if test b ∧ length rest ≠ 0 then length rest + 1 else 0) :
    Finds (.seq (.one set) e) whole := by
  rintro ⟨before, behind⟩
  cases behind with
  | nil =>
      simp [nil]
  | cons b rest =>
      have head := finds ⟨b :: before, rest⟩
      subst same
      cases passes : set.hasByte b with
      | false =>
          simp [cons, passes]
      | true =>
          simp only [Regex.ways_seq, Regex.ways_one_cons, passes, if_true,
            List.flatMap_cons, List.flatMap_nil, List.append_nil, head, cons]
          by_cases none : length rest = 0
          · simp [none]
          · simp [none]

/-- A repetition and what follows it, which cannot start inside. -/
theorem finds_many_seq (same : set.hasByte = test)
    (stops : Regex.Stops CharSet.hasByte e set) (finds : Finds e length)
    (split : ∀ bytes, whole bytes =
      if spanLength test bytes = 0 ∨
          length (bytes.drop (spanLength test bytes)) = 0
      then 0
      else spanLength test bytes +
        length (bytes.drop (spanLength test bytes))) :
    Finds (.seq (.many set) e) whole := by
  intro p
  rw [Regex.ways_many_seq stops, span_eq same, split]
  by_cases none : spanLength test p.behind = 0
  · simp [none]
  · rw [if_neg none, finds, Cursor.behind_moved, Cursor.moved_moved]
    by_cases nothing :
        length (p.behind.drop (spanLength test p.behind)) = 0
    · simp [nothing]
    · simp [none, nothing]

/-- A repetition and what may follow it. -/
theorem finds_many_optional (same : set.hasByte = test)
    (finds : Finds e length)
    (split : ∀ bytes, whole bytes =
      if spanLength test bytes = 0 then 0
      else spanLength test bytes +
        length (bytes.drop (spanLength test bytes))) :
    Finds (.seq (.many set) (.optional e)) whole := by
  intro p
  have matched (q : Cursor UInt8) : ∃ r,
      (e.optional.ways CharSet.hasByte q).head? = some r :=
    ⟨_, Regex.head?_ways_optional q⟩
  rw [Regex.head?_ways_seq matched, Regex.head?_ways_many, span_eq same,
    split]
  by_cases none : spanLength test p.behind = 0
  · simp [none]
  · simp only [none, if_false, Option.bind_some, Regex.head?_ways_optional,
      finds _, Cursor.behind_moved]
    by_cases nothing :
        length (p.behind.drop (spanLength test p.behind)) = 0
    · simp [none, nothing]
    · simp [none, nothing, Cursor.moved_moved]

theorem finds_either {other : Regex} {otherLength : List UInt8 → Nat}
    (finds : Finds e length) (others : Finds other otherLength)
    (split : ∀ bytes, whole bytes =
      if length bytes = 0 then otherLength bytes else length bytes) :
    Finds (.either e other) whole := by
  intro p
  change (e.ways _ p ++ other.ways _ p).head? = _
  rw [List.head?_append, finds, others, split]
  by_cases none : length p.behind = 0
  · simp [none]
  · simp [none]

theorem signLength_eq (bytes : List UInt8) :
    signLength bytes =
      if bytes.head?.any Rule.signs.hasByte then 1 else 0 := by
  cases bytes with
  | nil =>
      rfl
  | cons b rest =>
      simp [signLength_cons, hasByte_signs]

/-- An optional sign in front of what cannot start with one. -/
theorem finds_sign_seq (finds : Finds e length)
    (refuses : ∀ b rest, Rule.signs.hasByte b = true →
      length (b :: rest) = 0)
    (split : ∀ bytes, whole bytes =
      if length (bytes.drop (signLength bytes)) = 0 then 0
      else signLength bytes + length (bytes.drop (signLength bytes))) :
    Finds (.seq Rule.sign e) whole := by
  intro p
  have none (before : List UInt8) (b : UInt8) (rest : List UInt8)
      (sign : Rule.signs.hasByte b = true) :
      e.ways CharSet.hasByte ⟨before, b :: rest⟩ = [] :=
    finds.ways_eq_nil (refuses b rest sign)
  rw [Rule.sign, Regex.ways_optional_one_seq none, ← signLength_eq, finds,
    split, Cursor.behind_moved, Cursor.moved_moved]
  by_cases nothing : length (p.behind.drop (signLength p.behind)) = 0
  · simp [nothing]
  · simp [nothing]

end Finds

/-! ## Marks and names -/

section Names

variable {e : Regex}

theorem finds_eol : Finds Rule.eol.regex Kind.eol.length := by
  refine finds_one (hasByte_char (b := 0x0A) rfl) rfl ?_
  intro b rest
  by_cases newline : b = 0x0A
  · simp [Kind.length, newline]
  · simp [Kind.length, newline]

theorem finds_comma : Finds Rule.comma.regex Kind.comma.length := by
  refine finds_one (hasByte_char (b := 0x2C) rfl) rfl ?_
  intro b rest
  by_cases comma : b = 0x2C
  · simp [Kind.length, comma]
  · simp [Kind.length, comma]

theorem finds_blank : Finds Rule.blank.regex Kind.blank.length :=
  finds_many hasByte_blanks

theorem finds_directive :
    Finds Rule.directive.regex Kind.directive.length := by
  refine finds_one_seq (hasByte_char (b := 0x2E) rfl)
    (finds_many hasByte_letters) rfl ?_
  intro b rest
  by_cases dot : b = 0x2E
  · subst dot
    by_cases none : spanLength isLetter rest = 0
    · simp [Kind.length, none]
    · simp [Kind.length, none, Nat.add_comm 1]
  · simp [Kind.length, dot]

/-- A name and what follows it, which cannot start inside. -/
theorem ways_name_seq (stops : Regex.Stops CharSet.hasByte e Rule.nameChars)
    (p : Cursor UInt8) :
    (Regex.seq (.one Rule.nameStarts) (.seq (.star Rule.nameChars) e)).ways
        CharSet.hasByte p =
      if nameLength p.behind = 0 then []
      else e.ways CharSet.hasByte (p.moved (nameLength p.behind)) := by
  obtain ⟨before, behind⟩ := p
  cases behind with
  | nil =>
      rfl
  | cons b rest =>
      have same := congrFun hasByte_nameStarts b
      rw [Regex.ways_seq, Regex.ways_one_cons, same, nameLength]
      cases starts : isNameStart b with
      | false =>
          simp
      | true =>
          have inside : Rule.nameChars.hasByte b = true := by
            rw [hasByte_nameChars]
            exact isNameByte_of_isNameStart starts
          have matched : (Regex.seq (.star Rule.nameChars) e).ways
              CharSet.hasByte ⟨b :: before, rest⟩ = _ :=
            Regex.ways_star_seq stops inside
          rw [span_eq hasByte_nameChars] at matched
          simp [matched, Nat.add_comm 1]

theorem labelLength_eq (bytes : List UInt8) :
    Kind.label.length bytes =
      if nameLength bytes ≠ 0 ∧
        bytes[nameLength bytes]?.any (· == 0x3A) = true
      then nameLength bytes + 1 else 0 := by
  by_cases none : nameLength bytes = 0
  · simp [Kind.length, none]
  · rw [← List.head?_drop]
    cases behind : bytes.drop (nameLength bytes) with
    | nil =>
        simp [Kind.length, behind]
    | cons b rest =>
        by_cases colon : b = 0x3A
        · simp [Kind.length, behind, colon, none]
        · simp [Kind.length, behind, colon]

theorem finds_label : Finds Rule.label.regex Kind.label.length := by
  intro p
  have colon : (CharSet.oneOf [':']).hasByte = (· == 0x3A) :=
    hasByte_char rfl
  -- A name does not end before a colon inside it, as it has none.
  have stops : Regex.Stops CharSet.hasByte (.one (.oneOf [':']))
      Rule.nameChars := by
    intro before last b behind _ passes
    have other : b ≠ 0x3A := by
      rintro rfl
      rw [hasByte_nameChars] at passes
      cases passes
    simp [colon, other]
  rw [Rule.label, ways_name_seq stops, Regex.ways_one, colon, labelLength_eq,
    Cursor.behind_moved, List.head?_drop]
  by_cases none : nameLength p.behind = 0
  · simp [none]
  · cases follows : p.behind[nameLength p.behind]?.any (· == 0x3A) with
    | false =>
        simp [none]
    | true =>
        simp [none, Cursor.moved_moved]

theorem finds_name : Finds Rule.name.regex Kind.name.length := by
  rintro ⟨before, behind⟩
  cases behind with
  | nil =>
      rfl
  | cons b rest =>
      have same := congrFun hasByte_nameStarts b
      cases starts : isNameStart b with
      | false =>
          simp [Rule.name, Kind.length, nameLength, same, starts]
      | true =>
          have head : ((Regex.star Rule.nameChars).ways CharSet.hasByte
              ⟨b :: before, rest⟩).head? = _ := Regex.head?_ways_star _
          rw [span_eq hasByte_nameChars] at head
          simp [Rule.name, Kind.length, nameLength, same, starts, head,
            Nat.add_comm 1]

end Names

/-! ## Registers -/

theorem isEdge_of_inside {last : UInt8} (before behind : List UInt8)
    (inside : isWordByte last = true) :
    (⟨last :: before, behind⟩ : Cursor UInt8).isEdge CharSet.hasByte =
      !behind.head?.any isWordByte := by
  simp [Cursor.isEdge, hasByte_word, inside]

/-- The length of digits behind which a word ends. -/
def boundedLength (bytes : List UInt8) : Nat :=
  if (bytes.drop (spanLength isDigit bytes)).head?.any isWordByte then 0
  else spanLength isDigit bytes

/-- No digits are given back for the end of a word: there is none between
digits. -/
theorem stops_edge : Regex.Stops CharSet.hasByte .edge Rule.digits := by
  intro before last b behind lastDigit digit
  rw [hasByte_digits] at lastDigit digit
  rw [Regex.ways_edge,
    isEdge_of_inside before (b :: behind) (isWordByte_of_isDigit lastDigit)]
  simp [isWordByte_of_isDigit digit]

theorem finds_bounded :
    Finds (.seq (.many Rule.digits) .edge) boundedLength := by
  intro p
  rw [Regex.ways_many_seq stops_edge, span_eq hasByte_digits, boundedLength]
  by_cases none : spanLength isDigit p.behind = 0
  · simp [none]
  · obtain ⟨last, before, split, digit⟩ :
        ∃ last before, (p.moved (spanLength isDigit p.behind)).before =
          last :: before ∧ isDigit last = true :=
      Cursor.before_moved_span none
    have ends : (p.moved (spanLength isDigit p.behind)).isEdge
        CharSet.hasByte =
          !(p.behind.drop (spanLength isDigit p.behind)).head?.any
            isWordByte := by
      rw [← isEdge_of_inside before _ (isWordByte_of_isDigit digit), ← split]
      rfl
    rw [Regex.ways_edge, ends]
    cases (p.behind.drop (spanLength isDigit p.behind)).head?.any
        isWordByte with
    | false =>
        simp [none]
    | true =>
        simp [none]

theorem finds_register : Finds Rule.register.regex Kind.register.length := by
  have letter : (CharSet.oneOf ['r', 'R']).hasByte =
      fun b => b == 0x52 || b == 0x72 := hasByte_pair rfl rfl
  refine finds_one_seq letter finds_bounded rfl ?_
  intro b rest
  by_cases none : spanLength isDigit rest = 0
  · simp [Kind.length, registerLength, boundedLength, none]
  · cases behind : rest.drop (spanLength isDigit rest) with
    | nil =>
        have bounded : boundedLength rest = spanLength isDigit rest := by
          simp [boundedLength, behind]
        simp [Kind.length, registerLength, bounded, behind, none,
          Nat.add_comm 1]
    | cons x more =>
        cases goesOn : isWordByte x with
        | false =>
            have bounded : boundedLength rest = spanLength isDigit rest := by
              rw [boundedLength, behind]
              simp [goesOn]
            simp [Kind.length, registerLength, bounded, behind, none, goesOn,
              Nat.add_comm 1]
        | true =>
            have bounded : boundedLength rest = 0 := by
              rw [boundedLength, behind]
              simp [goesOn]
            simp [Kind.length, registerLength, bounded, behind, goesOn]

/-! ## Numbers -/

theorem finds_digits : Finds (.many Rule.digits) (spanLength isDigit) :=
  finds_many hasByte_digits

theorem finds_sign_digits :
    Finds (.seq Rule.sign (.many Rule.digits)) fun bytes =>
      if spanLength isDigit (bytes.drop (signLength bytes)) = 0 then 0
      else signLength bytes +
        spanLength isDigit (bytes.drop (signLength bytes)) := by
  refine finds_sign_seq finds_digits ?_ fun _ => rfl
  intro b rest sign
  simp [spanLength, isDigit_of_sign sign]

theorem finds_exponent : Finds Rule.exponent exponentLength := by
  have letter : (CharSet.oneOf ['e', 'E']).hasByte =
      fun b => b == 0x45 || b == 0x65 := hasByte_pair rfl rfl
  refine finds_one_seq letter finds_sign_digits rfl ?_
  intro b rest
  simp only [exponentLength]
  by_cases none : spanLength isDigit (rest.drop (signLength rest)) = 0
  · simp [none]
  · simp [none, Nat.add_assoc, Nat.add_comm 1]

/-- The length of digits and perhaps an exponent. -/
def scaledLength (bytes : List UInt8) : Nat :=
  if spanLength isDigit bytes = 0 then 0
  else spanLength isDigit bytes +
    exponentLength (bytes.drop (spanLength isDigit bytes))

/-- The length of a point and the digits behind it, perhaps with an
exponent. -/
def fractionLength : List UInt8 → Nat
  | [] => 0
  | b :: rest =>
    if (b == 0x2E) = true ∧ scaledLength rest ≠ 0 then scaledLength rest + 1
    else 0

/-- The length of a number with a point and without a sign. -/
def unsignedLength (bytes : List UInt8) : Nat :=
  if spanLength isDigit bytes = 0 ∨
      fractionLength (bytes.drop (spanLength isDigit bytes)) = 0
  then 0
  else spanLength isDigit bytes +
    fractionLength (bytes.drop (spanLength isDigit bytes))

theorem floatLength_eq (bytes : List UInt8) :
    floatLength bytes =
      if unsignedLength (bytes.drop (signLength bytes)) = 0 then 0
      else signLength bytes +
        unsignedLength (bytes.drop (signLength bytes)) := by
  simp only [floatLength, unsignedLength, List.drop_drop]
  cases whole : spanLength isDigit (bytes.drop (signLength bytes)) with
  | zero =>
      simp
  | succ n =>
      cases behind : bytes.drop (signLength bytes + (n + 1)) with
      | nil =>
          simp [fractionLength]
      | cons b rest =>
          by_cases point : b = 0x2E
          · subst point
            by_cases none : spanLength isDigit rest = 0
            · simp [fractionLength, scaledLength, none]
            · simp [fractionLength, scaledLength, none]
              omega
          · simp [fractionLength, point]

theorem finds_float : Finds Rule.float.regex Kind.float.length := by
  have scaled : Finds (.seq (.many Rule.digits) (.optional Rule.exponent))
      scaledLength :=
    finds_many_optional hasByte_digits finds_exponent fun _ => rfl
  have fraction : Finds Rule.fraction fractionLength :=
    finds_one_seq (hasByte_char rfl) scaled rfl fun _ _ => rfl
  -- No digit is given back for the fraction, which starts with a point.
  have stops : Regex.Stops CharSet.hasByte Rule.fraction Rule.digits := by
    intro before last b behind _ passes
    apply fraction.ways_eq_nil
    have other : b ≠ 0x2E := by
      rintro rfl
      rw [hasByte_digits] at passes
      cases passes
    simp [fractionLength, other]
  have unsigned : Finds (.seq (.many Rule.digits) Rule.fraction)
      unsignedLength :=
    finds_many_seq hasByte_digits stops fraction fun _ => rfl
  refine finds_sign_seq unsigned ?_ floatLength_eq
  intro b rest sign
  simp [unsignedLength, spanLength, isDigit_of_sign sign]

theorem finds_hex : Finds Rule.hex hexLength := by
  have mark : (CharSet.oneOf ['x', 'X']).hasByte =
      fun b => b == 0x58 || b == 0x78 := hasByte_pair rfl rfl
  have zero : (CharSet.oneOf ['0']).hasByte = (· == 0x30) :=
    hasByte_char rfl
  have marked : Finds
      (.seq (.one (.oneOf ['x', 'X'])) (.many Rule.hexDigits))
      fun bytes =>
        match bytes with
        | [] => 0
        | x :: rest =>
          if (x == 0x58 || x == 0x78) = true ∧ spanLength isHexDigit rest ≠ 0
          then spanLength isHexDigit rest + 1 else 0 :=
    finds_one_seq mark (finds_many hasByte_hexDigits) rfl fun _ _ => rfl
  refine finds_one_seq zero marked rfl ?_
  intro b rest
  cases rest with
  | nil =>
      simp [hexLength]
  | cons x rest =>
      rw [hexLength_cons_cons]
      by_cases zero : b = 0x30
      · by_cases mark : x = 0x58 ∨ x = 0x78
        · by_cases none : spanLength isHexDigit rest = 0
          · simp [none]
          · simp [zero, mark, none]
            omega
        · simp [mark]
      · simp [zero]

theorem finds_int : Finds Rule.int.regex Kind.int.length := by
  have either := finds_either finds_hex finds_digits fun _ => rfl
  refine finds_sign_seq either ?_ fun _ => rfl
  intro b rest sign
  have other := isDigit_of_sign sign
  have noZero : b ≠ 0x30 := by
    rintro rfl
    cases other
  simp [spanLength, hexLength, other, noZero]

/-! ## Comments -/

section Comments

open Utf8 (Piece)

theorem encodeChar_free {c : Char} (other : c ≠ '\n') :
    ∀ b ∈ String.utf8EncodeChar c, (b != 0x0A) = true := by
  intro b member
  rw [bne_iff_ne]
  rintro rfl
  have small : c.toNat < 0x80 := (Utf8.mem_encodeChar member).mp (by decide)
  rw [Utf8.encodeChar_of_small small, List.mem_singleton] at member
  have number := congrArg UInt8.toNat member
  rw [UInt8.toNat_ofNat', Nat.mod_eq_of_lt (by omega)] at number
  apply other
  rw [← Char.ofNat_toNat c, ← number]
  rfl

/-- The characters before the end of a line are the bytes before it. -/
theorem flatMap_takeWhile_read (bytes : List UInt8) :
    ((Utf8.read bytes).toList.takeWhile
      (CharSet.except '\n').hasPiece).flatMap Piece.bytes =
        bytes.takeWhile (· != 0x0A) := by
  induction bytes using Utf8.read_induction with
  | nil =>
      simp
  | char c rest inductionHypothesis =>
      rw [Utf8.read_encodeChar]
      by_cases newline : c = '\n'
      · subst newline
        rfl
      · have passes : (CharSet.except '\n').hasPiece
            ⟨some c, String.utf8EncodeChar c⟩ = true := by
          rw [CharSet.hasPiece, CharSet.has_except]
          exact bne_iff_ne.mpr newline
        rw [List.takeWhile_cons_of_pos passes, List.flatMap_cons,
          inductionHypothesis,
          List.takeWhile_append_of_pos (encodeChar_free newline)]
  | stray a rest stray inductionHypothesis =>
      have other : a ≠ 0x0A := by
        rintro rfl
        exact absurd stray.beyond (by decide)
      rw [Utf8.read_stray stray, List.takeWhile_cons_of_pos (by rfl),
        List.flatMap_cons, inductionHypothesis]
      simp [other]

theorem front?_comment (text : List UInt8) :
    Rule.comment.regex.front? text =
      if Kind.comment.length text = 0 then none
      else some (text.take (Kind.comment.length text)) := by
  have semicolon : (CharSet.oneOf [';']).hasByte = (· == 0x3B) :=
    hasByte_char rfl
  cases text with
  | nil =>
      simp [Rule.comment, Regex.front?, Kind.length]
  | cons b rest =>
      by_cases same : b = 0x3B
      · subst same
        have first := Text.read_of_ascii (b := 0x3B) (by decide) rest
        have matched : (CharSet.oneOf [';']).hasPiece (Text.asciiPiece 0x3B) =
            true := rfl
        have front : rest.takeWhile (· != 0x0A) <+: rest :=
          List.takeWhile_prefix _
        have taken := List.prefix_iff_eq_take.mp front
        have length : Kind.comment.length (0x3B :: rest) =
            (rest.takeWhile (· != 0x0A)).length + 1 := Nat.add_comm _ _
        simp only [Rule.comment, Regex.front?, first, Regex.ways_seq,
          Regex.ways_one_cons, matched, if_true, List.flatMap_cons,
          List.flatMap_nil, List.append_nil, Regex.head?_ways_star,
          Option.map_some, Cursor.before_moved_span_eq, length]
        simp [flatMap_takeWhile_read, ← taken, Text.asciiPiece]
      · have none : (Utf8.read (b :: rest)).toList.head?.any
            (CharSet.oneOf [';']).hasPiece = false := by
          rw [Text.any_head?_read rfl, List.head?_cons, Option.any_some,
            semicolon]
          simp [same]
        rw [Rule.comment, Regex.front?, Regex.ways_seq,
          Regex.ways_one, none]
        simp [Kind.length, same]

end Comments

/-! ## The first rule that matches -/

theorem front?_of_mem {rule : Rule} (member : rule ∈ rules)
    (text : List UInt8) :
    rule.regex.front? text =
      if rule.kind.length text = 0 then none
      else some (text.take (rule.kind.length text)) := by
  simp only [rules, List.mem_cons, List.not_mem_nil, or_false] at member
  rcases member with
    rfl | rfl | rfl | rfl | rfl | rfl | rfl | rfl | rfl | rfl
  · exact front?_comment text
  · exact Text.front?_eq rfl (finds_blank ⟨[], text⟩)
  · exact Text.front?_eq rfl (finds_eol ⟨[], text⟩)
  · exact Text.front?_eq rfl (finds_label ⟨[], text⟩)
  · exact Text.front?_eq rfl (finds_directive ⟨[], text⟩)
  · exact Text.front?_eq rfl (finds_register ⟨[], text⟩)
  · exact Text.front?_eq rfl (finds_float ⟨[], text⟩)
  · exact Text.front?_eq rfl (finds_int ⟨[], text⟩)
  · exact Text.front?_eq rfl (finds_name ⟨[], text⟩)
  · exact Text.front?_eq rfl (finds_comma ⟨[], text⟩)

/-- A word that goes on behind digits leaves no match in front of it, as the
digits that are given back are followed by digits. -/
example : Rule.register.regex.front? "r12a".toUTF8.data.toList = none := by
  decide

/-- An exponent without digits is given back. -/
example : Rule.float.regex.front? "-1.5e+".toUTF8.data.toList =
    some "-1.5".toUTF8.data.toList := by
  decide

theorem prefix_of_front? {rule : Rule} (member : rule ∈ rules)
    {text bytes : List UInt8} (found : rule.regex.front? text = some bytes) :
    bytes <+: text := by
  rw [front?_of_mem member] at found
  split at found
  · cases found
  · cases found
    exact List.take_prefix _ text

theorem map_kind_rules : rules.map Rule.kind = Kind.all := rfl

theorem findSome?_congr {α β : Type} {f g : α → Option β} {items : List α}
    (same : ∀ x ∈ items, f x = g x) :
    items.findSome? f = items.findSome? g := by
  have searched := congrArg (List.findSome? id) (List.map_congr_left same)
  rwa [List.findSome?_map, List.findSome?_map] at searched

/-- The first kind that fits is that of the first rule that matches, and its
length that of the match. -/
theorem firstKind?_eq (text : List UInt8) :
    firstKind? text = rules.findSome? fun rule =>
      (rule.regex.front? text).map fun bytes => (rule.kind, bytes.length) := by
  rw [firstKind?, ← map_kind_rules, List.findSome?_map]
  apply findSome?_congr
  intro rule member
  have bound := rule.kind.length_le text
  rw [Function.comp, front?_of_mem member]
  cases measured : rule.kind.length text with
  | zero =>
      rfl
  | succ n =>
      rw [measured] at bound
      simp [Nat.min_eq_left bound]

theorem firstKind?_eq_none_iff {text : List UInt8} :
    firstKind? text = none ↔
      ∀ rule ∈ rules, rule.regex.front? text = none := by
  simp only [firstKind?_eq, List.findSome?_eq_none_iff,
    Option.map_eq_none_iff]

theorem firstMatch_iff {text : List UInt8} {x : Lexeme} :
    FirstMatch text x ↔
      firstKind? text = some (x.kind, x.bytes.length) ∧ x.bytes <+: text := by
  rw [firstKind?_eq, List.findSome?_eq_some_iff]
  constructor
  · rintro ⟨earlier, rule, later, order, skips, same, found⟩
    have member : rule ∈ rules := by
      rw [order]
      simp
    refine ⟨⟨earlier, rule, later, order, ?_, ?_⟩,
      prefix_of_front? member found⟩
    · simp [found, same]
    · intro other inside
      rw [skips other inside, Option.map_none]
  · rintro ⟨⟨earlier, rule, later, order, matched, skips⟩, front⟩
    have member : rule ∈ rules := by
      rw [order]
      simp
    obtain ⟨bytes, found, same⟩ := Option.map_eq_some_iff.mp matched
    obtain ⟨kind, length⟩ := Prod.mk.inj same
    -- Two pieces of one length at the front of a text are the same.
    have whole : bytes = x.bytes :=
      (List.prefix_of_prefix_length_le (prefix_of_front? member found) front
        (Nat.le_of_eq length)).eq_of_length length
    refine ⟨earlier, rule, later, order, ?_, kind, whole ▸ found⟩
    exact fun other inside => Option.map_eq_none_iff.mp (skips other inside)

end WindowMachine.Source
