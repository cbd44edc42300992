import Mathlib.Computability.Language
import WindowMachine.Proofs.Instruction.Phrases
import WindowMachine.Proofs.Source.Words

/-!
# Patterns of tokens

The tokens of assembly text are known by their patterns: which texts are a
label, a directive, a register, a number or a name.  Here these are languages
over characters, in which each factor is a range of characters, once or
repeated.  A text that matches the pattern of its kind is spelled as that kind.
A name can fail to be, for a part of it may be taken for a register, and so
the pattern of words leaves those names out.
-/

namespace WindowMachine.Source

open Computability

/-! ## Languages -/

/-- The texts of one character that passes a test. -/
def one (test : Char → Bool) : Language Char :=
  {text | ∃ c, test c = true ∧ text = [c]}

/-- The texts of one or more characters that pass a test. -/
def many (test : Char → Bool) : Language Char := one test * (one test)∗

/-- The texts of a language and the empty text. -/
def optional (l : Language Char) : Language Char := 1 + l

section Languages

variable {test : Char → Bool} {text : List Char} {l m : Language Char}

theorem mem_one_iff :
    text ∈ one test ↔ ∃ c, test c = true ∧ text = [c] :=
  Iff.rfl

theorem mem_star_one_iff :
    text ∈ (one test)∗ ↔ ∀ c ∈ text, test c = true := by
  rw [Language.mem_kstar]
  constructor
  · rintro ⟨pieces, rfl, each⟩ c member
    obtain ⟨piece, inside, inPiece⟩ := List.mem_flatten.mp member
    obtain ⟨d, passes, rfl⟩ := each piece inside
    rw [List.mem_singleton.mp inPiece]
    exact passes
  · intro passes
    refine ⟨text.map fun c => [c], by simp [← List.flatMap_def], ?_⟩
    intro piece member
    obtain ⟨c, inside, rfl⟩ := List.mem_map.mp member
    exact ⟨c, passes c inside, rfl⟩

theorem mem_many_iff :
    text ∈ many test ↔ text ≠ [] ∧ ∀ c ∈ text, test c = true := by
  simp only [many, Language.mem_mul, mem_one_iff, mem_star_one_iff]
  constructor
  · rintro ⟨_, ⟨c, passes, rfl⟩, rest, others, rfl⟩
    simpa [passes] using others
  · rintro ⟨nonempty, passes⟩
    obtain ⟨c, rest, rfl⟩ := List.exists_cons_of_ne_nil nonempty
    exact ⟨[c], ⟨c, passes c List.mem_cons_self, rfl⟩, rest,
      fun d member => passes d (List.mem_cons_of_mem c member), rfl⟩

theorem mem_many_of_all (nonempty : text ≠ []) (passes : text.all test = true) :
    text ∈ many test :=
  mem_many_iff.mpr ⟨nonempty, List.all_eq_true.mp passes⟩

theorem mem_optional_iff : text ∈ optional l ↔ text = [] ∨ text ∈ l := by
  rw [optional, Language.mem_add, Language.mem_one]

end Languages

/-! ## Patterns -/

def isHexChar (c : Char) : Bool :=
  c.isDigit || ('a' ≤ c && c ≤ 'f') || ('A' ≤ c && c ≤ 'F')

/-- A letter, a digit or an underscore. -/
def isWordChar (c : Char) : Bool := c.isAlphanum || c == '_'

/-- What a name may start with. -/
def startsName (c : Char) : Bool := c.isAlpha || c == '_'

/-- What a name may go on with. -/
def continuesName (c : Char) : Bool := isWordChar c || c == '.'

namespace Pattern

def name : Language Char := one startsName * (one continuesName)∗

def label : Language Char := name * one (· == ':')

def directive : Language Char := one (· == '.') * many Char.isAlpha

def register : Language Char :=
  one (fun c => c == 'r' || c == 'R') * many Char.isDigit

def sign : Language Char := optional (one fun c => c == '+' || c == '-')

def exponent : Language Char :=
  one (fun c => c == 'e' || c == 'E') * (sign * many Char.isDigit)

def float : Language Char :=
  sign * (many Char.isDigit *
    (one (· == '.') * (many Char.isDigit * optional exponent)))

def hex : Language Char :=
  one (· == '0') * (one (fun c => c == 'x' || c == 'X') * many isHexChar)

def int : Language Char := sign * (hex + many Char.isDigit)

/-- What a word may not go on with: the end of the text, or a character that
words do not have. -/
def boundary : Language Char := optional (one (!isWordChar ·) * ⊤)

/-- A name that does not start with a register behind which a word ends. -/
def word : Language Char := name - register * boundary

end Pattern

/-! ## Characters as bytes -/

/-- The byte of a character of ASCII. -/
def byteOf (c : Char) : UInt8 := UInt8.ofNat c.toNat

/-- A test of bytes that does on ASCII what a test of characters does, which
nothing outside of ASCII passes. -/
structure Agree (byte : UInt8 → Bool) (char : Char → Bool) : Prop where
  narrow (c : Char) : char c = true → c.toNat < 128
  same (c : Char) : c.toNat < 128 → byte (byteOf c) = char c

section Agree

variable {byte : UInt8 → Bool} {char : Char → Bool} {text : List Char}

theorem same_of_numbers
    (same : ∀ n < 128, byte (UInt8.ofNat n) = char (Char.ofNat n)) (c : Char)
    (small : c.toNat < 128) : byte (byteOf c) = char c := by
  rw [byteOf, same c.toNat small, Char.ofNat_toNat]

theorem Agree.passes (agree : Agree byte char)
    (passes : ∀ c ∈ text, char c = true) :
    ∀ b ∈ text.map byteOf, byte b = true := by
  intro b member
  obtain ⟨c, inside, rfl⟩ := List.mem_map.mp member
  have passed := passes c inside
  rw [agree.same c (agree.narrow c passed), passed]

theorem isAlpha_narrow {c : Char} (letter : c.isAlpha = true) :
    c.toNat < 128 := by
  have value : c.toNat = c.val.toNat := rfl
  have upper : 'Z'.val.toNat = 90 := rfl
  have lower : 'z'.val.toNat = 122 := rfl
  have cases : (decide ('A'.val ≤ c.val ∧ c.val ≤ 'Z'.val) ||
      (decide ('a'.val ≤ c.val) && decide (c.val ≤ 'z'.val))) = true :=
    letter
  simp only [Bool.or_eq_true, Bool.and_eq_true, decide_eq_true_eq,
    UInt32.le_iff_toNat_le] at cases
  omega

theorem isDigit_narrow {c : Char} (digit : c.isDigit = true) :
    c.toNat < 128 := by
  have bound : c.toNat ≤ 57 := (Char.isDigit_iff_toNat.mp digit).2
  omega

theorem agree_isDigit : Agree isDigit Char.isDigit where
  narrow _ digit := isDigit_narrow digit
  same := same_of_numbers (by decide)

theorem agree_isLetter : Agree isLetter Char.isAlpha where
  narrow _ letter := isAlpha_narrow letter
  same := same_of_numbers (by decide)

theorem agree_isWordByte : Agree isWordByte isWordChar where
  narrow c passes := by
    simp only [isWordChar, Char.isAlphanum, Bool.or_eq_true,
      beq_iff_eq] at passes
    rcases passes with (letter | digit) | rfl
    · exact isAlpha_narrow letter
    · exact isDigit_narrow digit
    · decide
  same := same_of_numbers (by decide)

theorem agree_isNameStart : Agree isNameStart startsName where
  narrow c passes := by
    simp only [startsName, Bool.or_eq_true, beq_iff_eq] at passes
    rcases passes with letter | rfl
    · exact isAlpha_narrow letter
    · decide
  same := same_of_numbers (by decide)

theorem agree_isNameByte : Agree isNameByte continuesName where
  narrow c passes := by
    simp only [continuesName, Bool.or_eq_true, beq_iff_eq] at passes
    rcases passes with inWord | rfl
    · exact agree_isWordByte.narrow c inWord
    · decide
  same := same_of_numbers (by decide)

theorem agree_isHexDigit : Agree isHexDigit isHexChar where
  narrow c passes := by
    have value : c.toNat = c.val.toNat := rfl
    have lower : 'f'.val.toNat = 102 := rfl
    have upper : 'F'.val.toNat = 70 := rfl
    simp only [isHexChar, Bool.or_eq_true, Bool.and_eq_true,
      decide_eq_true_eq, Char.le_def, UInt32.le_iff_toNat_le] at passes
    rcases passes with (digit | letter) | letter
    · exact isDigit_narrow digit
    · omega
    · omega
  same := same_of_numbers (by decide)

end Agree

/-! ## Plain languages -/

/-- Whether all texts of a language are ASCII. -/
def Plain (l : Language Char) : Prop :=
  ∀ text ∈ l, ∀ c ∈ text, c.toNat < 128

section Plain

variable {test : Char → Bool} {l m : Language Char}

theorem plain_one (narrow : ∀ c, test c = true → c.toNat < 128) :
    Plain (one test) := by
  rintro text ⟨c, passes, rfl⟩ d member
  rw [List.mem_singleton.mp member]
  exact narrow c passes

theorem plain_star (narrow : ∀ c, test c = true → c.toNat < 128) :
    Plain (one test)∗ :=
  fun _ matched c member => narrow c (mem_star_one_iff.mp matched c member)

theorem Plain.mul (left : Plain l) (right : Plain m) : Plain (l * m) := by
  rintro text matched c member
  obtain ⟨front, inLeft, back, inRight, rfl⟩ := Language.mem_mul.mp matched
  rcases List.mem_append.mp member with inFront | inBack
  · exact left front inLeft c inFront
  · exact right back inRight c inBack

theorem Plain.add (left : Plain l) (right : Plain m) : Plain (l + m) := by
  rintro text (inLeft | inRight)
  · exact left text inLeft
  · exact right text inRight

theorem plain_many (narrow : ∀ c, test c = true → c.toNat < 128) :
    Plain (many test) :=
  (plain_one narrow).mul (plain_star narrow)

theorem Plain.optional (plain : Plain l) : Plain (optional l) := by
  rintro text matched
  rcases mem_optional_iff.mp matched with rfl | inside
  · simp
  · exact plain text inside

theorem plain_name : Plain Pattern.name :=
  (plain_one agree_isNameStart.narrow).mul
    (plain_star agree_isNameByte.narrow)

theorem plain_digits : Plain (many Char.isDigit) :=
  plain_many agree_isDigit.narrow

/-- A test for one of two characters of ASCII. -/
theorem plain_pair {a b : Char} (aSmall : a.toNat < 128)
    (bSmall : b.toNat < 128) : Plain (one fun c => c == a || c == b) := by
  apply plain_one
  intro c passes
  simp only [Bool.or_eq_true, beq_iff_eq] at passes
  rcases passes with rfl | rfl
  · exact aSmall
  · exact bSmall

theorem plain_char {a : Char} (small : a.toNat < 128) :
    Plain (one (· == a)) := by
  apply plain_one
  intro c passes
  rw [beq_iff_eq.mp passes]
  exact small

theorem plain_sign : Plain Pattern.sign :=
  (plain_pair (by decide) (by decide)).optional

theorem plain_register : Plain Pattern.register :=
  (plain_pair (by decide) (by decide)).mul plain_digits

theorem plain_exponent : Plain Pattern.exponent :=
  (plain_pair (by decide) (by decide)).mul (plain_sign.mul plain_digits)

theorem plain_float : Plain Pattern.float :=
  plain_sign.mul (plain_digits.mul ((plain_char (by decide)).mul
    (plain_digits.mul plain_exponent.optional)))

theorem plain_int : Plain Pattern.int :=
  plain_sign.mul (((plain_char (by decide)).mul
    ((plain_pair (by decide) (by decide)).mul
      (plain_many agree_isHexDigit.narrow))).add plain_digits)

end Plain

/-! ## Matches as bytes -/

section Bytes

variable {byte : UInt8 → Bool} {char : Char → Bool} {text : List Char}

theorem bytes_of_many (agree : Agree byte char) (matched : text ∈ many char) :
    text.map byteOf ≠ [] ∧ ∀ b ∈ text.map byteOf, byte b = true := by
  obtain ⟨nonempty, passes⟩ := mem_many_iff.mp matched
  exact ⟨by simpa using nonempty, agree.passes passes⟩

theorem bytes_of_name (matched : text ∈ Pattern.name) :
    ∃ b rest, text.map byteOf = b :: rest ∧ isNameStart b = true ∧
      ∀ b ∈ rest, isNameByte b = true := by
  obtain ⟨_, ⟨c, starts, rfl⟩, rest, goesOn, rfl⟩ := matched
  have first : isNameStart (byteOf c) = true := by
    rw [agree_isNameStart.same c (agree_isNameStart.narrow c starts), starts]
  exact ⟨byteOf c, rest.map byteOf, rfl, first,
    agree_isNameByte.passes (mem_star_one_iff.mp goesOn)⟩

theorem bytes_of_sign (matched : text ∈ Pattern.sign) :
    text.map byteOf = [] ∨ text.map byteOf = [0x2B] ∨
      text.map byteOf = [0x2D] := by
  rcases mem_optional_iff.mp matched with rfl | ⟨c, passes, rfl⟩
  · exact .inl rfl
  · simp only [Bool.or_eq_true, beq_iff_eq] at passes
    rcases passes with rfl | rfl
    · exact .inr (.inl rfl)
    · exact .inr (.inr rfl)

theorem bytes_of_optional_exponent
    (matched : text ∈ optional Pattern.exponent) :
    exponentLength (text.map byteOf) = (text.map byteOf).length ∧
      ∀ b ∈ (text.map byteOf).head?, isDigit b = false := by
  rcases mem_optional_iff.mp matched with
    rfl | ⟨_, ⟨c, letter, rfl⟩, _, ⟨sign, signs, digits, numeric, rfl⟩, rfl⟩
  · exact ⟨rfl, by simp⟩
  · simp only [Bool.or_eq_true, beq_iff_eq] at letter
    obtain ⟨nonempty, numeric⟩ := bytes_of_many agree_isDigit numeric
    have letters : byteOf c = 0x45 ∨ byteOf c = 0x65 := by
      rcases letter with rfl | rfl
      · exact .inr rfl
      · exact .inl rfl
    have length := exponentLength_exponent (bytes_of_sign signs) letters
      numeric nonempty
    refine ⟨by simpa using length, ?_⟩
    rcases letter with rfl | rfl
    · simp
      rfl
    · simp
      rfl

end Bytes

/-! ## Texts that match -/

section Spells

variable {text : String} {kind : Kind}

theorem spells_of_read (word : kind.isWord = true) {l : Language Char}
    (plain : Plain l) (matched : text.toList ∈ l)
    (read : firstKind? (text.toList.map byteOf) =
      some (kind, (text.toList.map byteOf).length)) :
    Spells kind text := by
  have ascii := plain _ matched
  refine ⟨word, ascii, ?_⟩
  rw [Utf8.ofString_ascii ascii]
  exact read

theorem spells_label (matched : text.toList ∈ Pattern.label) :
    Spells .label text := by
  apply spells_of_read rfl (plain_name.mul (plain_char (by decide))) matched
  obtain ⟨name, named, _, ⟨colon, isColon, rfl⟩, whole⟩ := matched
  obtain rfl := beq_iff_eq.mp isColon
  obtain ⟨b, rest, bytes, starts, goesOn⟩ := bytes_of_name named
  have split : text.toList.map byteOf = b :: rest ++ [0x3A] := by
    rw [← whole, List.map_append, bytes]
    rfl
  rw [split]
  exact firstKind?_label starts goesOn

theorem spells_directive (matched : text.toList ∈ Pattern.directive) :
    Spells .directive text := by
  apply spells_of_read rfl
    ((plain_char (by decide)).mul (plain_many agree_isLetter.narrow)) matched
  obtain ⟨_, ⟨dot, isDot, rfl⟩, letters, alphabetic, whole⟩ := matched
  obtain rfl := beq_iff_eq.mp isDot
  obtain ⟨nonempty, alphabetic⟩ := bytes_of_many agree_isLetter alphabetic
  have split : text.toList.map byteOf = 0x2E :: letters.map byteOf := by
    rw [← whole]
    rfl
  rw [split]
  exact firstKind?_directive alphabetic nonempty

theorem spells_anyRegister (matched : text.toList ∈ Pattern.register) :
    Spells .register text := by
  apply spells_of_read rfl plain_register matched
  obtain ⟨_, ⟨r, isR, rfl⟩, digits, numeric, whole⟩ := matched
  obtain ⟨nonempty, numeric⟩ := bytes_of_many agree_isDigit numeric
  have split : text.toList.map byteOf = byteOf r :: digits.map byteOf := by
    rw [← whole]
    rfl
  have letter : byteOf r = 0x52 ∨ byteOf r = 0x72 := by
    simp only [Bool.or_eq_true, beq_iff_eq] at isR
    rcases isR with rfl | rfl
    · exact .inr rfl
    · exact .inl rfl
  rw [split]
  exact firstKind?_anyRegister numeric nonempty letter

theorem spells_float (matched : text.toList ∈ Pattern.float) :
    Spells .float text := by
  apply spells_of_read rfl plain_float matched
  obtain ⟨sign, signs, _, ⟨whole, wholeNumeric, _, ⟨_, ⟨point, isPoint, rfl⟩,
    _, ⟨fraction, fractionNumeric, exponent, exponents, rfl⟩, rfl⟩, rfl⟩,
    same⟩ := matched
  obtain rfl := beq_iff_eq.mp isPoint
  obtain ⟨wholeNonempty, wholeNumeric⟩ :=
    bytes_of_many agree_isDigit wholeNumeric
  obtain ⟨fractionNonempty, fractionNumeric⟩ :=
    bytes_of_many agree_isDigit fractionNumeric
  obtain ⟨exponentFits, exponentFails⟩ :=
    bytes_of_optional_exponent exponents
  have split : text.toList.map byteOf =
      sign.map byteOf ++ (whole.map byteOf ++
        0x2E :: (fraction.map byteOf ++ exponent.map byteOf)) := by
    rw [← same]
    simp
    rfl
  rw [split]
  exact firstKind?_float (bytes_of_sign signs) wholeNumeric wholeNonempty
    fractionNumeric fractionNonempty exponentFails exponentFits

theorem spells_int (matched : text.toList ∈ Pattern.int) :
    Spells .int text := by
  apply spells_of_read rfl plain_int matched
  obtain ⟨sign, signs, digits, either, same⟩ := matched
  have split : text.toList.map byteOf =
      sign.map byteOf ++ digits.map byteOf := by
    rw [← same, List.map_append]
  rw [split]
  rcases either with
    ⟨_, ⟨zero, isZero, rfl⟩, _, ⟨_, ⟨x, isX, rfl⟩, digits, hexadecimal, rfl⟩,
      rfl⟩ | numeric
  · obtain rfl := beq_iff_eq.mp isZero
    obtain ⟨nonempty, hexadecimal⟩ :=
      bytes_of_many agree_isHexDigit hexadecimal
    have mark : byteOf x = 0x58 ∨ byteOf x = 0x78 := by
      simp only [Bool.or_eq_true, beq_iff_eq] at isX
      rcases isX with rfl | rfl
      · exact .inr rfl
      · exact .inl rfl
    exact firstKind?_hex (bytes_of_sign signs) mark hexadecimal nonempty
  · obtain ⟨nonempty, numeric⟩ := bytes_of_many agree_isDigit numeric
    exact firstKind?_numeral numeric nonempty (bytes_of_sign signs)

end Spells

/-! ## Names that are no registers -/

section Words

variable {text : List Char} {c d : Char}

theorem byteOf_inj (cSmall : c.toNat < 128) (dSmall : d.toNat < 128)
    (same : byteOf c = byteOf d) : c = d := by
  have numbers := congrArg UInt8.toNat same
  rw [byteOf, byteOf, UInt8.toNat_ofNat', UInt8.toNat_ofNat',
    Nat.mod_eq_of_lt (by omega), Nat.mod_eq_of_lt (by omega)] at numbers
  rw [← Char.ofNat_toNat c, ← Char.ofNat_toNat d, numbers]

theorem spanLength_isDigit (ascii : ∀ c ∈ text, c.toNat < 128) :
    spanLength isDigit (text.map byteOf) =
      (text.takeWhile Char.isDigit).length := by
  induction text with
  | nil =>
      rfl
  | cons c rest inductionHypothesis =>
      have later := inductionHypothesis fun d member =>
        ascii d (List.mem_cons_of_mem c member)
      have same := agree_isDigit.same c (ascii c List.mem_cons_self)
      simp only [spanLength] at later ⊢
      cases digit : c.isDigit with
      | false =>
          simp [same, digit]
      | true =>
          simp [same, digit, later]

/-- Where a register is read, a text starts with one behind which a word
ends. -/
theorem register_of_registerLength (ascii : ∀ c ∈ text, c.toNat < 128)
    (fits : registerLength (text.map byteOf) ≠ 0) :
    text ∈ Pattern.register * Pattern.boundary := by
  cases text with
  | nil =>
      exact absurd rfl fits
  | cons r rest =>
      have small := ascii r List.mem_cons_self
      have restAscii : ∀ c ∈ rest, c.toNat < 128 :=
        fun c member => ascii c (List.mem_cons_of_mem r member)
      obtain ⟨letter, someDigits, ends⟩ := of_registerLength_ne_zero fits
      rw [spanLength_isDigit restAscii] at someDigits ends
      rw [← List.map_drop, drop_length_takeWhile] at ends
      refine ⟨r :: rest.takeWhile Char.isDigit, ?_,
        rest.dropWhile Char.isDigit, ?_, by simp⟩
      · refine ⟨[r], ⟨r, ?_, rfl⟩, _, mem_many_iff.mpr ⟨?_, ?_⟩, rfl⟩
        · rcases letter with upper | lower
          · rw [byteOf_inj (d := 'R') small (by decide) upper]
            rfl
          · rw [byteOf_inj (d := 'r') small (by decide) lower]
            rfl
        · exact List.length_pos_iff.mp (by omega)
        · intro c member
          exact List.all_eq_true.mp List.all_takeWhile c member
      · cases left : rest.dropWhile Char.isDigit with
        | nil =>
            exact mem_optional_iff.mpr (.inl rfl)
        | cons c more =>
            have inside : c ∈ rest := by
              apply (List.dropWhile_sublist Char.isDigit).subset
              rw [left]
              exact List.mem_cons_self
            have same := agree_isWordByte.same c (restAscii c inside)
            have ended : (!isWordChar c) = true := by
              simpa [left, same] using ends
            exact mem_optional_iff.mpr
              (.inr ⟨[c], ⟨c, ended, rfl⟩, more, trivial, rfl⟩)

theorem registerLength_of_register (ascii : ∀ c ∈ text, c.toNat < 128)
    (matched : text ∈ Pattern.register * Pattern.boundary) :
    registerLength (text.map byteOf) ≠ 0 := by
  obtain ⟨_, ⟨_, ⟨r, letter, rfl⟩, digits, numeric, rfl⟩, back, bounded,
    rfl⟩ := matched
  obtain ⟨nonempty, numeric⟩ := bytes_of_many agree_isDigit numeric
  have ends : ∀ b ∈ (back.map byteOf).head?, isWordByte b = false := by
    rcases mem_optional_iff.mp bounded with
      rfl | ⟨_, ⟨c, other, rfl⟩, more, -, rfl⟩
    · simp
    · have same := agree_isWordByte.same c (ascii c (by simp))
      simpa [same] using other
  have fails : ∀ b ∈ (back.map byteOf).head?, isDigit b = false := by
    intro b first
    have other := ends b first
    simp only [isWordByte, Bool.or_eq_false_iff] at other
    exact other.1.2
  have letters : byteOf r = 0x52 ∨ byteOf r = 0x72 := by
    simp only [Bool.or_eq_true, beq_iff_eq] at letter
    rcases letter with rfl | rfl
    · exact .inr rfl
    · exact .inl rfl
  have split : (([r] ++ digits) ++ back).map byteOf =
      byteOf r :: (digits.map byteOf ++ back.map byteOf) := by
    simp
  rw [split, registerLength]
  simp only [spanLength_append numeric fails, List.drop_left]
  cases behind : back.map byteOf with
  | nil =>
      simpa [letters] using nonempty
  | cons b more =>
      have ended := ends b (by simp [behind])
      simpa [letters, ended] using nonempty

theorem spells_word {text : String} (matched : text.toList ∈ Pattern.word) :
    Spells .name text := by
  obtain ⟨named, noRegister⟩ := (Language.mem_sub _ _ _).mp matched
  apply spells_of_read rfl plain_name named
  have other : registerLength (text.toList.map byteOf) = 0 := by
    by_contra fits
    exact noRegister (register_of_registerLength (plain_name _ named) fits)
  obtain ⟨b, rest, bytes, starts, goesOn⟩ := bytes_of_name named
  rw [bytes] at other ⊢
  exact firstKind?_name starts goesOn other

theorem name_of_cons (starts : startsName c = true)
    (goesOn : text.all continuesName = true) :
    c :: text ∈ Pattern.name :=
  ⟨[c], ⟨c, starts, rfl⟩, text,
    mem_star_one_iff.mpr (List.all_eq_true.mp goesOn), rfl⟩

/-- A name whose second character is no digit is a word. -/
theorem word_of_name (named : text ∈ Pattern.name)
    (other : (text.tail.head?.any Char.isDigit) = false) :
    text ∈ Pattern.word := by
  refine ⟨named, ?_⟩
  rintro ⟨_, ⟨_, ⟨c, -, rfl⟩, _, ⟨_, ⟨d, digit, rfl⟩, more, -, rfl⟩, rfl⟩,
    back, -, rfl⟩
  exact absurd (digit.symm.trans other) (by decide)

theorem not_word_of_register (matched : text ∈ Pattern.register) :
    text ∉ Pattern.word := by
  rintro ⟨-, other⟩
  exact other ⟨text, matched, [], mem_optional_iff.mpr (.inl rfl),
    List.append_nil text⟩

end Words

end WindowMachine.Source
