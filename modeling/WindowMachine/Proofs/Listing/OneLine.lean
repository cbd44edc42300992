import WindowMachine.Listing
import WindowMachine.Proofs.Number.Numerals
import WindowMachine.Proofs.Text.Pieces

/-!
# Lines that stay on one line

Everything that a listing is made of stays on its line: numerals, instructions
and what stands around them.  Only the name of a method could break a line,
and it does not if it has no newline in it.
-/

namespace WindowMachine

/-! ## Numerals -/

theorem exists_digitChar {n : Nat} {c : Char}
    (member : c ∈ Nat.toDigits 16 n) : ∃ d < 16, c = Nat.digitChar d := by
  induction n using Nat.strongRecOn with
  | ind n inductionHypothesis =>
      by_cases small : n < 16
      · rw [Nat.toDigits_of_lt_base small] at member
        exact ⟨n, small, List.mem_singleton.mp member⟩
      · rw [Nat.toDigits_of_base_le (by decide) (by omega)] at member
        rcases List.mem_append.mp member with front | last
        · exact inductionHypothesis (n / 16) (by omega) front
        · exact ⟨n % 16, by omega, List.mem_singleton.mp last⟩

theorem isAlphanum_of_mem_upperHexDigits {n : Nat} {c : Char}
    (member : c ∈ Numeral.upperHexDigits n) : c.isAlphanum = true := by
  obtain ⟨digit, held, rfl⟩ := List.mem_map.mp member
  obtain ⟨d, small, rfl⟩ := exists_digitChar held
  have all : ∀ d < 16, (Nat.digitChar d).toUpper.isAlphanum = true := by
    decide
  exact all d small

theorem isAlphanum_of_mem_zeroFilled {width : Nat} {digits : List Char}
    (alphanumeric : ∀ c ∈ digits, c.isAlphanum = true) :
    ∀ c ∈ (Numeral.zeroFilled width digits).toList, c.isAlphanum = true := by
  intro c member
  rw [Numeral.zeroFilled, String.toList_ofList] at member
  rcases List.mem_append.mp member with zero | digit
  · rw [List.eq_of_mem_replicate zero]
    rfl
  · exact alphanumeric c digit

theorem newline_not_mem_of_isAlphanum {chars : List Char}
    (alphanumeric : ∀ c ∈ chars, c.isAlphanum = true) : '\n' ∉ chars := by
  intro newline
  cases alphanumeric '\n' newline

@[simp]
theorem newline_not_mem_upperHex (width : Nat) (i : Int) :
    '\n' ∉ (Numeral.upperHex width i).toList := by
  have digits (n width : Nat) :
      '\n' ∉ (Numeral.zeroFilled width (Numeral.upperHexDigits n)).toList :=
    newline_not_mem_of_isAlphanum (isAlphanum_of_mem_zeroFilled
      fun c member => isAlphanum_of_mem_upperHexDigits member)
  unfold Numeral.upperHex
  split
  · simp [digits]
  · exact digits _ _

@[simp]
theorem newline_not_mem_ofNat (n : Nat) :
    '\n' ∉ (Numeral.ofNat n).toList := by
  rw [Numeral.ofNat, String.toList_ofList]
  intro newline
  cases isDigit_of_mem_toDigits newline

@[simp]
theorem newline_not_mem_ofInt (i : Int) :
    '\n' ∉ (Numeral.ofInt i).toList := by
  unfold Numeral.ofInt
  split <;> simp

@[simp]
theorem newline_not_mem_signed (i : Int) :
    '\n' ∉ (Numeral.signed i).toList := by
  unfold Numeral.signed
  split <;> simp

/-! ## Instructions -/

theorem newline_not_mem_mnemonic (op : Operation) :
    '\n' ∉ op.mnemonic.toList := by
  cases op <;> decide

theorem newline_not_mem_intercalate {texts : List String}
    (free : ∀ text ∈ texts, '\n' ∉ text.toList) :
    '\n' ∉ (String.intercalate ", " texts).toList := by
  induction texts with
  | nil =>
      simp
  | cons first texts inductionHypothesis =>
      obtain ⟨own, others⟩ := List.forall_mem_cons.mp free
      cases texts with
      | nil =>
          simpa using own
      | cons second texts =>
          rw [String.intercalate_cons_cons]
          simp only [String.toList_append, List.mem_append, not_or]
          exact ⟨⟨own, by decide⟩, inductionHypothesis others⟩

theorem newline_not_mem_text (i : Instruction) : '\n' ∉ i.text.toList := by
  have registers (used : List UInt8) :
      '\n' ∉ (String.intercalate ", "
        (used.map Instruction.registerText)).toList := by
    apply newline_not_mem_intercalate
    intro text member
    obtain ⟨r, -, rfl⟩ := List.mem_map.mp member
    simp [Instruction.registerText]
  have mnemonic := newline_not_mem_mnemonic
  unfold Instruction.text
  split
  · simp
  · split
    · exact mnemonic _
    · simp only [String.toList_append, List.mem_append, not_or]
      exact ⟨⟨mnemonic _, by decide⟩, registers _⟩
    · split <;> simp [mnemonic, Instruction.registerText]
    · simp [mnemonic, Instruction.registerText]
    · simp [mnemonic]
    · simp [mnemonic]

/-! ## Lines of a listing -/

namespace Listing

theorem newline_not_mem_wordLine (address : Nat) (w : Word) :
    '\n' ∉ (wordLine address w).toList := by
  have target :
      '\n' ∉ (targetText address (Instruction.decode w)).toList := by
    unfold targetText
    split <;> simp
  simp [wordLine, newline_not_mem_text, target]

theorem toList_ofLines (lines : List String) :
    (ofLines lines).toList =
      (lines.map String.toList).flatMap (· ++ ['\n']) := by
  have joined (text : String) :
      (lines.foldl (fun text line => text ++ line ++ "\n") text).toList =
        text.toList ++ (lines.map String.toList).flatMap (· ++ ['\n']) := by
    induction lines generalizing text with
    | nil =>
        simp
    | cons line lines inductionHypothesis =>
        simp [inductionHypothesis]
  exact joined ""

end Listing

end WindowMachine
