import WindowMachine.Proofs.Assembly.Methods
import WindowMachine.Proofs.Source.Places
import WindowMachine.Tool.Program

/-!
# Sources that look like images

Bytes are taken for an image if a field number, the head of a text and the
magic stand behind their first byte.  The field number is a control character,
which no token but a comment can hold.  A source that looks like an image
therefore starts with a comment, and as the first byte is not looked at, there
are such sources.  They are not run: a semicolon is the head of a negative
number, and no image is one.
-/

namespace WindowMachine

namespace Source

/-! ## Tokens before a control character -/

section Control

variable {b : UInt8} {rest : List UInt8} {kind : Kind}

/-- The byte that numbers the first field of an image starts no token. -/
theorem firstKind?_control : firstKind? (0x01 :: rest) = none := by
  rw [firstKind?, List.findSome?_eq_none_iff]
  intro kind member
  have starts : kind.starts 0x01 = false := by
    revert kind
    decide
  simp [Kind.length_of_starts_false starts]

theorem spanLength_control {test : UInt8 → Bool}
    (fails : test 0x01 = false) : spanLength test (0x01 :: rest) = 0 := by
  simp [spanLength, fails]

theorem spanLength_cons_control {test : UInt8 → Bool}
    (fails : test 0x01 = false) :
    spanLength test (b :: 0x01 :: rest) = if test b then 1 else 0 := by
  simp only [spanLength, List.takeWhile_cons, fails]
  split <;> rfl

/-- Nor is it a part of a number. -/
theorem floatLength_control : floatLength (b :: 0x01 :: rest) = 0 := by
  have digit : isDigit 0x01 = false := rfl
  by_cases sign : b = 0x2B ∨ b = 0x2D
  · simp [floatLength, signLength_cons, sign, spanLength_control digit]
  · cases own : isDigit b <;>
      simp [floatLength, signLength_cons, sign, own,
        spanLength_cons_control digit]

theorem hexLength_control : hexLength (b :: 0x01 :: rest) = 0 := by
  by_cases zero : b = 0x30
  · subst zero
    simp [hexLength]
  · simp [hexLength, zero]

theorem intLength_control : intLength (b :: 0x01 :: rest) ≤ 1 := by
  have digit : isDigit 0x01 = false := rfl
  by_cases sign : b = 0x2B ∨ b = 0x2D
  · simp [intLength, signLength_cons, sign, spanLength_control digit,
      hexLength]
  · cases own : isDigit b <;>
      simp [intLength, signLength_cons, sign, own, hexLength_control,
        spanLength_cons_control digit]

/-- No token goes on with that byte, unless it is a comment. -/
theorem Kind.length_control (other : kind ≠ .comment) :
    kind.length (b :: 0x01 :: rest) ≤ 1 := by
  cases starts : kind.starts b with
  | false =>
      simp [Kind.length_of_starts_false starts]
  | true =>
      cases kind with
      | comment =>
          exact absurd rfl other
      | blank =>
          simp only [Kind.length,
            spanLength_cons_control (show isBlank 0x01 = false from rfl)]
          split <;> simp
      | eol =>
          obtain rfl : b = 0x0A := by simpa [Kind.starts] using starts
          exact Nat.le_refl 1
      | label =>
          have named : isNameStart b = true := starts
          simp [Kind.length, nameLength, named,
            spanLength_control (show isNameByte 0x01 = false from rfl)]
      | directive =>
          obtain rfl : b = 0x2E := by simpa [Kind.starts] using starts
          simp [Kind.length,
            spanLength_control (show isLetter 0x01 = false from rfl)]
      | register =>
          simp [Kind.length, registerLength,
            spanLength_control (show isDigit 0x01 = false from rfl)]
      | float =>
          simp [Kind.length, floatLength_control]
      | int =>
          exact intLength_control
      | name =>
          have named : isNameStart b = true := starts
          simp [Kind.length, nameLength, named,
            spanLength_control (show isNameByte 0x01 = false from rfl)]
      | comma =>
          obtain rfl : b = 0x2C := by simpa [Kind.starts] using starts
          exact Nat.le_refl 1

/-- A text in which that byte comes second starts with a comment. -/
theorem semicolon_of_legible {lexemes : List Lexeme}
    (legible : Legible lexemes [])
    (text : spelled lexemes = b :: 0x01 :: rest) : b = 0x3B := by
  cases lexemes with
  | nil =>
      cases text
  | cons first more =>
      obtain ⟨found, legible⟩ := legible
      rw [spelled_cons] at text
      rw [List.append_nil, text] at found
      obtain ⟨length, positive⟩ := length_of_firstKind? found
      by_cases kind : first.kind = .comment
      · cases starts : first.kind.starts b with
        | true =>
            simpa [kind, Kind.starts] using starts
        | false =>
            rw [Kind.length_of_starts_false starts] at length
            omega
      · have atMost := @Kind.length_control b rest _ kind
        -- A token of one byte leaves the control character to the next.
        obtain ⟨-, behind⟩ := List.append_inj
          (show first.bytes ++ spelled more = [b] ++ 0x01 :: rest from text)
          (show _ = 1 by omega)
        cases more with
        | nil =>
            cases behind
        | cons second more =>
            have found := legible.1
            rw [spelled_cons] at behind
            rw [List.append_nil, behind, firstKind?_control] at found
            cases found

end Control

theorem prefix_of_signature {bytes : List UInt8} {img : Image}
    (assembled : assemble bytes = .ok img)
    (begins : Image.signature <+: bytes.drop 1) :
    0x3B :: Image.signature <+: bytes := by
  obtain ⟨lines, parsed, -⟩ := Assembly.assemble_eq_ok assembled
  obtain ⟨tokens, -, text, legible, -⟩ := parse_eq_ok parsed
  obtain ⟨rest, begins⟩ := begins
  cases bytes with
  | nil =>
      cases begins
  | cons b bytes =>
      obtain rfl : Image.signature ++ rest = bytes := begins
      obtain ⟨more, ended⟩ := prefix_terminated
        (b :: (Image.signature ++ rest))
      obtain rfl : b = 0x3B :=
        semicolon_of_legible legible (text.trans ended.symm)
      exact ⟨rest, rfl⟩

/-- Whether a text is a comment at first that spells what images start
with. -/
def Masked (bytes : List UInt8) : Prop :=
  0x3B :: Image.signature <+: bytes ∧ 7 < bytes.length

instance (bytes : List UInt8) : Decidable (Masked bytes) :=
  inferInstanceAs (Decidable (_ ∧ _))

end Source

/-! ## Looking like an image -/

namespace Cbor

/-- The head of a negative number starts no other item. -/
theorem read?_negative {b : UInt8} {rest : List UInt8} {item : Item}
    (major : b.toNat / 32 = 1) (read : read? (b :: rest) = some item) :
    ∃ n, item = .negative n := by
  rw [read?, List.length_cons, item?] at read
  simp only [major] at read
  cases head : argument? (b.toNat % 32) rest with
  | none =>
      simp [head] at read
  | some found =>
      obtain ⟨argument, left⟩ := found
      cases argument with
      | indefinite =>
          simp [head] at read
      | number n =>
          cases left with
          | nil =>
              exact ⟨n, by simpa [head, eq_comm] using read⟩
          | cons =>
              simp [head] at read

end Cbor

namespace Image

theorem isImage_iff {bytes : List UInt8} :
    isImage bytes = true ↔
      signature <+: bytes.drop 1 ∧ 7 < bytes.length := by
  rw [isImage, Bool.and_eq_true, beq_iff_eq, decide_eq_true_eq,
    List.length_take, List.prefix_iff_eq_take, and_comm, eq_comm]
  refine and_congr Iff.rfl ?_
  omega

theorem unmarshal_negative {b : UInt8} {rest : List UInt8}
    (major : b.toNat / 32 = 1) :
    unmarshal (b :: rest) = .error .undecodable := by
  have nothing : decode? (b :: rest) = none := by
    rw [decode?]
    cases read : Cbor.read? (b :: rest) with
    | none =>
        rfl
    | some item =>
        obtain ⟨n, rfl⟩ := Cbor.read?_negative major read
        rfl
  rw [unmarshal, nothing]

end Image

/-- A source looks like an image only if it starts with a comment to this
end.  Then it is refused, and otherwise it is assembled. -/
theorem Program.ofBytes_of_assembled (path : String) {bytes : List UInt8}
    {img : Image} (assembled : assemble bytes = .ok img) :
    (Image.isImage bytes = true ↔ Source.Masked bytes) ∧
      Program.ofBytes path bytes =
        if Source.Masked bytes then
          .error (.image (.inFile path .undecodable))
        else .ok img := by
  have looks : Image.isImage bytes = true ↔ Source.Masked bytes := by
    rw [Image.isImage_iff]
    refine and_congr_left fun _ => ?_
    constructor
    · intro begins
      exact Source.prefix_of_signature assembled begins
    · rintro ⟨rest, rfl⟩
      exact ⟨rest, rfl⟩
  refine ⟨looks, ?_⟩
  rw [Program.ofBytes]
  by_cases masked : Source.Masked bytes
  · obtain ⟨rest, rfl⟩ := masked.1
    rw [if_pos (looks.mpr masked), if_pos masked, Program.ofImage]
    rw [List.cons_append, Image.unmarshal_negative (by decide)]
  · rw [if_neg (mt looks.mp masked), if_neg masked, Program.ofSource,
      assembled]

/-- A comment that goes on like an image, and an instruction. -/
def maskedSource : List UInt8 :=
  ";\x01dYAVM\nend\n".toUTF8.toList

def maskedImage : Image where
  magic := Image.expectedMagic
  version := Image.expectedVersion
  entry := 0
  code := some #[0x00000024]
  methods := #[]
  globals := #[]
  stack := #[]
  checksum := Vector.replicate 32 0

theorem maskedSource_refused :
    assemble maskedSource = .ok maskedImage ∧
      Image.isImage maskedSource = true ∧
        Program.ofBytes "comment.yasm" maskedSource =
          .error (.image (.inFile "comment.yasm" .undecodable)) := by
  have accepted : assemble maskedSource = .ok maskedImage :=
    toOption_eq_some_iff.mp (by decide +kernel)
  have masked : Source.Masked maskedSource := by decide +kernel
  obtain ⟨looks, read⟩ :=
    Program.ofBytes_of_assembled "comment.yasm" accepted
  rw [if_pos masked] at read
  exact ⟨accepted, looks.mpr masked, read⟩

end WindowMachine
