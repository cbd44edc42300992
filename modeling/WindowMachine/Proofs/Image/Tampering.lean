import WindowMachine.Proofs.Image.RoundTrip
import WindowMachine.Proofs.Instruction.UnusedBytes

/-!
# Tampered code

The digest of code is taken of its bytes, four for each word and nothing in
between or in front.  These bytes determine the code nevertheless, its length
included.  So an image that keeps its checksum while its code is exchanged is
accepted only if the code has stayed the same, or else if the bytes of the two
collide.
-/

namespace WindowMachine

/-- Whether two different messages have the same digest. -/
def Digest.Collide (message other : List UInt8) : Prop :=
  message ≠ other ∧ Digest.sum message = Digest.sum other

namespace Image

open Cbor

/-! ## Code as bytes -/

theorem wordBytes_inj {v w : Word} (same : wordBytes v = wordBytes w) :
    v = w := by
  simp only [wordBytes, List.cons.injEq, and_true] at same
  obtain ⟨first, second, third, fourth⟩ := same
  apply Word.eq_of_bytes
  intro place inside
  match place, inside with
  | 0, _ =>
      rw [Word.byte_zero, Word.byte_zero, first]
  | 1, _ =>
      exact second
  | 2, _ =>
      exact third
  | 3, _ =>
      exact fourth

private theorem flatMap_wordBytes_inj {words others : List Word}
    (same : words.flatMap wordBytes = others.flatMap wordBytes) :
    words = others := by
  induction words generalizing others with
  | nil =>
      cases others with
      | nil =>
          rfl
      | cons w others =>
          simp [wordBytes] at same
  | cons v words inductionHypothesis =>
      cases others with
      | nil =>
          simp [wordBytes] at same
      | cons w others =>
          rw [List.flatMap_cons, List.flatMap_cons] at same
          -- Every word takes four bytes, so the first words end together.
          obtain ⟨first, rest⟩ := List.append_inj same rfl
          rw [wordBytes_inj first, inductionHypothesis rest]

/-- Code is determined by its bytes, although nothing in them tells its
length. -/
theorem raw_inj {code other : Array Word} (same : raw code = raw other) :
    code = other :=
  Array.toList_inj.mp (flatMap_wordBytes_inj same)

/-! ## Exchanged code -/

/-- An image with other code in place of its own, of which it keeps the
checksum. -/
def exchanged (img : Image) (code : Option (Array Word)) : Image :=
  { img.sealed with code := code }

section Exchanged

variable {img : Image} {code : Option (Array Word)}

theorem exchanged_encodable (encodable : img.Encodable)
    (few : (code.getD #[]).size ≤ maxElements) :
    (img.exchanged code).Encodable where
  code := by simpa only [exchanged, words] using few
  methods := by simpa only [exchanged, sealed] using encodable.methods
  globals := by simpa only [exchanged, sealed] using encodable.globals
  stack := by simpa only [exchanged, sealed] using encodable.stack
  names := by simpa only [exchanged, sealed] using encodable.names

/-- An image is judged by the digests of its code and of the code that it was
sealed with. -/
theorem unmarshal_exchanged (magic : img.magic = expectedMagic)
    (version : img.version = expectedVersion)
    (encodable : img.Encodable)
    (few : (code.getD #[]).size ≤ maxElements) :
    unmarshal (img.exchanged code).encode =
      if sum (code.getD #[]) = sum img.words then .ok (img.exchanged code)
      else .error (.plain .badChecksum) := by
  have magic : (img.exchanged code).magic = expectedMagic := by
    simpa only [exchanged, sealed] using magic
  have version : (img.exchanged code).version = expectedVersion := by
    simpa only [exchanged, sealed] using version
  have words : (img.exchanged code).words = code.getD #[] := by
    simp only [exchanged, Image.words]
  have checksum : (img.exchanged code).checksum = sum img.words := by
    simp only [exchanged, checksum_sealed]
  have short :
      (Utf8.ofString (img.exchanged code).magic).length < 2 ^ 64 := by
    rw [magic]
    decide
  rw [unmarshal, decode?_encode (exchanged_encodable encodable few) short]
  change (img.exchanged code).check = _
  rw [check, if_neg (not_not_intro magic), if_neg (not_not_intro version),
    words, checksum, ite_not]

/-- Whatever code is put in the place of the one that an image was sealed
with, be it longer, shorter or in another order, the image is refused for its
checksum, unless the bytes of the two collide.  Only the same code is
accepted. -/
theorem tampering_refused (magic : img.magic = expectedMagic)
    (version : img.version = expectedVersion)
    (encodable : img.Encodable)
    (few : (code.getD #[]).size ≤ maxElements)
    (apart : ¬ Digest.Collide (raw img.words) (raw (code.getD #[]))) :
    (code.getD #[] ≠ img.words →
      unmarshal (img.exchanged code).encode =
        .error (.plain .badChecksum)) ∧
      (code.getD #[] = img.words →
        unmarshal (img.exchanged code).encode =
          .ok (img.exchanged code)) := by
  rw [unmarshal_exchanged magic version encodable few]
  constructor
  · intro differs
    have bytes : raw img.words ≠ raw (code.getD #[]) :=
      fun same => differs (raw_inj same).symm
    exact if_neg fun digests => apart ⟨bytes, digests.symm⟩
  · intro same
    rw [same, if_pos rfl]

end Exchanged

/-- An image with code of two words. -/
def pair : Image where
  magic := "YAVM"
  version := 1
  entry := 0
  code := some #[0x00000015, 0x00000024]
  methods := #[⟨"größe", 0, 1, 0, 0⟩]
  globals := #[]
  stack := #[⟨3, 0xFFFFFFFF⟩]
  checksum := Digest.ofBytes []

/-- The code of the pair in reverse order. -/
def reordered : Array Word := #[0x00000024, 0x00000015]

theorem reordered_refused :
    pair.magic = expectedMagic ∧ pair.version = expectedVersion ∧
      pair.Encodable ∧ reordered.size ≤ maxElements ∧
        ¬ Digest.Collide (raw pair.words) (raw reordered) ∧
          reordered ≠ pair.words ∧
            unmarshal (pair.exchanged (some reordered)).encode =
              .error (.plain .badChecksum) := by
  have encodable : pair.Encodable := by
    refine ⟨by decide, by decide, by decide, by decide, ?_⟩
    intro m member
    obtain rfl : m = ⟨"größe", 0, 1, 0, 0⟩ := by
      simpa [pair] using member
    decide
  have few : ((some reordered).getD #[]).size ≤ maxElements := by decide
  have digests : sum pair.words ≠ sum reordered := by decide +kernel
  have apart : ¬ Digest.Collide (raw pair.words) (raw reordered) :=
    fun collide => digests collide.2
  have differs : reordered ≠ pair.words := by decide
  have refused :=
    (tampering_refused rfl rfl encodable few apart).1 differs
  exact ⟨rfl, rfl, encodable, few, apart, differs, refused⟩

end Image

end WindowMachine
