import WindowMachine.Proofs.Image.Records

/-!
# Images are read back

An image that is written with the checksum of its code is read back with that
checksum, and with everything else as it was.  Its bytes look like an image
exactly if its magic is the expected one, because the magic stands at a fixed
place: the head of the map and the number of the first field take one byte
each, and so does the head of a text of four bytes.
-/

namespace WindowMachine.Image

open Cbor

/-! ## The front of the bytes -/

theorem encode_front (img : Image) :
    ∃ b c rest,
      img.encode = b :: 0x01 :: (writeText img.magic ++ c :: rest) := by
  have few := length_fields_le img
  have map : head 5 img.fields.length =
      [5 * 32 + UInt8.ofNat img.fields.length] := by
    simp only [head]
    rw [if_pos (by omega)]
  have first : head 0 1 = [0x01] := rfl
  have second : head 0 2 = [0x02] := rfl
  rw [encode_eq, writeMap, List.length_map, map]
  simp [fields, textField, intField, first, second]

/-- Only the head of a text of four bytes begins like the signature. -/
theorem head_text_eq_cons {n : Nat} {extra : List UInt8}
    (begins : head 3 n = 0x64 :: extra) : n = 4 ∧ extra = [] := by
  simp only [head] at begins
  split at begins
  · have top : (3 * 32 : UInt8).toNat = 96 := rfl
    have four : (0x64 : UInt8).toNat = 100 := rfl
    simp only [List.cons.injEq, ← UInt8.toNat_inj, UInt8.toNat_add,
      UInt8.toNat_ofNat'] at begins
    exact ⟨by omega, begins.2.symm⟩
  · split at begins
    · simp at begins
    · split at begins
      · simp at begins
      · split at begins
        · simp at begins
        · simp at begins

theorem isImage_encode (img : Image) :
    isImage img.encode = true ↔ img.magic = expectedMagic := by
  obtain ⟨b, c, rest, front⟩ := encode_front img
  constructor
  · intro looks
    obtain ⟨top, extra, same⟩ := List.exists_cons_of_length_pos
      (length_head_pos 3 (Utf8.ofString img.magic).length)
    simp only [isImage, front, writeText, same, signature,
      Bool.and_eq_true, beq_iff_eq, List.drop_succ_cons, List.drop_zero,
      List.cons_append, List.take_succ_cons, List.cons.injEq] at looks
    obtain ⟨-, -, rfl, text⟩ := looks
    obtain ⟨four, rfl⟩ := head_text_eq_cons same
    rw [List.nil_append, List.take_append_of_le_length (by omega),
      List.take_of_length_le (by omega)] at text
    exact Utf8.ofString_inj text
  · intro magic
    have text : writeText expectedMagic = signature.drop 1 := rfl
    rw [front, magic, text]
    simp [isImage, signature]

/-! ## The whole image -/

-- The digest must not be computed to see that the other fields stay.
theorem words_sealed (img : Image) : img.sealed.words = img.words := by
  simp only [sealed, words]

theorem checksum_sealed (img : Image) :
    img.sealed.checksum = sum img.words := by
  simp only [sealed]

theorem sealed_sealed (img : Image) : img.sealed.sealed = img.sealed := by
  rw [sealed, words_sealed, ← checksum_sealed]

theorem sealed_encodable {img : Image} (encodable : img.Encodable) :
    img.sealed.Encodable where
  code := by simpa only [words_sealed] using encodable.code
  methods := by simpa only [sealed] using encodable.methods
  globals := by simpa only [sealed] using encodable.globals
  stack := by simpa only [sealed] using encodable.stack
  names := by simpa only [sealed] using encodable.names

theorem unmarshal_marshal_of_header {img : Image}
    (magic : img.magic = expectedMagic)
    (version : img.version = expectedVersion)
    (encodable : img.Encodable) :
    unmarshal img.marshal = .ok img.sealed := by
  have same : sum img.sealed.words = img.sealed.checksum := by
    rw [words_sealed, checksum_sealed]
  have magic : img.sealed.magic = expectedMagic := by
    simpa only [sealed] using magic
  have version : img.sealed.version = expectedVersion := by
    simpa only [sealed] using version
  have short : (Utf8.ofString img.sealed.magic).length < 2 ^ 64 := by
    rw [magic]
    decide
  rw [unmarshal, marshal, decode?_encode (sealed_encodable encodable) short]
  change img.sealed.check = .ok img.sealed
  rw [check, if_neg (not_not_intro magic), if_neg (not_not_intro version),
    if_neg (not_not_intro same)]

/-- An image with the expected magic and version, whatever the rest of it, is
read back from the bytes that it is written as, with the checksum of its code;
and writing it again gives the same bytes.  Whatever its magic and version,
its bytes look like an image exactly if its magic is the expected one. -/
theorem unmarshal_marshal (img : Image) :
    (img.magic = expectedMagic → img.version = expectedVersion →
      img.Encodable →
        unmarshal img.marshal = .ok img.sealed ∧
          img.sealed.marshal = img.marshal) ∧
      (isImage img.marshal = true ↔ img.magic = expectedMagic) := by
  constructor
  · intro magic version encodable
    refine ⟨unmarshal_marshal_of_header magic version encodable, ?_⟩
    rw [marshal, marshal, sealed_sealed]
  · have magic : img.sealed.magic = img.magic := by simp only [sealed]
    rw [marshal, isImage_encode, magic]

/-- An image with empty code, a named and a nameless method, and numbers of
both signs. -/
def motley : Image where
  magic := "YAVM"
  version := 1
  entry := -1
  code := some #[]
  methods := #[⟨"größe", 0, 24, 256, 9223372036854775807⟩,
    ⟨"", -9223372036854775808, 65536, 4294967296, -257⟩]
  globals := #[⟨7, -2147483648⟩]
  stack := #[⟨23, 0xFFFFFFFF⟩]
  checksum := Digest.ofBytes [1, 2, 3]

theorem motley_readBack :
    motley.magic = expectedMagic ∧ motley.version = expectedVersion ∧
      motley.Encodable ∧ unmarshal motley.marshal = .ok motley.sealed ∧
        motley.sealed.marshal = motley.marshal ∧
          isImage motley.marshal = true := by
  have encodable : motley.Encodable := by
    refine ⟨by decide, by decide, by decide, by decide, ?_⟩
    intro m member
    simp only [motley, List.mem_toArray, List.mem_cons, List.not_mem_nil,
      or_false] at member
    rcases member with rfl | rfl
    · decide
    · decide
  obtain ⟨back, looks⟩ := unmarshal_marshal motley
  obtain ⟨read, again⟩ := back rfl rfl encodable
  exact ⟨rfl, rfl, encodable, read, again, looks.mpr rfl⟩

end WindowMachine.Image
