import WindowMachine.Proofs.Cbor.Bounds
import WindowMachine.Proofs.Image.RoundTrip

/-!
# Accepted images are normal

Bytes may spell an image in many ways, but what is accepted is an image that
can be written: its lists are no longer than a list that is read may be, and
its names no longer than the bytes they were read from.  So whatever is
accepted is read back from its canonical bytes.  What is not accepted is
refused for the first of four reasons.

The bytes are fewer than `2 ^ 64`, as they are in any memory: a text can be
read in chunks without a bound, but a head cannot hold a larger length.
-/

namespace WindowMachine.Image

open Cbor

/-! ## Bounds -/

section Bounds

variable {limit : Nat} {item : Item}

theorem methodOf?_name (within : item.Within limit) {m : NamedMethod}
    (seen : methodOf? item = some m) :
    (Utf8.ofString m.name).length ≤ limit := by
  simp only [methodOf?, Option.bind_eq_bind, Option.bind_eq_some_iff,
    Option.pure_def, Option.some.injEq] at seen
  obtain ⟨fields, viewed, name, named, -, -, -, -, -, -, -, -, rfl⟩ := seen
  rcases field?_within (fields?_within within viewed) named with
    rfl | ⟨value, inside, text⟩
  · exact Nat.zero_le limit
  · exact text?_length inside text

theorem arrayField?_within {α : Type} {element? : Item → Option α}
    {number : Nat} {fields : List (Key × Item)}
    (within : ∀ field ∈ fields, field.2.Within limit) {xs : Array α}
    (seen : arrayField? element? number fields = some xs) :
    xs.size ≤ maxElements ∧
      ∀ x ∈ xs, ∃ element : Item,
        element.Within limit ∧ element? element = some x := by
  simp only [arrayField?, Option.map_eq_some_iff] at seen
  obtain ⟨list, viewed, rfl⟩ := seen
  rcases field?_within within viewed with rfl | ⟨value, inside, elements⟩
  · simp
  · simpa using list?_within inside elements

theorem ofItem?_encodable (within : item.Within limit)
    (small : limit < 2 ^ 64) {img : Image} (seen : ofItem? item = some img) :
    img.Encodable := by
  simp only [ofItem?, Option.bind_eq_bind, Option.bind_eq_some_iff,
    Option.pure_def, Option.some.injEq] at seen
  obtain ⟨fields, viewed, magic, -, version, -, entry, -, code, coded,
    methods, listed, globals, seeded, stack, filled, checksum, -, rfl⟩ := seen
  have inside := fields?_within within viewed
  have codeSize : (code.getD []).length ≤ maxElements := by
    rcases field?_within inside coded with rfl | ⟨value, inside, words⟩
    · exact Nat.zero_le maxElements
    · exact (list?_within inside words).1
  constructor
  · cases code with
    | none =>
        exact Nat.zero_le maxElements
    | some ws =>
        exact codeSize
  · exact (arrayField?_within inside listed).1
  · exact (arrayField?_within inside seeded).1
  · exact (arrayField?_within inside filled).1
  · intro m member
    obtain ⟨element, elementInside, seen⟩ :=
      (arrayField?_within inside listed).2 m member
    have length := methodOf?_name elementInside seen
    omega

end Bounds

theorem decode?_encodable {bytes : List UInt8} {img : Image}
    (sized : bytes.length < 2 ^ 64) (decoded : decode? bytes = some img) :
    img.Encodable := by
  simp only [decode?, Option.bind_eq_bind, Option.bind_eq_some_iff]
    at decoded
  obtain ⟨item, read, seen⟩ := decoded
  exact ofItem?_encodable (read?_within read) sized seen

/-! ## Verdicts -/

/-- What is said about bytes: they are refused for the first reason that
applies, or accepted if none does. -/
inductive Verdict (bytes : List UInt8) : Except Failure Image → Prop
  | undecodable :
      decode? bytes = none → Verdict bytes (.error .undecodable)
  | magic {img : Image} :
      decode? bytes = some img → img.magic ≠ expectedMagic →
      Verdict bytes (.error (.plain .notImage))
  | version {img : Image} :
      decode? bytes = some img → img.magic = expectedMagic →
      img.version ≠ expectedVersion →
      Verdict bytes (.error (.version img.version))
  | checksum {img : Image} :
      decode? bytes = some img → img.magic = expectedMagic →
      img.version = expectedVersion → sum img.words ≠ img.checksum →
      Verdict bytes (.error (.plain .badChecksum))
  | accepted {img : Image} :
      decode? bytes = some img → img.magic = expectedMagic →
      img.version = expectedVersion → sum img.words = img.checksum →
      Verdict bytes (.ok img)

theorem unmarshal_eq_iff {bytes : List UInt8}
    {result : Except Failure Image} :
    unmarshal bytes = result ↔ Verdict bytes result := by
  constructor
  · rintro rfl
    rw [unmarshal]
    split
    · rename_i broken
      exact .undecodable broken
    · rename_i img decoded
      by_cases magic : img.magic = expectedMagic
      · by_cases version : img.version = expectedVersion
        · by_cases same : sum img.words = img.checksum
          · rw [check, if_neg (not_not_intro magic),
              if_neg (not_not_intro version), if_neg (not_not_intro same)]
            exact .accepted decoded magic version same
          · rw [check, if_neg (not_not_intro magic),
              if_neg (not_not_intro version), if_pos same]
            exact .checksum decoded magic version same
        · rw [check, if_neg (not_not_intro magic), if_pos version]
          exact .version decoded magic version
      · rw [check, if_pos magic]
        exact .magic decoded magic
  · intro verdict
    cases verdict with
    | undecodable broken =>
        simp only [unmarshal, broken]
    | magic decoded other =>
        simp only [unmarshal, decoded, check, if_pos other]
    | version decoded magic other =>
        simp only [unmarshal, decoded, check, if_neg (not_not_intro magic),
          if_pos other]
    | checksum decoded magic version differ =>
        simp only [unmarshal, decoded, check, if_neg (not_not_intro magic),
          if_neg (not_not_intro version), if_pos differ]
    | accepted decoded magic version same =>
        simp only [unmarshal, decoded, check, if_neg (not_not_intro magic),
          if_neg (not_not_intro version), if_neg (not_not_intro same)]

/-- Whether an image is as every image that is accepted. -/
structure Normal (img : Image) : Prop where
  magic : img.magic = expectedMagic
  version : img.version = expectedVersion
  checksum : img.checksum = sum img.words
  recognised : isImage img.marshal = true
  readBack : unmarshal img.marshal = .ok img

/-- However its bytes are laid out, an image that is accepted is normal: it
has the expected header and the checksum of its code, and its canonical bytes
are recognised and read back.  Every other byte string is refused, for the
first reason that applies. -/
theorem unmarshal_normal {bytes : List UInt8}
    (sized : bytes.length < 2 ^ 64) :
    (∀ img, unmarshal bytes = .ok img → img.Normal) ∧
      ∀ result, unmarshal bytes = result ↔ Verdict bytes result := by
  refine ⟨?_, fun result => unmarshal_eq_iff⟩
  intro img accepted
  cases unmarshal_eq_iff.mp accepted with
  | accepted decoded magic version same =>
      have whole : img.sealed = img := by
        rw [sealed, same]
      have encodable := decode?_encodable sized decoded
      have back := unmarshal_marshal_of_header magic version encodable
      rw [whole] at back
      refine ⟨magic, version, same.symm, ?_, back⟩
      rw [marshal, whole, isImage_encode]
      exact magic

/-! ## Unusual bytes -/

/-- The bytes of the digest of no code. -/
def emptyDigest : List UInt8 :=
  [0xE3, 0xB0, 0xC4, 0x42, 0x98, 0xFC, 0x1C, 0x14,
    0x9A, 0xFB, 0xF4, 0xC8, 0x99, 0x6F, 0xB9, 0x24,
    0x27, 0xAE, 0x41, 0xE4, 0x64, 0x9B, 0x93, 0x4C,
    0xA4, 0x95, 0x99, 0x1B, 0x78, 0x52, 0xB8, 0x55]

/-- An image without code in an unusual layout: a tag around a map of
indefinite length, a text as a key, a magic in two chunks, a head that is
longer than needed, a field that occurs twice, one that is unknown, and an
entry that is written as a large number. -/
def liberal : List UInt8 :=
  [0xD9, 0xD9, 0xF7, 0xBF,
    0x61, 0x31, 0x7F, 0x62, 0x59, 0x41, 0x62, 0x56, 0x4D, 0xFF,
    0x02, 0x1B, 0x00, 0x00, 0x00, 0x00, 0x00, 0x00, 0x00, 0x01,
    0x02, 0x05,
    0x20, 0xF4,
    0x08, 0x58, 0x20] ++ emptyDigest ++
  [0x03, 0xC3, 0x41, 0x00,
    0x04, 0x9F, 0xFF,
    0xFF]

/-- What the unusual layout spells. -/
def plain : Image where
  magic := "YAVM"
  version := 1
  entry := -1
  code := some #[]
  methods := #[]
  globals := #[]
  stack := #[]
  checksum := Digest.ofBytes emptyDigest

theorem liberal_normal :
    liberal.length < 2 ^ 64 ∧ unmarshal liberal = .ok plain ∧
      plain.Normal ∧ plain.marshal ≠ liberal := by
  have decoded : decode? liberal = some plain := by decide +kernel
  have same : sum plain.words = plain.checksum := by decide +kernel
  have accepted : unmarshal liberal = .ok plain :=
    unmarshal_eq_iff.mpr (.accepted decoded rfl rfl same)
  have normal := (unmarshal_normal (by decide)).1 plain accepted
  refine ⟨by decide, accepted, normal, ?_⟩
  intro canonical
  have recognised := normal.recognised
  rw [canonical] at recognised
  exact absurd recognised (by decide)

end WindowMachine.Image
