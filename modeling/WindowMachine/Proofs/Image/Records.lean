import WindowMachine.Image.Encoding
import WindowMachine.Proofs.Cbor.Viewed

/-!
# Images as records

A method, a global, a stack value and an image are each written as a record,
and the record is seen as the value that was written.  Lists that are empty,
and the name of a method without one, have no field of their own; the zero
value stands for them.
-/

namespace WindowMachine

open Cbor

/-! ## Methods, globals and stack values -/

/-- A field that holds an integer. -/
def intField (number : Nat) (i : Int) : Field :=
  ⟨number, writeInt i, intItem i⟩

/-- A field that holds a text. -/
def textField (number : Nat) (s : String) : Field :=
  ⟨number, writeText s, textItem s⟩

/-- The fields of a method. -/
def NamedMethod.fields (m : NamedMethod) : List Field :=
  unlessAbsent (m.name = "") (textField 1 m.name) ++
    [intField 2 m.index.toInt, intField 3 m.entry.toInt,
      intField 4 m.args.toInt, intField 5 m.locals.toInt]

/-- The fields of an initial global. -/
def GlobalSeed.fields (g : GlobalSeed) : List Field :=
  [intField 1 g.index.toInt, intField 2 g.value.toInt]

/-- The fields of an initial stack value. -/
def StackSeed.fields (s : StackSeed) : List Field :=
  [intField 1 s.index.toInt, intField 2 s.bits.toNat]

section Spelling

variable {number : Nat} (small : number < 2 ^ 64) (levels : Nat)

include small

theorem int64Field_spelled (i : Int64) :
    (intField number i.toInt).Spelled levels := by
  have lower := i.le_toInt
  have upper := i.toInt_lt
  exact ⟨small, (spells_writeInt (by omega) (by omega)).mono levels.zero_le⟩

theorem int32Field_spelled (i : Int32) :
    (intField number i.toInt).Spelled levels := by
  have lower := i.le_toInt
  have upper := i.toInt_lt
  exact ⟨small, (spells_writeInt (by omega) (by omega)).mono levels.zero_le⟩

theorem uint32Field_spelled (w : UInt32) :
    (intField number w.toNat).Spelled levels := by
  have upper := w.toNat_lt
  have spells : Spells 0 (writeInt w.toNat) (intItem w.toNat) :=
    spells_writeInt (by omega) (by omega)
  exact ⟨small, spells.mono levels.zero_le⟩

theorem textField_spelled {s : String}
    (fits : (Utf8.ofString s).length < 2 ^ 64) :
    (textField number s).Spelled levels :=
  ⟨small, (spells_writeText fits).mono levels.zero_le⟩

end Spelling

theorem NamedMethod.encode_spells {m : NamedMethod}
    (fits : (Utf8.ofString m.name).length < 2 ^ 64) :
    Spells 1 m.encode (record m.fields) := by
  have same : m.encode =
      writeMap (m.fields.map fun f => (f.number, f.bytes)) := by
    by_cases unnamed : m.name = ""
    · simp [encode, fields, unlessAbsent, unnamed, intField]
    · simp [encode, fields, unlessAbsent, unnamed, intField, textField]
  rw [same]
  apply spells_writeMap
  · intro f member
    simp only [fields, List.mem_append, mem_unlessAbsent, List.mem_cons,
      List.not_mem_nil, or_false] at member
    rcases member with ⟨-, rfl⟩ | rfl | rfl | rfl | rfl
    · exact textField_spelled (by decide) 0 fits
    · exact int64Field_spelled (by decide) 0 m.index
    · exact int64Field_spelled (by decide) 0 m.entry
    · exact int64Field_spelled (by decide) 0 m.args
    · exact int64Field_spelled (by decide) 0 m.locals
  · have few := length_unlessAbsent_le (m.name = "") (textField 1 m.name)
    simp only [fields, List.length_append, List.length_cons,
      List.length_nil, maxElements]
    omega

theorem GlobalSeed.encode_spells (g : GlobalSeed) :
    Spells 1 g.encode (record g.fields) := by
  apply spells_writeMap g.fields
  · intro f member
    simp only [fields, List.mem_cons, List.not_mem_nil, or_false] at member
    rcases member with rfl | rfl
    · exact int64Field_spelled (by decide) 0 g.index
    · exact int32Field_spelled (by decide) 0 g.value
  · simp [fields, maxElements]

theorem StackSeed.encode_spells (s : StackSeed) :
    Spells 1 s.encode (record s.fields) := by
  apply spells_writeMap s.fields
  · intro f member
    simp only [fields, List.mem_cons, List.not_mem_nil, or_false] at member
    rcases member with rfl | rfl
    · exact int64Field_spelled (by decide) 0 s.index
    · exact uint32Field_spelled (by decide) 0 s.bits
  · simp [fields, maxElements]

theorem methodOf?_record (m : NamedMethod) :
    Image.methodOf? (record m.fields) = some m := by
  have name : field? text? "" 1 (viewed m.fields) = some m.name := by
    by_cases unnamed : m.name = ""
    · simp [NamedMethod.fields, field?_viewed_unlessAbsent,
        field?_viewed_cons, intField, unnamed]
      rfl
    · simp [NamedMethod.fields, field?_viewed_unlessAbsent, textField,
        text?_textItem, unnamed]
  simp only [Image.methodOf?, fields?_record, name, Option.bind_eq_bind,
    Option.bind_some]
  simp [NamedMethod.fields, field?_viewed_unlessAbsent,
    field?_viewed_cons, textField, intField, int64?_intItem]

theorem globalOf?_record (g : GlobalSeed) :
    Image.globalOf? (record g.fields) = some g := by
  simp [Image.globalOf?, fields?_record, GlobalSeed.fields,
    field?_viewed_cons, intField, int64?_intItem, int32?_intItem]

theorem seedOf?_record (s : StackSeed) :
    Image.seedOf? (record s.fields) = some s := by
  simp [Image.seedOf?, fields?_record, StackSeed.fields,
    field?_viewed_cons, intField, int64?_intItem, uint32?_intItem]

/-! ## Lists -/

section Lists

variable {α : Type}

/-- A field for a list. -/
def arrayField (number : Nat) (write : α → List UInt8) (item : α → Item)
    (xs : List α) : Field :=
  ⟨number, writeArray (xs.map write), .array (xs.map item)⟩

/-- A field for a list, which is left out when empty. -/
def arrayFields (number : Nat) (write : α → List UInt8) (item : α → Item)
    (xs : List α) : List Field :=
  unlessAbsent xs.isEmpty (arrayField number write item xs)

theorem length_arrayFields_le (number : Nat) (write : α → List UInt8)
    (item : α → Item) (xs : List α) :
    (arrayFields number write item xs).length ≤ 1 :=
  length_unlessAbsent_le _ _

variable {number : Nat} {write : α → List UInt8} {item : α → Item}
  {xs : List α}

theorem arrayField_spelled {levels : Nat} (small : number < 2 ^ 64)
    (spells : ∀ x ∈ xs, Spells levels (write x) (item x))
    (few : xs.length ≤ maxElements) :
    (arrayField number write item xs).Spelled (levels + 1) :=
  ⟨small, spells_writeArray xs spells few⟩

theorem written_arrayFields :
    (arrayFields number write item xs).map (fun f => (f.number, f.bytes)) =
      Image.listField number (xs.map write) := by
  cases xs with
  | nil =>
      rfl
  | cons x rest =>
      rfl

theorem field?_arrayFields_of_ne {β : Type} {value? : Item → Option β}
    {zero : β} {other : Nat} (differ : other ≠ number)
    (rest : List Field) :
    field? value? zero other
        (viewed (arrayFields number write item xs ++ rest)) =
      field? value? zero other (viewed rest) := by
  rw [arrayFields, field?_viewed_unlessAbsent, if_neg]
  exact fun same => differ same.1

/-- A list field is seen as the list, and as the empty list when it is left
out. -/
theorem arrayField?_arrayFields {element? : Item → Option α}
    (seen : ∀ x ∈ xs, element? (item x) = some x) {rest : List Field}
    (absent : field? (list? element?) none number (viewed rest) =
      some none) :
    Image.arrayField? element? number
        (viewed (arrayFields number write item xs ++ rest)) =
      some xs.toArray := by
  have present := list?_array seen
  rw [Image.arrayField?, arrayFields, field?_viewed_unlessAbsent]
  cases xs with
  | nil =>
      simp [absent]
  | cons x rest =>
      simp only [arrayField, List.isEmpty_cons, and_self, if_true, present]
      rfl

end Lists

/-! ## Images -/

namespace Image

/-- Code as an item. -/
def codeItem : Option (Array Word) → Item
  | none => .simple 22
  | some code => .array (code.toList.map fun w => intItem w.toNat)

/-- The fields of an image behind its code. -/
def laterFields (img : Image) : List Field :=
  arrayFields 5 NamedMethod.encode (fun m => record m.fields)
      img.methods.toList ++
    (arrayFields 6 GlobalSeed.encode (fun g => record g.fields)
        img.globals.toList ++
      (arrayFields 7 StackSeed.encode (fun s => record s.fields)
          img.stack.toList ++
        [⟨8, writeBytes img.checksum.toList, .bytes img.checksum.toList⟩]))

/-- The fields of an image. -/
def fields (img : Image) : List Field :=
  textField 1 img.magic :: intField 2 img.version.toInt ::
    intField 3 img.entry.toInt ::
      ⟨4, encodeCode img.code, codeItem img.code⟩ :: img.laterFields

/-- Whether every list of an image is short enough to be read back, and every
name too: its length must fit into a head. -/
structure Encodable (img : Image) : Prop where
  code : img.words.size ≤ maxElements
  methods : img.methods.size ≤ maxElements
  globals : img.globals.size ≤ maxElements
  stack : img.stack.size ≤ maxElements
  names : ∀ m ∈ img.methods, (Utf8.ofString m.name).length < 2 ^ 64

variable {img : Image}

theorem encodeCode_spells {code : Option (Array Word)}
    (few : (code.getD #[]).size ≤ maxElements) :
    Spells 1 (encodeCode code) (codeItem code) := by
  cases code with
  | none =>
      exact spells_writeNull.mono (by decide)
  | some code =>
      refine spells_writeArray code.toList ?_ (by simpa using few)
      intro w _
      have upper := w.toNat_lt
      exact spells_writeInt (by omega) (by omega)

theorem fields_spelled (encodable : img.Encodable)
    (short : (Utf8.ofString img.magic).length < 2 ^ 64) :
    ∀ f ∈ img.fields, f.Spelled 2 := by
  intro f member
  simp only [fields, laterFields, arrayFields, List.mem_cons,
    List.mem_append, mem_unlessAbsent, List.not_mem_nil, or_false] at member
  rcases member with rfl | rfl | rfl | rfl | ⟨-, rfl⟩ | ⟨-, rfl⟩ |
    ⟨-, rfl⟩ | rfl
  · exact textField_spelled (by decide) 2 short
  · exact int64Field_spelled (by decide) 2 img.version
  · exact int64Field_spelled (by decide) 2 img.entry
  · exact ⟨(by decide : 4 < 2 ^ 64),
      (encodeCode_spells encodable.code).mono (by decide)⟩
  · refine arrayField_spelled (by decide) ?_ encodable.methods
    intro m member
    exact NamedMethod.encode_spells
      (encodable.names m (Array.mem_toList_iff.mp member))
  · refine arrayField_spelled (by decide) ?_ encodable.globals
    intro g _
    exact g.encode_spells
  · refine arrayField_spelled (by decide) ?_ encodable.stack
    intro s _
    exact s.encode_spells
  · have digest : img.checksum.toList.length < 2 ^ 64 := by simp
    exact ⟨(by decide : 8 < 2 ^ 64),
      (spells_writeBytes digest).mono (by decide)⟩

theorem length_fields_le (img : Image) : img.fields.length ≤ 8 := by
  have methods := length_arrayFields_le 5 NamedMethod.encode
    (fun m => record m.fields) img.methods.toList
  have globals := length_arrayFields_le 6 GlobalSeed.encode
    (fun g => record g.fields) img.globals.toList
  have stack := length_arrayFields_le 7 StackSeed.encode
    (fun s => record s.fields) img.stack.toList
  simp only [fields, laterFields, List.length_cons, List.length_append,
    List.length_nil]
  omega

theorem encode_eq (img : Image) :
    img.encode =
      writeMap (img.fields.map fun f => (f.number, f.bytes)) := by
  simp [encode, fields, laterFields, written_arrayFields, textField,
    intField]

theorem encode_spells (encodable : img.Encodable)
    (short : (Utf8.ofString img.magic).length < 2 ^ 64) :
    Spells 3 img.encode (record img.fields) := by
  have few := length_fields_le img
  rw [encode_eq]
  refine spells_writeMap img.fields (fields_spelled encodable short) ?_
  simp only [maxElements]
  omega

theorem field?_code (img : Image) :
    field? (list? uint32?) none 4 (viewed img.fields) =
      some (img.code.map Array.toList) := by
  have seen : list? uint32? (codeItem img.code) =
      some (img.code.map Array.toList) := by
    cases img.code with
    | none =>
        rfl
    | some code =>
        exact list?_array fun w _ => uint32?_intItem w
  simpa [fields, field?_viewed_cons, textField, intField] using seen

theorem field?_laterFields {α : Type} (value? : Item → Option α)
    (zero : α) {number : Nat} (later : 4 < number) :
    field? value? zero number (viewed img.fields) =
      field? value? zero number (viewed img.laterFields) := by
  simp only [fields, field?_viewed_cons, textField, intField]
  rw [if_neg (by omega), if_neg (by omega), if_neg (by omega),
    if_neg (by omega)]

theorem ofItem?_record (img : Image) :
    ofItem? (record img.fields) = some img := by
  have magic : field? text? "" 1 (viewed img.fields) =
      some img.magic := by
    simp [fields, field?_viewed_cons, textField, text?_textItem]
  have version : field? int64? 0 2 (viewed img.fields) =
      some img.version := by
    simp [fields, field?_viewed_cons, textField, intField, int64?_intItem]
  have entry : field? int64? 0 3 (viewed img.fields) =
      some img.entry := by
    simp [fields, field?_viewed_cons, textField, intField, int64?_intItem]
  have methods : arrayField? methodOf? 5 (viewed img.fields) =
      some img.methods := by
    rw [arrayField?, field?_laterFields _ _ (by decide)]
    refine arrayField?_arrayFields (fun m _ => methodOf?_record m) ?_
    simp [field?_arrayFields_of_ne, field?_viewed_cons]
    rfl
  have globals : arrayField? globalOf? 6 (viewed img.fields) =
      some img.globals := by
    rw [arrayField?, field?_laterFields _ _ (by decide), laterFields,
      field?_arrayFields_of_ne (by decide)]
    refine arrayField?_arrayFields (fun g _ => globalOf?_record g) ?_
    simp [field?_arrayFields_of_ne, field?_viewed_cons]
    rfl
  have stack : arrayField? seedOf? 7 (viewed img.fields) =
      some img.stack := by
    rw [arrayField?, field?_laterFields _ _ (by decide), laterFields,
      field?_arrayFields_of_ne (by decide),
      field?_arrayFields_of_ne (by decide)]
    refine arrayField?_arrayFields (fun s _ => seedOf?_record s) ?_
    simp [field?_viewed_cons]
    rfl
  have checksum : field? digest? (Digest.ofBytes []) 8
      (viewed img.fields) = some img.checksum := by
    rw [field?_laterFields _ _ (by decide)]
    simp [laterFields, field?_arrayFields_of_ne, field?_viewed_cons,
      digest?_bytes]
  have code : img.code.map (List.toArray ∘ Array.toList) = img.code := by
    cases img.code <;> rfl
  simp [ofItem?, fields?_record, magic, version, entry, field?_code, code,
    methods, globals, stack, checksum]

/-- An image with short lists is read back from its bytes, whatever its
magic, version and checksum. -/
theorem decode?_encode (encodable : img.Encodable)
    (short : (Utf8.ofString img.magic).length < 2 ^ 64) :
    decode? img.encode = some img := by
  have read := (encode_spells encodable short).read? (by decide)
  simp [decode?, read, ofItem?_record]

end Image

end WindowMachine
