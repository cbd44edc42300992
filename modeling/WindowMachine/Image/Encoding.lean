import WindowMachine.Cbor.View
import WindowMachine.Cbor.Writer
import WindowMachine.Image

/-!
Images as bytes. An image is a map from field numbers; the lists other than the code, and the
names of methods, are left out when empty.
-/

namespace WindowMachine

/-! ## Writing -/

/-- A method as bytes. -/
def NamedMethod.encode (m : NamedMethod) : List UInt8 :=
  Cbor.writeMap
    ((if m.name = "" then [] else [(1, Cbor.writeText m.name)]) ++
      [(2, Cbor.writeInt m.index.toInt), (3, Cbor.writeInt m.entry.toInt),
       (4, Cbor.writeInt m.args.toInt), (5, Cbor.writeInt m.locals.toInt)])

/-- An initial global as bytes. -/
def GlobalSeed.encode (g : GlobalSeed) : List UInt8 :=
  Cbor.writeMap [(1, Cbor.writeInt g.index.toInt), (2, Cbor.writeInt g.value.toInt)]

/-- An initial stack slot as bytes. -/
def StackSeed.encode (s : StackSeed) : List UInt8 :=
  Cbor.writeMap [(1, Cbor.writeInt s.index.toInt), (2, Cbor.writeInt s.bits.toNat)]

namespace Image

/-- Code as bytes. -/
def encodeCode : Option (Array Word) → List UInt8
  | none => Cbor.writeNull
  | some code => Cbor.writeArray (code.toList.map fun w => Cbor.writeInt w.toNat)

/-- A field for a list, which is left out when empty. -/
def listField (number : Nat) (items : List (List UInt8)) : List (Nat × List UInt8) :=
  if items.isEmpty then [] else [(number, Cbor.writeArray items)]

/-- An image as bytes, with the checksum it claims. -/
def encode (img : Image) : List UInt8 :=
  Cbor.writeMap
    ([(1, Cbor.writeText img.magic), (2, Cbor.writeInt img.version.toInt),
      (3, Cbor.writeInt img.entry.toInt), (4, encodeCode img.code)] ++
      listField 5 (img.methods.toList.map NamedMethod.encode) ++
      listField 6 (img.globals.toList.map GlobalSeed.encode) ++
      listField 7 (img.stack.toList.map StackSeed.encode) ++
      [(8, Cbor.writeBytes img.checksum.toList)])

/-- An image as bytes, with the checksum of its code. -/
def marshal (img : Image) : List UInt8 := img.sealed.encode

/-! ## Reading -/

def methodOf? (item : Cbor.Item) : Option NamedMethod := do
  let fields ← Cbor.fields? item
  return {
    name := ← Cbor.field? Cbor.text? "" 1 fields
    index := ← Cbor.field? Cbor.int64? 0 2 fields
    entry := ← Cbor.field? Cbor.int64? 0 3 fields
    args := ← Cbor.field? Cbor.int64? 0 4 fields
    locals := ← Cbor.field? Cbor.int64? 0 5 fields }

def globalOf? (item : Cbor.Item) : Option GlobalSeed := do
  let fields ← Cbor.fields? item
  return {
    index := ← Cbor.field? Cbor.int64? 0 1 fields
    value := ← Cbor.field? Cbor.int32? 0 2 fields }

def seedOf? (item : Cbor.Item) : Option StackSeed := do
  let fields ← Cbor.fields? item
  return {
    index := ← Cbor.field? Cbor.int64? 0 1 fields
    bits := ← Cbor.field? Cbor.uint32? 0 2 fields }

/-- A list field in which absent and empty are the same. -/
def arrayField? {α : Type} (element? : Cbor.Item → Option α) (number : Nat)
    (fields : List (Cbor.Key × Cbor.Item)) : Option (Array α) :=
  (Cbor.field? (Cbor.list? element?) none number fields).map fun list =>
    (list.getD []).toArray

/-- The image that an item describes, whatever its magic, version and checksum. -/
def ofItem? (item : Cbor.Item) : Option Image := do
  let fields ← Cbor.fields? item
  return {
    magic := ← Cbor.field? Cbor.text? "" 1 fields
    version := ← Cbor.field? Cbor.int64? 0 2 fields
    entry := ← Cbor.field? Cbor.int64? 0 3 fields
    code := (← Cbor.field? (Cbor.list? Cbor.uint32?) none 4 fields).map List.toArray
    methods := ← arrayField? methodOf? 5 fields
    globals := ← arrayField? globalOf? 6 fields
    stack := ← arrayField? seedOf? 7 fields
    checksum := ← Cbor.field? Cbor.digest? (Digest.ofBytes []) 8 fields }

/-- The image that bytes describe, whatever its magic, version and checksum. -/
def decode? (bytes : List UInt8) : Option Image := do
  ofItem? (← Cbor.read? bytes)

/-- Checks the magic, then the version, then the checksum of an image. -/
def check (img : Image) : Except Failure Image :=
  if img.magic ≠ expectedMagic then .error (.plain .notImage)
  else if img.version ≠ expectedVersion then .error (.version img.version)
  else if sum img.words ≠ img.checksum then .error (.plain .badChecksum)
  else .ok img

/-- The image that bytes describe, if it is one of ours and its code is intact. -/
def unmarshal (bytes : List UInt8) : Except Failure Image :=
  match decode? bytes with
  | none => .error .undecodable
  | some img => img.check

/-- The bytes that follow the first one of every image. -/
def signature : List UInt8 := [0x01, 0x64, 0x59, 0x41, 0x56, 0x4D]

/-- Whether bytes look like an image. -/
def isImage (bytes : List UInt8) : Bool :=
  7 < (bytes.take 8).length && (bytes.drop 1).take 6 == signature

end Image

end WindowMachine
