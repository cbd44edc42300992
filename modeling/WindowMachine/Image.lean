import WindowMachine.Digest
import WindowMachine.Machine.Run

/-!
Program images: code together with its methods, initial globals and stack values, and the
address at which it starts.
-/

namespace WindowMachine

/-- A method with its name and its place in the method table. -/
structure NamedMethod where
  name : String
  index : Int64
  entry : Int64
  args : Int64
  locals : Int64
  deriving DecidableEq, Repr

/-- What the machine is told of a named method. -/
def NamedMethod.method (m : NamedMethod) : Method := ⟨m.entry, m.args, m.locals⟩

/-- An initial global. -/
structure GlobalSeed where
  index : Int64
  value : Int32
  deriving DecidableEq, Repr

/-- An initial stack slot. -/
structure StackSeed where
  index : Int64
  bits : Slot
  deriving DecidableEq, Repr

/-- An assembled program. -/
structure Image where
  magic : String
  version : Int64
  entry : Int64
  /-- The code; an image may also say nothing about code. -/
  code : Option (Array Word)
  methods : Array NamedMethod
  globals : Array GlobalSeed
  stack : Array StackSeed
  /-- The digest that the image claims for its code. -/
  checksum : Digest
  deriving DecidableEq, Repr

namespace Image

/-- What every image is marked with. -/
def expectedMagic : String := "YAVM"

/-- The version of the image format. -/
def expectedVersion : Int64 := 1

/-- The words of the code. -/
def words (img : Image) : Array Word := img.code.getD #[]

/-- The bytes of a word, least significant first. -/
def wordBytes (w : Word) : List UInt8 :=
  [w.toUInt8, (w >>> 8).toUInt8, (w >>> 16).toUInt8, (w >>> 24).toUInt8]

/-- Code as bytes, without any header. -/
def raw (code : Array Word) : List UInt8 := code.toList.flatMap wordBytes

/-- The digest of code. -/
def sum (code : Array Word) : Digest := Digest.sum (raw code)

/-- An image whose checksum is that of its code. -/
def sealed (img : Image) : Image := { img with checksum := sum img.words }

/-- The first method of a name. -/
def methodByName? (img : Image) (name : String) : Option NamedMethod :=
  img.methods.find? fun m => m.name == name

/-! ## On a machine -/

/-- Applies a setter to entries in turn and stops at the first one it refuses. The machine is
the one after the entries before that. -/
def seedAll {α : Type} (set : Machine → α → Except Failure Machine) :
    Machine → List α → Machine × Option Failure
  | m, [] => (m, none)
  | m, entry :: rest =>
    match set m entry with
    | .ok n => seedAll set n rest
    | .error why => (m, some why)

/-- Registers a named method. -/
def seedMethod (m : Machine) (entry : NamedMethod) : Except Failure Machine :=
  match m.setMethod entry.index entry.method with
  | .ok n => .ok n
  | .error why => .error (.inMethod entry.name why)

/-- Registers the methods of an image and sets its globals and stack values, up to the first
entry that the machine refuses. -/
def applyTo (img : Image) (m : Machine) : Machine × Option Failure :=
  match seedAll seedMethod m img.methods.toList with
  | (m, some why) => (m, some why)
  | (m, none) =>
    match seedAll (fun m g => m.setGlobal g.index g.value) m img.globals.toList with
    | (m, some why) => (m, some why)
    | (m, none) => seedAll (fun m s => m.setSlot s.index s.bits) m img.stack.toList

/-- Applies an image and runs it. -/
def runOn (img : Image) (m : Machine) : Run :=
  match img.applyTo m with
  | (m, some why) => Run.refused m why
  | (m, none) => m.run img.words img.entry

end Image

end WindowMachine
