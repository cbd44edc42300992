import WindowMachine.Assembly
import WindowMachine.Image.Encoding
import WindowMachine.Tool.System

/-!
Programs from files, which hold either an image or a source.
-/

namespace WindowMachine

/-- Why a file holds no program. -/
inductive ProgramFault where
  | unreadable (trouble : FileTrouble)
  | image (why : Failure)
  /-- A fault of a source with the given name. -/
  | source (name : String) (fault : SourceFault)
  deriving DecidableEq, Repr

def ProgramFault.message : ProgramFault → String
  | .unreadable trouble => trouble.message
  | .image why => why.message
  | .source name fault => fault.message name

namespace Program

/-- The program of a source that was read from a path. -/
def ofSource (path : String) (bytes : List UInt8) : Except ProgramFault Image :=
  match assemble bytes with
  | .ok img => .ok img
  | .error fault => .error (.source (FilePath.base path) fault)

/-- The image that was read from a path. -/
def ofImage (path : String) (bytes : List UInt8) : Except ProgramFault Image :=
  match Image.unmarshal bytes with
  | .ok img => .ok img
  | .error why => .error (.image (.inFile path why))

/-- The program of bytes that were read from a path: an image if they look like one, else a
source. -/
def ofBytes (path : String) (bytes : List UInt8) : Except ProgramFault Image :=
  if Image.isImage bytes then ofImage path bytes else ofSource path bytes

/-- Reads bytes as a program, unless they could not be read. -/
def ofRead (reader : List UInt8 → Except ProgramFault Image) :
    Except FileTrouble (List UInt8) → Except ProgramFault Image
  | .error trouble => .error (.unreadable trouble)
  | .ok bytes => reader bytes

section
variable {m : Type → Type} [Monad m]

/-- Reads the image in a file. -/
def loadImage (sys : System m) (path : String) : m (Except ProgramFault Image) := do
  return ofRead (ofImage path) (← sys.load path)

/-- Writes an image to a file. -/
def saveImage (sys : System m) (path : String) (img : Image) : m (Except FileTrouble Unit) :=
  sys.save path img.marshal

end

end Program

end WindowMachine
