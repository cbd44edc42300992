import WindowMachine.Flags
import WindowMachine.Listing
import WindowMachine.Tool.Program

/-!
The tool that assembles sources into image files.
-/

namespace WindowMachine.Assembler

def name : String := "yasm"

def flags : List Flag :=
  [⟨"o", "Output directory", .text "build"⟩,
   ⟨"disasm", "Print disassembly", .switch false⟩,
   ⟨"raw", "Also write raw code words (.bin)", .switch false⟩]

def usageLine : String :=
  "Usage: yasm [-o outdir] [-disasm] [-raw] <file.yasm>...\n"

/-- The name of the files made from a source. -/
def stem (path : String) : String :=
  FilePath.withoutSuffix (FilePath.base path) (FilePath.extension path)

/-- What is shown of an image before it is written. -/
def listing (title : String) (img : Image) : String :=
  "=== " ++ title ++ ": " ++ Numeral.ofNat img.words.size ++ " words, " ++
    Numeral.ofNat img.methods.size ++ " methods ===\n" ++ Listing.ofImage img ++ "\n"

section
variable {m : Type → Type} [Monad m]

/-- Writes a file and says so, or says why not. -/
def deliver (sys : System m) (path : String) (content : List UInt8) (what done : String) :
    m (Except String Unit) := do
  match ← sys.save path content with
  | .error trouble => return .error (what ++ ": " ++ trouble.message)
  | .ok () =>
    sys.out (done ++ " -> " ++ path ++ "\n")
    return .ok ()

/-- Assembles one source into a directory. -/
def assembleFile (sys : System m) (c : CommandLine) (path : String) : m (Except String Unit) := do
  match Program.ofRead (Program.ofSource path) (← sys.load path) with
  | .error fault => return .error fault.message
  | .ok img =>
    let title := stem path
    let directory := c.text "o"
    if c.switch "disasm" then sys.out (listing title img)
    let words := img.words.size
    match ← deliver sys (FilePath.join directory (title ++ ".yvm")) img.marshal "write image"
        (title ++ ": " ++ Numeral.ofNat words ++ " words") with
    | .error e => return .error e
    | .ok () =>
      if c.switch "raw" then
        deliver sys (FilePath.join directory (title ++ ".bin")) (Image.raw img.words) "write raw"
          (title ++ ": " ++ Numeral.ofNat (4 * words) ++ " bytes")
      else return .ok ()

/-- Assembles sources, up to the first that fails. -/
def assembleFiles (sys : System m) (c : CommandLine) : List String → m Nat
  | [] => return 0
  | path :: rest => do
    match ← assembleFile sys c path with
    | .error e =>
      sys.err ("Error assembling " ++ path ++ ": " ++ e ++ "\n")
      return 1
    | .ok () => assembleFiles sys c rest

/-- Runs the tool and gives its status. -/
def perform (sys : System m) (arguments : List String) : m Nat := do
  match Flag.read flags arguments with
  | .error .help =>
    sys.err (Flag.usageText name flags)
    return 0
  | .error (.wrong message) =>
    sys.err (message ++ "\n" ++ Flag.usageText name flags)
    return 2
  | .ok c =>
    match c.arguments with
    | [] =>
      sys.err usageLine
      return 1
    | paths =>
      match ← sys.makeDirectories (c.text "o") with
      | .error trouble =>
        sys.err ("Error: " ++ trouble.message ++ "\n")
        return 1
      | .ok () => assembleFiles sys c paths

end

end WindowMachine.Assembler
