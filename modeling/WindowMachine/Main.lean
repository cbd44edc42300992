import WindowMachine.Tool.Assembler
import WindowMachine.Tool.Runner

/-!
The command line. The first argument may name the tool; without it, programs are run.
-/

namespace WindowMachine.Host

/-- The number of an error, which some operations give with a minus sign. -/
def errorNumber (code : UInt32) : UInt32 := if code < 0x80000000 then code else 0 - code

/-- Why the system refused an operation. -/
def refusalOf : IO.Error → Refusal
  | .noFileOrDirectory .. => .missing
  | .alreadyExists .. => .alreadyThere
  | .inappropriateType _ code _ =>
    if errorNumber code = 21 then .isDirectory else .notDirectory
  | .invalidArgument _ code _ => if errorNumber code = 36 then .tooLong else .malformed
  | .resourceExhausted _ code _ =>
    if errorNumber code = 28 then .noRoom else .other "resource exhausted"
  | .permissionDenied .. => .other "permission denied"
  | e => .other (toString e)

/-- Does something unless the system refuses it. -/
def attempt {α : Type} (action : IO α) : IO (Except Refusal α) := do
  try
    return .ok (← action)
  catch e =>
    return .error (refusalOf e)

/-- Whether a path leads to a directory; `none` if it leads to nothing. -/
def isDirectory? (path : String) : IO (Option Bool) := do
  try
    let place ← IO.FS.realPath path
    if ← place.pathExists then return some (← place.isDir) else return none
  catch _ =>
    return none

/-- The operations of the system that the tools run on. -/
def system : System IO where
  read path := attempt do return (← IO.FS.readBinFile path).toList
  write path content := attempt (IO.FS.writeBinFile path (ByteArray.mk content.toArray))
  touch path := attempt (IO.FS.withFile path .append fun _ => pure ())
  newDirectory path := attempt (IO.FS.createDir path)
  isDirectory? := isDirectory?
  out text := do
    let stream ← IO.getStdout
    stream.putStr text
    stream.flush
  err text := do (← IO.getStderr).putStr text

/-- Reads bytes up to a line end; `none` at the end of the input or of a line that is too
long. -/
partial def nextLine (input : IO.FS.Stream) (seen : ByteArray) : IO (Option (List UInt8)) := do
  let next ← input.read 1
  if next.isEmpty then return if seen.isEmpty then none else some seen.toList
  else if next.data.toList == [0x0A] then return some (Console.withoutReturn seen.toList)
  else if Console.lineLimit ≤ seen.size + 1 then return none
  else nextLine input (seen ++ next)

/-- Holds a console until its input ends or a line asks to leave. -/
partial def converse (input : IO.FS.Stream) (m : Machine) : IO Unit := do
  system.out Console.prompt
  match ← nextLine input ByteArray.empty with
  | none => return
  | some line =>
    match Console.respond m (Console.trimmed line) with
    | none => return
    | some (n, answer) =>
      system.out answer
      converse input n

/-- Runs programs, or holds a console. -/
def runPrograms (arguments : List String) : IO Nat := do
  let places := Settings.placesFrom (toString (← IO.currentDir))
  match ← Runner.start system places arguments with
  | .leave status => return status
  | .console m =>
    converse (← IO.getStdin) m
    return 0

end WindowMachine.Host

def main (arguments : List String) : IO UInt32 := do
  let status ←
    match arguments with
    | "yasm" :: rest => WindowMachine.Assembler.perform WindowMachine.Host.system rest
    | "yavm" :: rest => WindowMachine.Host.runPrograms rest
    | arguments => WindowMachine.Host.runPrograms arguments
  return UInt32.ofNat status
