import WindowMachine.Assembly
import WindowMachine.Listing
import WindowMachine.Text.Blank

/-!
The console: each line is assembled and run as a program of its own on a machine that stays.
-/

namespace WindowMachine.Console

def greeting : String :=
  "YAVM\nType 'help' for commands, 'quit' to exit\n\n"

def prompt : String := "yavm> "

def help : String :=
  "Commands:
  quit     - Exit REPL
  stack    - Show stack up to sp
  frame    - Show bp, sp and pc
  clear    - Reset stack, globals and frames
  debug    - Toggle instruction tracing
  help     - Show this help

Instructions (one per line, registers are r0..r255):
  Integer: add sub mul div mod exp rA, rB, rC    sqrt rA, rB
  Imm:     addimm subimm mulimm divimm modimm expimm sqrtimm rA, n
  Float:   fadd fsub fmul fdiv fmod fexp rA, rB, rC    fsqrt rA, rB
  Moves:   push pop rA   mov rA, rB   movimm16 rA, n   loadg/setg rA, g
  Compare: cmp gt gte rA, rB (skip next when true)
  Control: je rA, off   jmp off   call m   ret rA   loadret rA
  I/O:     print rA

Each line runs as its own program. Registers, globals and pushed values
persist between lines; a .method only applies to the line that declares it.

Example:
  movimm16 r0, 5
  mulimm r0, 3
  print r0          ; prints 15
"

/-! ## One line -/

/-- A line as a program: what it says, and an end. -/
def program (line : List UInt8) : List UInt8 :=
  line ++ Utf8.ofString "\nend"

/-- Runs the program of a line on a machine and shows what it printed and the stack, or the
failure. A program that fails while it runs leaves the machine reset; one whose data are
refused does not. -/
def runImage (m : Machine) (img : Image) : Machine × String :=
  let listing := if m.tracing then Listing.ofCode img.words else ""
  match img.applyTo m with
  | (m, some why) => (m, listing ++ "Error: " ++ why.message ++ "\n")
  | (m, none) =>
    let r := { m with output := "", trace := #[] }.proceed img.words img.entry
    let shown := listing ++ r.machine.output
    match r.ending.failure? with
    | some why => (r.machine.reset, shown ++ "Error: " ++ why.message ++ "\n")
    | none => (r.machine, shown ++ "-> " ++ r.machine.stackText ++ "\n")

/-- Assembles and runs a line. -/
def runLine (m : Machine) (line : List UInt8) : Machine × String :=
  match assemble (program line) with
  | .error fault => (m, "Error: " ++ fault.message "" ++ "\n")
  | .ok img => runImage m img

/-- Answers a line without blanks at its ends, or ends the session. -/
def respond (m : Machine) (line : List UInt8) : Option (Machine × String) :=
  let is (word : String) : Bool := line == Utf8.ofString word
  if line.isEmpty then some (m, "")
  else if is "quit" || is "exit" then none
  else if is "help" then some (m, help)
  else if is "stack" then some (m, m.stackText ++ "\n")
  else if is "frame" then some (m, m.frame.text ++ "\n")
  else if is "clear" then some (m.reset, "Cleared\n")
  else if is "debug" then
    let on := !m.tracing
    some ({ m with tracing := on }, "Debug: " ++ (if on then "true" else "false") ++ "\n")
  else some (runLine m line)

/-! ## Sessions -/

/-- A line without blanks at its ends. -/
def trimmed (line : List UInt8) : List UInt8 :=
  Utf8.trimmed Text.isBlank line

/-- The text of a session on a machine with the given lines, and the machine after it. -/
def session (m : Machine) (text : String) : List (List UInt8) → Machine × String
  | [] => (m, text ++ prompt)
  | line :: rest =>
    match respond m (trimmed line) with
    | none => (m, text ++ prompt)
    | some (n, answer) => session n (text ++ prompt ++ answer) rest

/-- The length at which a line is too long to be read. -/
def lineLimit : Nat := 65536

/-- A line without a carriage return at its end. -/
def withoutReturn (line : List UInt8) : List UInt8 :=
  if line.getLast? = some 0x0D then line.dropLast else line

/-- The lines of an input after those in `seen`, up to one that is too long. -/
def linesFrom : Nat → Array (List UInt8) → List UInt8 → Array (List UInt8)
  | _, seen, [] => seen
  | 0, seen, _ => seen
  | fuel + 1, seen, input =>
    let line := input.takeWhile (· != 0x0A)
    if lineLimit ≤ line.length then seen
    else linesFrom fuel (seen.push (withoutReturn line)) (input.drop (line.length + 1))

/-- The lines of an input. Nothing after a line that is too long is read. -/
def lines (input : List UInt8) : List (List UInt8) :=
  (linesFrom input.length #[] input).toList

end WindowMachine.Console
