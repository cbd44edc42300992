import WindowMachine.Batch
import WindowMachine.Console
import WindowMachine.Flags
import WindowMachine.Tool.Program

/-!
The tool that runs programs: one, several at once, or lines of a console.
-/

namespace WindowMachine.Runner

def name : String := "yavm"

def flags : List Flag :=
  [⟨"config", "Config file (default: nearest yavm.toml)", .text ""⟩,
   ⟨"debug", "Trace every instruction", .switch false⟩,
   ⟨"steps", "Instruction budget (0 = unlimited, default from config)", .number (-1)⟩,
   ⟨"disasm", "Disassemble instead of run", .switch false⟩,
   ⟨"j", "Parallel runs when several files are given (default from config)", .number 0⟩,
   ⟨"q", "Skip the post-run report", .switch false⟩]

/-- The status of a command line that cannot be read. -/
def usageStatus : Nat := 2

/-- The status of settings or capacities that cannot be used. -/
def configurationStatus : Nat := Condition.indexOutOfRange.code

/-- What is shown after a run; a batch shows no stack. -/
def report (steps : Nat) (frame : Frame) (result : Int32) (stack : Option String) : String :=
  "\nInstructions: " ++ Numeral.ofNat steps ++ "\nFrame:        " ++ frame.text ++
    "\nReturn:       " ++ Numeral.ofInt result.toInt ++ "\n" ++
    match stack with
    | some text => "Stack:        " ++ text ++ "\n"
    | none => ""

/-- The status of a run. -/
def status : Option Failure → Nat
  | none => 0
  | some why => why.code

/-- The settings after the flags that change them. -/
def adjusted (s : Settings) (c : CommandLine) : Settings :=
  let steps := c.number "steps"
  let workers := c.number "j"
  { s with
    machine :=
      { s.machine with
        budget := if 0 ≤ steps then Int64.ofInt steps else s.machine.budget }
    workers := if 0 < workers then Int64.ofInt workers else s.workers }

/-! ## Running -/

/-- What a tool run leaves: its outputs and its status. -/
structure Outcome where
  out : String := ""
  err : String := ""
  status : Nat := 0
  deriving DecidableEq, Repr

/-- Runs one program. -/
def runOne (s : Settings) (job : Job) (tracing quiet : Bool) : Outcome :=
  match Machine.new s.machine with
  | .error why => { err := "Error: " ++ why.message ++ "\n", status := configurationStatus }
  | .ok m =>
    let r := job.image.runOn { m with tracing := tracing }
    let n := r.machine
    { out :=
        n.output ++
          (if quiet then "" else report r.count n.frame n.result (some n.stackText))
      err :=
        match r.ending.failure? with
        | some why => "Runtime error: " ++ why.message ++ "\n"
        | none => ""
      status := status r.ending.failure? }

/-- Adds the result of a job to what a batch has shown. The status is that of the first
failure. -/
def showResult (quiet : Bool) (o : Outcome) (r : JobResult) : Outcome :=
  { out :=
      o.out ++ "=== " ++ r.name ++ " ===\n" ++ r.output ++
        (if quiet then "" else report r.steps r.frame r.result none)
    err :=
      match r.failure with
      | some why => o.err ++ r.name ++ ": " ++ why.message ++ "\n"
      | none => o.err
    status := if o.status = 0 then status r.failure else o.status }

/-- Runs several programs. -/
def runBatch (s : Settings) (jobs : List Job) (tracing quiet : Bool) : Outcome :=
  let b := { Batch.ofWorkers s.machine s.workers with tracing := tracing }
  (b.run false jobs).1.foldl (showResult quiet) {}

/-- The listings of some programs, under their names if there are several. -/
def listings (jobs : List Job) : String :=
  jobs.foldl
    (fun text job =>
      text ++ (if 1 < jobs.length then "=== " ++ job.name ++ " ===\n" else "") ++
        Listing.ofImage job.image) ""

/-- Does what the flags ask with some programs. -/
def withJobs (s : Settings) (c : CommandLine) (jobs : List Job) : Outcome :=
  if c.switch "disasm" then { out := listings jobs }
  else
    match jobs with
    | [job] => runOne s job (c.switch "debug") (c.switch "q")
    | jobs => runBatch s jobs (c.switch "debug") (c.switch "q")

/-- The machine of a console. -/
def consoleMachine (s : Settings) (c : CommandLine) : Except Failure Machine :=
  (Machine.new s.machine).map fun m => { m with tracing := c.switch "debug" }

/-! ## The command line -/

section
variable {m : Type → Type} [Monad m]

/-- Reads the programs of some paths, up to the first that has none. -/
def jobsOf (sys : System m) (seen : Array Job) : List String → m (Except ProgramFault (List Job))
  | [] => return .ok seen.toList
  | path :: rest => do
    match Program.ofRead (Program.ofBytes path) (← sys.load path) with
    | .ok img => jobsOf sys (seen.push ⟨path, img⟩) rest
    | .error fault => return .error fault

/-- What is left to do after the command line and the settings are read: nothing but to leave
with a status, or to hold a console. -/
inductive Next where
  | leave (status : Nat)
  | console (machine : Machine)
  deriving DecidableEq, Repr

/-- Shows an outcome and leaves with its status. -/
def finish (sys : System m) (o : Outcome) : m Next := do
  sys.out o.out
  sys.err o.err
  return .leave o.status

/-- Opens the log, if there is one to be written to a file. Tracing always writes one. -/
def openLog (sys : System m) (s : Settings) (tracing : Bool) : m (Except FileTrouble Unit) :=
  match s.logFile? with
  | some path =>
    if tracing || Settings.silence < s.verbosity then sys.openToAdd path else return .ok ()
  | none => return .ok ()

/-- Runs the programs of a command line, or prepares a console if it names none. -/
def withSettings (sys : System m) (s : Settings) (c : CommandLine) : m Next := do
  match c.arguments with
  | [] =>
    sys.out Console.greeting
    match consoleMachine s c with
    | .ok machine => return .console machine
    | .error why =>
      finish sys { err := "Error: " ++ why.message ++ "\n", status := Condition.otherCode }
  | paths =>
    match ← jobsOf sys #[] paths with
    | .error fault =>
      finish sys { err := "Error: " ++ fault.message ++ "\n", status := Condition.otherCode }
    | .ok jobs => finish sys (withJobs s c jobs)

/-- Starts the tool; `places` are the paths at which settings are looked for. -/
def start (sys : System m) (places arguments : List String) : m Next := do
  match Flag.read flags arguments with
  | .error .help =>
    finish sys { err := Flag.usageText name flags }
  | .error (.wrong message) =>
    finish sys
      { err := message ++ "\n" ++ Flag.usageText name flags, status := usageStatus }
  | .ok c =>
    let path := c.text "config"
    let settings ← if path = "" then sys.settingsAmong places else sys.settingsAt path
    match settings with
    | .error fault =>
      finish sys
        { err := "Config error: " ++ fault.message ++ "\n", status := configurationStatus }
    | .ok s =>
      match ← openLog sys s (c.switch "debug") with
      | .error trouble =>
        finish sys { err := "log file error: " ++ trouble.message ++ "\n", status := 1 }
      | .ok () => withSettings sys (adjusted s c) c

end

/-- Runs the tool to its end on a system held in memory. A console takes what is left of the
input. -/
def perform (places arguments : List String) : StateM World Nat := do
  match ← start World.system places arguments with
  | .leave status => return status
  | .console machine =>
    World.system.out (Console.session machine "" (Console.lines (← get).tree.input)).2
    return 0

end WindowMachine.Runner
