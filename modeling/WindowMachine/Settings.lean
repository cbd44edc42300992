import WindowMachine.Capacities
import WindowMachine.Files
import WindowMachine.Toml.Document

/-!
Settings: the capacities of every machine, what is logged and how many programs run at once,
as a settings document gives them.
-/

namespace WindowMachine

/-- The settings of the tools. -/
structure Settings where
  machine : Capacities := {}
  verbosity : Int64 := 0
  /-- The file that log lines go to; empty for none. -/
  logFile : String := ""
  /-- How many programs of a batch run at once. -/
  workers : Int64 := 4
  /-- Where the settings were read from; empty if nowhere. -/
  path : String := ""
  deriving DecidableEq, Repr

/-- Why settings cannot be used. -/
inductive SettingsFault where
  | unreadable (path : String) (trouble : FileTrouble)
  /-- The document is malformed, or a value has the wrong type. -/
  | malformed (path : String)
  | unusable (path : String) (defect : Capacities.Defect)
  | workers (path : String) (count : Int64)
  deriving DecidableEq, Repr

def SettingsFault.message : SettingsFault → String
  | .unreadable path trouble => "cannot read " ++ path ++ ": " ++ trouble.message
  | .malformed path => "parse error in " ++ path ++ ": malformed document"
  | .unusable path defect => path ++ ": " ++ defect.message
  | .workers path count =>
    path ++ ": batch workers must be at least 1, got " ++ Numeral.ofInt count.toInt

namespace Settings

/-- The name of the settings document that is looked for. -/
def fileName : String := "yavm.toml"

/-! ## From a document -/

/-- A character in the case in which keys are compared; the long s and the Kelvin sign count
as the letters they look like. -/
def foldedChar (c : Char) : Char :=
  if c.toNat = 0x17F then 's' else if c.toNat = 0x212A then 'k' else c.toLower

/-- Whether a key names a setting, in any case. -/
def names (key setting : String) : Bool :=
  key.toList.map foldedChar == setting.toList

/-- An integer setting. -/
def integer? : Toml.Value → Option Int64
  | .integer n => some (Int64.ofInt n)
  | _ => none

/-- A text setting. -/
def text? : Toml.Value → Option String
  | .string s => some s
  | _ => none

/-- Applies the entries of a table in turn, each by its key. -/
def applyTable? {α : Type} (set : α → String → Toml.Value → Option α) (start : α) :
    Toml.Value → Option α
  | .table entries => entries.foldlM (fun acc (key, v) => set acc key v) start
  | _ => none

/-- A setting of the machines. -/
def setMachine? (c : Capacities) (key : String) (v : Toml.Value) : Option Capacities :=
  if names key "stack_size" then (integer? v).map fun n => { c with stack := n }
  else if names key "call_depth" then (integer? v).map fun n => { c with depth := n }
  else if names key "methods" then (integer? v).map fun n => { c with methods := n }
  else if names key "globals" then (integer? v).map fun n => { c with globals := n }
  else if names key "entry_sp" then (integer? v).map fun n => { c with entryTop := n }
  else if names key "max_steps" then (integer? v).map fun n => { c with budget := n }
  else some c

/-- A setting of the log. -/
def setLog? (s : Settings) (key : String) (v : Toml.Value) : Option Settings :=
  if names key "verbosity" then (integer? v).map fun n => { s with verbosity := n }
  else if names key "file" then (text? v).map fun t => { s with logFile := t }
  else some s

/-- A setting of batches. -/
def setBatch? (s : Settings) (key : String) (v : Toml.Value) : Option Settings :=
  if names key "workers" then (integer? v).map fun n => { s with workers := n }
  else some s

/-- A section of a document. Sections and settings of other names are passed over. -/
def setSection? (s : Settings) (key : String) (v : Toml.Value) : Option Settings :=
  if names key "vm" then
    (applyTable? setMachine? s.machine v).map fun c => { s with machine := c }
  else if names key "log" then applyTable? setLog? s v
  else if names key "batch" then applyTable? setBatch? s v
  else some s

/-- The settings of a document; what it does not mention keeps its default. -/
def ofDocument? (bytes : List UInt8) : Option Settings := do
  applyTable? setSection? {} (.table (← Toml.parse? bytes))

/-- Checks that settings can be used. -/
def check (s : Settings) : Except SettingsFault Settings :=
  match s.machine.defect? with
  | some defect => .error (.unusable s.path defect)
  | none => if s.workers < 1 then .error (.workers s.path s.workers) else .ok s

/-- The settings of a document that was read from a path. -/
def ofFile (path : String) : Except FileTrouble (List UInt8) → Except SettingsFault Settings
  | .error trouble => .error (.unreadable path trouble)
  | .ok bytes =>
    match ofDocument? bytes with
    | none => .error (.malformed path)
    | some s => check { s with path := path }

/-! ## Looking for a document -/

/-- The paths of a settings document from a directory upwards, nearest first. A directory
above the one that paths are relative to has none. -/
def placesFrom (directory : String) : List String :=
  let rooted := FilePath.isRooted directory
  let parts := FilePath.simplified rooted (FilePath.components directory)
  if parts.contains ".." then []
  else
    (List.range (parts.length + 1)).map fun n =>
      (if rooted then "/" else "") ++
        String.intercalate "/" (parts.take (parts.length - n) ++ [fileName])

/-- The verbosity at which, and below which, nothing is logged. -/
def silence : Int64 := -4

/-- The file that log lines go to. -/
def logFile? (s : Settings) : Option String :=
  if s.logFile = "" then none else some s.logFile

end Settings

end WindowMachine
