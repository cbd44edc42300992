import WindowMachine.Settings

/-!
What a tool asks of the system it runs on, and a system that is held in memory.
-/

namespace WindowMachine

/-- The operations of a system, in a monad in which they take effect. -/
structure System (m : Type → Type) where
  /-- Reads a file. -/
  read : String → m (Except Refusal (List UInt8))
  /-- Writes a file. -/
  write : String → List UInt8 → m (Except Refusal Unit)
  /-- Makes sure that a file is there to be added to. -/
  touch : String → m (Except Refusal Unit)
  /-- Makes a directory inside one that exists. -/
  newDirectory : String → m (Except Refusal Unit)
  /-- Whether a path leads to a directory; `none` if it leads to nothing. -/
  isDirectory? : String → m (Option Bool)
  /-- Writes to the output. -/
  out : String → m Unit
  /-- Writes to the error output. -/
  err : String → m Unit

namespace System

section
variable {m : Type → Type} [Monad m]

/-! ## Files -/

/-- Reads a file. -/
def load (sys : System m) (path : String) : m (Except FileTrouble (List UInt8)) := do
  return (← sys.read path).mapError (FileTrouble.ofRead path)

/-- Writes a file. -/
def save (sys : System m) (path : String) (content : List UInt8) :
    m (Except FileTrouble Unit) := do
  return (← sys.write path content).mapError (FileTrouble.ofWrite path)

/-- Makes sure that a file is there to be added to. -/
def openToAdd (sys : System m) (path : String) : m (Except FileTrouble Unit) := do
  return (← sys.touch path).mapError (FileTrouble.ofWrite path)

/-- Makes a directory inside one that exists, unless it is there. -/
def makeDirectory (sys : System m) (path : String) : m (Except FileTrouble Unit) := do
  match ← sys.newDirectory path with
  | .ok () => return .ok ()
  | .error refusal =>
    if (← sys.isDirectory? path) == some true then return .ok ()
    else return .error (.ofMake path refusal)

/-- Makes the first of some directories, each of which lies in the one after it, and before it
those of the others that are not there. -/
def makeNested (sys : System m) : List String → m (Except FileTrouble Unit)
  | [] => return .ok ()
  | path :: around => do
    match ← sys.isDirectory? path with
    | some true => return .ok ()
    | some false => return .error (.ofMake path .notDirectory)
    | none =>
      match ← sys.makeNested around with
      | .error trouble => return .error trouble
      | .ok () => sys.makeDirectory path

/-- Makes a directory and those on the way to it. -/
def makeDirectories (sys : System m) (path : String) : m (Except FileTrouble Unit) :=
  sys.makeNested (path :: FilePath.fronts path)

/-! ## Settings -/

/-- The first of some paths that leads to something. -/
def firstThere? (sys : System m) : List String → m (Option String)
  | [] => pure none
  | path :: rest => do
    if (← sys.isDirectory? path).isSome then return some path else sys.firstThere? rest

/-- The settings of a document at a path. -/
def settingsAt (sys : System m) (path : String) : m (Except SettingsFault Settings) := do
  return Settings.ofFile path (← sys.load path)

/-- The settings of the first document among some paths, or the defaults. -/
def settingsAmong (sys : System m) (paths : List String) :
    m (Except SettingsFault Settings) := do
  match ← sys.firstThere? paths with
  | some path => sys.settingsAt path
  | none => return .ok {}

end

end System

/-- A system held in memory: its files and what was written to its outputs. -/
structure World where
  tree : Tree := .empty
  out : String := ""
  err : String := ""

namespace World

/-- Does something with the files, if it is not refused. -/
def attempt {α : Type} (f : Tree → Except Refusal (α × Tree)) :
    StateM World (Except Refusal α) := do
  let w ← get
  match f w.tree with
  | .ok (a, tree) =>
    set { w with tree := tree }
    return .ok a
  | .error refusal => return .error refusal

/-- Changes the files, if the change is not refused. -/
def change (f : Tree → Except Refusal Tree) : StateM World (Except Refusal Unit) :=
  attempt fun tree => (f tree).map fun tree => ((), tree)

/-- The operations of a system held in memory. -/
def system : System (StateM World) where
  read path := attempt fun tree => tree.read path
  write path content := change fun tree => tree.write path content
  touch path := change fun tree => tree.touch path
  newDirectory path := change fun tree => tree.newDirectory path
  isDirectory? path := return ((← get).tree.find path).toOption.map (· == .directory)
  out text := modify fun w => { w with out := w.out ++ text }
  err text := modify fun w => { w with err := w.err ++ text }

end World

end WindowMachine
