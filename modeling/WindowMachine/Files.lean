import WindowMachine.FilePath

/-!
Files and directories: what can be wrong with a path, and a tree of files held in memory.
-/

namespace WindowMachine

/-! ## Trouble -/

/-- Why a file operation was refused. -/
inductive Refusal where
  | missing
  | isDirectory
  | notDirectory
  /-- Something is there that was to be made. -/
  | alreadyThere
  /-- A path or a component is longer than the system takes. -/
  | tooLong
  /-- A path with a character that no path has. -/
  | malformed
  /-- There is no room for what was to be written. -/
  | noRoom
  /-- Something else, in the words of the system. -/
  | other (text : String)
  deriving DecidableEq, Repr

def Refusal.message : Refusal → String
  | .missing => "no such file or directory"
  | .isDirectory => "is a directory"
  | .notDirectory => "not a directory"
  | .alreadyThere => "file exists"
  | .tooLong => "file name too long"
  | .malformed => "invalid argument"
  | .noRoom => "no space left on device"
  | .other text => text

/-- A refused operation on a path. -/
structure FileTrouble where
  operation : String
  path : String
  refusal : Refusal
  deriving DecidableEq, Repr

def FileTrouble.message (t : FileTrouble) : String :=
  t.operation ++ " " ++ t.path ++ ": " ++ t.refusal.message

/-- The trouble of reading a file: a directory can be opened, but not read. -/
def FileTrouble.ofRead (path : String) : Refusal → FileTrouble
  | .isDirectory => ⟨"read", path, .isDirectory⟩
  | refusal => ⟨"open", path, refusal⟩

/-- The trouble of writing a file: only one that is open can run out of room. -/
def FileTrouble.ofWrite (path : String) : Refusal → FileTrouble
  | .noRoom => ⟨"write", path, .noRoom⟩
  | refusal => ⟨"open", path, refusal⟩

/-- The trouble of making a directory. -/
def FileTrouble.ofMake (path : String) (refusal : Refusal) : FileTrouble :=
  ⟨"mkdir", path, refusal⟩

/-! ## Trees -/

/-- What stands at a place of a tree. -/
inductive Node where
  | directory
  | file (content : List UInt8)
  /-- A file that takes everything and holds nothing. -/
  | sink
  /-- A file that takes nothing. -/
  | full
  /-- The input of the program. -/
  | input
  deriving DecidableEq, Repr

/-- A place of a tree: the names of the directories around it, from the root, and its own. -/
abbrev Place := List String

/-- Files and directories below a root, which is always there. Paths that are not rooted start
at the working directory. -/
structure Tree where
  nodes : List (Place × Node)
  home : Place
  /-- What is left of the input of the program; reading it leaves nothing. -/
  input : List UInt8 := []
  deriving Repr

namespace Tree

/-- The most bytes that a component of a path may have. -/
def longestName : Nat := 255

/-- The number of bytes that a path must stay below. -/
def pathLimit : Nat := 4096

/-- The directories that stand below the root of every system. -/
def usual : List String :=
  ["bin", "dev", "etc", "home", "lib", "opt", "proc", "root", "run", "sys", "tmp", "usr", "var"]

/-- The streams of the program by their numbers: its input and its two outputs. Nothing reads
the outputs, and what is written to them as files is not kept. -/
def streams : List (String × Node) := [("0", .input), ("1", .sink), ("2", .sink)]

/-- The files that stand for devices and streams, and the directories around them. -/
def devices : List (Place × Node) :=
  [(["dev", "null"], .sink), (["dev", "full"], .full), (["dev", "stdin"], .input),
   (["dev", "stdout"], .sink), (["dev", "stderr"], .sink), (["dev", "fd"], .directory),
   (["proc", "self"], .directory), (["proc", "self", "fd"], .directory)] ++
  streams.flatMap fun (number, node) =>
    [(["dev", "fd", number], node), (["proc", "self", "fd", number], node)]

/-- A tree with an empty working directory. -/
def empty : Tree :=
  { nodes :=
      (["tmp", "work"], .directory) :: devices ++ usual.map fun name => ([name], .directory)
    home := ["tmp", "work"] }

/-- What stands at a place. -/
def node? (t : Tree) (place : Place) : Option Node :=
  if place = [] then some .directory else t.nodes.lookup place

/-- A tree with a node at a place, whatever was there. -/
def put (t : Tree) (place : Place) (node : Node) : Tree :=
  { t with nodes := (place, node) :: t.nodes.filter fun entry => entry.1 != place }

/-! ## Filling a tree -/

/-- A tree with the directories on the way to a place. -/
def withParents (t : Tree) (place : Place) : Tree :=
  (List.range place.length).foldl
    (fun t n => if (t.node? (place.take n)).isSome then t else t.put (place.take n) .directory) t

/-- The place below the working directory that a path names. -/
def placeBelow (t : Tree) (path : String) : Place :=
  t.home ++ FilePath.simplified true (FilePath.components path)

/-- A tree with a file, and with the directories on the way to it. -/
def withFile (t : Tree) (path : String) (content : List UInt8) : Tree :=
  let place := t.placeBelow path
  (t.withParents place).put place (.file content)

/-- A tree with a directory, and with those on the way to it. -/
def withDirectory (t : Tree) (path : String) : Tree :=
  let place := t.placeBelow path
  let t := t.withParents place
  if (t.node? place).isSome then t else t.put place .directory

/-- The files below the working directory, with their paths from there. -/
def files (t : Tree) : List (String × List UInt8) :=
  t.nodes.filterMap fun
    | (place, .file content) =>
      if t.home.isPrefixOf place then
        some (String.intercalate "/" (place.drop t.home.length), content)
      else none
    | _ => none

/-! ## Following paths -/

/-- The place that a component leads to from a directory; the root is around itself. -/
def turn (place : Place) (part : String) : Except Refusal Place :=
  if part = "." then .ok place
  else if part = ".." then .ok place.dropLast
  else if longestName < part.utf8ByteSize then .error .tooLong
  else .ok (place ++ [part])

/-- Follows a component from a directory to a directory. -/
def enter (t : Tree) (place : Place) (part : String) : Except Refusal Place := do
  let next ← turn place part
  match t.node? next with
  | some .directory => return next
  | some _ => throw .notDirectory
  | none => throw .missing

/-- The way that a path describes. A path with a null character is refused before one that is
empty or too long. -/
def route (path : String) : Except Refusal Route :=
  if path.toList.contains (Char.ofNat 0) then .error .malformed
  else if path = "" then .error .missing
  else if pathLimit ≤ path.utf8ByteSize then .error .tooLong
  else .ok (Route.ofPath path)

/-- The directory in which the last component of a route is looked for. -/
def directoryOf (t : Tree) (r : Route) : Except Refusal Place :=
  r.way.foldlM t.enter (if r.rooted then [] else t.home)

/-- What stands at a path. Only a directory may have a slash after it. -/
def find (t : Tree) (path : String) : Except Refusal Node := do
  let r ← route path
  let place ← t.directoryOf r
  match r.last with
  | none => return .directory
  | some part =>
    match t.node? (← turn place part) with
    | none => throw .missing
    | some .directory => return .directory
    | some node => if r.slashed then throw .notDirectory else return node

/-- The place at which a file can be written by a path. The path must not say, by dots or a
slash at its end, that it leads to a directory, and must not lead to one. -/
def target (t : Tree) (path : String) : Except Refusal Place := do
  let r ← route path
  let place ← t.directoryOf r
  match r.last with
  | none => throw .isDirectory
  | some part =>
    if FilePath.isDots part || r.slashed then throw .isDirectory
    let next ← turn place part
    match t.node? next with
    | some .directory => throw .isDirectory
    | _ => return next

/-! ## Operations -/

/-- The content of a file, and the tree after it was read. -/
def read (t : Tree) (path : String) : Except Refusal (List UInt8 × Tree) := do
  match ← t.find path with
  | .file content => return (content, t)
  | .sink | .full => return ([], t)
  | .input => return (t.input, { t with input := [] })
  | .directory => throw .isDirectory

/-- Writes a file, new or not, into a directory that exists. Devices stay what they are. -/
def write (t : Tree) (path : String) (content : List UInt8) : Except Refusal Tree := do
  let place ← t.target path
  match t.node? place with
  | some .sink | some .input => return t
  | some .full => throw .noRoom
  | _ => return t.put place (.file content)

/-- Makes sure that a file can be written, and that it is there; its content stays. -/
def touch (t : Tree) (path : String) : Except Refusal Tree := do
  let place ← t.target path
  match t.node? place with
  | some _ => return t
  | none => return t.put place (.file [])

/-- Makes a directory inside one that exists. -/
def newDirectory (t : Tree) (path : String) : Except Refusal Tree := do
  let r ← route path
  let place ← t.directoryOf r
  match r.last with
  | none => throw .alreadyThere
  | some part =>
    if FilePath.isDots part then throw .alreadyThere
    let next ← turn place part
    match t.node? next with
    | some _ => throw .alreadyThere
    | none => return t.put next .directory

end Tree

end WindowMachine
