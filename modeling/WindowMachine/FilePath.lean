/-!
The texts of paths: their parts, their shortest forms, and the way that they describe.
-/

namespace WindowMachine

namespace FilePath

/-- The components of a path as written, empty ones included. -/
def components (path : String) : List String :=
  (path.toList.splitOnP (· == '/')).map String.ofList

/-- The components that are left after dots, double dots and empty components are worked off.
Double dots at the front of a relative path stay. -/
def simplified (rooted : Bool) (parts : List String) : List String :=
  (parts.foldl
    (fun done part =>
      if part = "" ∨ part = "." then done
      else if part = ".." then
        match done with
        | last :: rest => if last = ".." then ".." :: done else rest
        | [] => if rooted then [] else [".."]
      else part :: done) []).reverse

/-- Whether a path starts at the root. -/
def isRooted (path : String) : Bool := path.toList.head? == some '/'

/-- A path in its shortest form. -/
def clean (path : String) : String :=
  let rooted := isRooted path
  let parts := simplified rooted (components path)
  if rooted then "/" ++ String.intercalate "/" parts
  else if parts.isEmpty then "."
  else String.intercalate "/" parts

/-- A path inside a directory, in its shortest form. -/
def join (dir path : String) : String :=
  if dir = "" then if path = "" then "" else clean path
  else if path = "" then clean dir
  else clean (dir ++ "/" ++ path)

/-- The last component of a path, slashes at its end aside. -/
def base (path : String) : String :=
  if path = "" then "."
  else
    match (components path).reverse.dropWhile (· == "") with
    | last :: _ => last
    | [] => "/"

/-- The last component of a path from its last dot on. -/
def extension (path : String) : String :=
  let last := (path.toList.reverse.takeWhile (· != '/')).reverse
  if last.contains '.' then
    "." ++ String.ofList (last.reverse.takeWhile (· != '.')).reverse
  else ""

/-- A text without an ending, if it has that ending. -/
def withoutSuffix (text ending : String) : String :=
  let cs := text.toList
  let es := ending.toList
  if es.isSuffixOf cs then String.ofList (cs.take (cs.length - es.length)) else text

/-- Whether a component leads nowhere new: to the directory that it stands in, or to the one
around that. -/
def isDots (part : String) : Bool := part == "." || part == ".."

/-- The texts before the components of a path, the first aside, each without one slash of those
that divide it from the component; longest first. The characters come from last to first. -/
def frontsOfReversed : List Char → List String
  | [] => []
  | c :: before =>
    match before with
    | '/' :: front =>
      if c != '/' && !front.isEmpty then
        String.ofList front.reverse :: frontsOfReversed before
      else frontsOfReversed before
    | _ => frontsOfReversed before

/-- The paths to the directories on the way to a path, the nearest first. -/
def fronts (path : String) : List String := frontsOfReversed path.toList.reverse

end FilePath

/-- A path as it is followed. -/
structure Route where
  /-- Whether it starts at the root, and not at the working directory. -/
  rooted : Bool
  /-- The components before the last. -/
  way : List String
  /-- The last component; only slashes have none. -/
  last : Option String
  /-- Whether a slash follows the last component. -/
  slashed : Bool
  deriving DecidableEq, Repr

/-- Takes a path apart. -/
def Route.ofPath (path : String) : Route :=
  let parts := (FilePath.components path).filter (· != "")
  { rooted := FilePath.isRooted path, way := parts.dropLast, last := parts.getLast?
    slashed := path.toList.getLast? == some '/' }

end WindowMachine
