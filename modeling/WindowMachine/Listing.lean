import WindowMachine.Image
import WindowMachine.Quicksort

/-!
Listings: code and images as text, one instruction a line with its address and its word.
-/

namespace WindowMachine.Listing

/-- The address that a jump at an address leads to, behind a semicolon. -/
def targetText (address : Nat) (i : Instruction) : String :=
  match Operation.ofByte? i.opcode with
  | some .jumpIf | some .jump =>
    "  ; -> " ++ Numeral.upperHex 4 ((address : Int) + 1 + i.imm.toInt)
  | _ => ""

/-- The line of a word at an address. -/
def wordLine (address : Nat) (w : Word) : String :=
  let i := Instruction.decode w
  Numeral.upperHex 4 address ++ ": " ++ Numeral.upperHex 8 w.toNat ++ "  " ++ i.text ++
    targetText address i

/-- The lines of code. -/
def codeLines (code : Array Word) : List String :=
  (code.mapIdx wordLine).toList

/-- Lines as a text. -/
def ofLines (lines : List String) : String :=
  lines.foldl (fun text line => text ++ line ++ "\n") ""

/-- Code as text. -/
def ofCode (code : Array Word) : String :=
  ofLines (codeLines code)

/-- The name of a method, made up from its index if it has none. -/
def methodName (m : NamedMethod) : String :=
  if m.name = "" then "m" ++ Numeral.ofInt m.index.toInt else m.name

/-- The line that declares a method. -/
def methodLine (m : NamedMethod) : String :=
  ".method " ++ methodName m ++ ", " ++ Numeral.ofInt m.args.toInt ++ ", " ++
    Numeral.ofInt m.locals.toInt ++ ", " ++ Numeral.ofInt m.index.toInt

/-- Methods in the order of their index. Where indexes repeat, the sort decides about the order
of methods that share one. -/
def byIndex (methods : List NamedMethod) : List NamedMethod :=
  if (methods.map (·.index)).Nodup then methods.mergeSort fun a b => a.index ≤ b.index
  else Quicksort.sort (fun a b => decide (a.index < b.index)) methods

/-- The methods that start at an address, in the order of their index. -/
def methodsAt (img : Image) (address : Nat) : List NamedMethod :=
  byIndex (img.methods.toList.filter fun m => m.entry.toInt == (address : Int))

/-- The lines that stand before an address: the methods that start there, each after an empty
line, and the mark of the entry address. -/
def linesBefore (img : Image) (address : Nat) : List String :=
  (methodsAt img address).flatMap (fun m => ["", methodLine m]) ++
    if img.entry.toInt = (address : Int) then ["; entry"] else []

/-- The line of the seed of a global. -/
def globalLine (g : GlobalSeed) : String :=
  ".global " ++ Numeral.ofInt g.index.toInt ++ ", " ++ Numeral.ofInt g.value.toInt

/-- The line of the seed of a stack slot. -/
def stackLine (s : StackSeed) : String :=
  ".stack " ++ Numeral.ofInt s.index.toInt ++ ", " ++
    Numeral.ofInt (Slot.asInt s.bits).toInt

/-- The line that a listing starts with. -/
def headerLine (img : Image) : String :=
  "; entry " ++ Numeral.upperHex 4 img.entry.toInt ++ ", " ++
    Numeral.ofNat img.words.size ++ " words"

/-- The lines of an image: a header, its data, and its code with the methods in between. -/
def imageLines (img : Image) : List String :=
  let code := img.words
  let globals := img.globals.toList.map globalLine
  let stack := img.stack.toList.map stackLine
  let body := (code.mapIdx fun address w =>
    linesBefore img address ++ [wordLine address w]).toList.flatten
  headerLine img :: (globals ++ stack ++ body ++ linesBefore img code.size)

/-- An image as text. -/
def ofImage (img : Image) : String :=
  ofLines (imageLines img)

/-! ## By way of the text of the code -/

/-- The parts of a text that end with a stop, each with that stop, and what follows the last
one. -/
def partsAfter (stop : Char) : List Char → List (List Char)
  | [] => [[]]
  | c :: rest =>
    if c = stop then [c] :: partsAfter stop rest
    else
      match partsAfter stop rest with
      | [] => [[c]]
      | part :: more => (c :: part) :: more

/-- A text split after each stop. -/
def splitAfter (stop : Char) (text : String) : List String :=
  (partsAfter stop text.toList).map String.ofList

/-- What stands before an address. -/
def textBefore (img : Image) (address : Nat) : String :=
  (methodsAt img address).foldl (fun text m => text ++ "\n" ++ methodLine m ++ "\n") "" ++
    if img.entry.toInt = (address : Int) then "; entry\n" else ""

/-- The parts of a text from an address on, each with what stands before it. -/
def mergeFrom (img : Image) (address : Nat) : List String → String
  | [] => ""
  | part :: rest => textBefore img address ++ part ++ mergeFrom img (address + 1) rest

/-- An image as text, got by splitting the text of its code and putting the methods in
between. -/
def merged (img : Image) : String :=
  headerLine img ++ "\n" ++
    ofLines (img.globals.toList.map globalLine) ++
    ofLines (img.stack.toList.map stackLine) ++
    mergeFrom img 0 (splitAfter '\n' (ofCode img.words))

end WindowMachine.Listing
