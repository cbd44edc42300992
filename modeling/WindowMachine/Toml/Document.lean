import WindowMachine.Text.Utf8
import WindowMachine.Toml.Quotation
import WindowMachine.Toml.Scalar
import WindowMachine.Toml.Scope

/-!
Settings documents (TOML): headers and keys with their values, read into a table.
-/

namespace WindowMachine.Toml

/-! ## Blanks -/

def isBlankChar (c : Char) : Bool := c == ' ' || c == '\t'

def skipBlank (cs : List Char) : List Char := cs.dropWhile isBlankChar

/-- What follows blanks, line ends and comments. -/
def skipSpace (cs : List Char) : List Char :=
  go false cs
where
  go : Bool → List Char → List Char
    | _, [] => []
    | inComment, c :: rest =>
      if isLineEnd c then go false rest
      else if inComment || isBlankChar c then go inComment rest
      else if c = '#' then go true rest
      else c :: rest

/-- What follows the rest of a line that holds nothing more than a comment. -/
def endOfLine? (cs : List Char) : Option (List Char) :=
  match skipBlank cs with
  | [] => some []
  | c :: rest =>
    if c = '#' then some (rest.dropWhile fun c => !isLineEnd c)
    else if isLineEnd c then some rest
    else none

/-! ## Keys -/

def isBareChar (c : Char) : Bool := c.isAlphanum || c == '_' || c == '-'

/-- One part of a key: quoted, or bare. -/
def keyPart? (fuel : Nat) (cs : List Char) : Option (String × List Char) :=
  match cs with
  | '"' :: rest => basic? fuel rest
  | '\'' :: rest => literal? rest
  | _ =>
    let part := cs.takeWhile isBareChar
    if part.isEmpty then none else some (String.ofList part, cs.dropWhile isBareChar)

/-- The parts of a key, divided by dots, after those in `seen`. Each part takes one unit of
fuel. -/
def keyFrom? : Nat → Array String → List Char → Option (Path × List Char)
  | 0, _, _ => none
  | fuel + 1, seen, cs =>
    match keyPart? fuel (skipBlank cs) with
    | none => none
    | some (part, rest) =>
      match skipBlank rest with
      | '.' :: rest => keyFrom? fuel (seen.push part) rest
      | rest => some ((seen.push part).toList, rest)

/-- The parts of a key. -/
def key? (fuel : Nat) (cs : List Char) : Option (Path × List Char) := keyFrom? fuel #[] cs

/-! ## Values -/

def isArray : Value → Bool
  | .array _ => true
  | _ => false

mutual

/-- Reads the value of a key; `inArray` says that it is an element of an array. The result has
the value and the text after it. -/
def value? :
    Nat → String → Bool → List Char → Scope → Option ((Value × List Char) × Scope)
  | 0, _, _, _, _ => none
  | fuel + 1, key, inArray, cs, s =>
    match skipBlank cs with
    | '[' :: rest => items? fuel key #[] rest (s.note key true)
    | '{' :: rest =>
      match (s.imply key true).open? key inArray with
      | none => none
      | some s => s.inside? key (entries? fuel [] rest)
    | '"' :: '"' :: '"' :: rest =>
      (basicLines? fuel rest).map fun (t, rest) => ((.string t, rest), s)
    | '"' :: rest => (basic? fuel rest).map fun (t, rest) => ((.string t, rest), s)
    | '\'' :: '\'' :: '\'' :: rest =>
      (literalLines? fuel rest).map fun (t, rest) => ((.string t, rest), s)
    | '\'' :: rest => (literal? rest).map fun (t, rest) => ((.string t, rest), s)
    | cs => (scalar? cs).map fun result => (result, s)

/-- Reads the elements of an array after those in `seen`. -/
def items? :
    Nat → String → Array Value → List Char → Scope → Option ((Value × List Char) × Scope)
  | 0, _, _, _, _ => none
  | fuel + 1, key, seen, cs, s =>
    match skipSpace cs with
    | ']' :: rest => some ((.array seen.toList, rest), s)
    | cs =>
      match value? fuel key true cs s with
      | none => none
      | some ((v, rest), s) =>
        match skipSpace rest with
        | ',' :: rest => items? fuel key (seen.push v) rest s
        | ']' :: rest => some ((.array (seen.push v).toList, rest), s)
        | _ => none

/-- Reads the entries of an inline table after those in `seen`. -/
def entries? :
    Nat → Table → List Char → Scope → Option ((Value × List Char) × Scope)
  | 0, _, _, _ => none
  | fuel + 1, seen, cs, s =>
    match skipSpace cs with
    | '}' :: rest => some ((.table seen, rest), s)
    | cs =>
      match entry? fuel cs s with
      | none => none
      | some ((path, v, rest), s) =>
        match seen.place? v path with
        | none => none
        | some seen =>
          match skipSpace rest with
          | ',' :: rest => entries? fuel seen rest s
          | '}' :: rest => some ((.table seen, rest), s)
          | _ => none

/-- Reads a key with its value and defines it. The result has the parts of the key, the value
and the text after it. -/
def entry? :
    Nat → List Char → Scope → Option ((Path × Value × List Char) × Scope)
  | 0, _, _ => none
  | fuel + 1, cs, s =>
    match key? fuel cs with
    | some (path, '=' :: rest) =>
      match path.getLast? with
      | none => none
      | some key =>
        s.descending?
          (fun s =>
            match value? fuel key false rest s with
            | none => none
            | some ((v, rest), s) =>
              (s.define? key v).map fun s => ((path, v, rest), s.note key (isArray v)))
          path.dropLast
    | _ => none

end

/-! ## Documents -/

/-- Whether a text goes on with a header, or ends. -/
def atHeader : List Char → Bool
  | [] => true
  | c :: _ => c == '['

/-- Reads entries up to the next header or the end, and gives the text from there. -/
def body? : Nat → List Char → Scope → Option (List Char × Scope)
  | 0, _, _ => none
  | fuel + 1, cs, s =>
    let cs := skipSpace cs
    if atHeader cs then some (cs, s)
    else
      match entry? fuel cs s with
      | none => none
      | some ((_, _, rest), s) =>
        match endOfLine? rest with
        | none => none
        | some rest => body? fuel rest s

/-- Reads the path of a header, its first bracket being read, and whether it is one of repeated
tables. -/
def header? (fuel : Nat) : List Char → Option (Path × Bool × List Char)
  | '[' :: rest =>
    match key? fuel rest with
    | some (path, ']' :: ']' :: rest) => some (path, true, rest)
    | _ => none
  | cs =>
    match key? fuel cs with
    | some (path, ']' :: rest) => some (path, false, rest)
    | _ => none

/-- Reads a header, its first bracket being read, and the entries below it. -/
def section? (fuel : Nat) (cs : List Char) (document : Scope) : Option (List Char × Scope) := do
  let (path, repeated, rest) ← header? fuel cs
  let rest ← endOfLine? rest
  let key ← path.getLast?
  document.reaching?
    (fun s => do
      let s ← s.open? key repeated
      let s := s.withMarks key { s.marksOf key with array := false }
      let rest := skipSpace rest
      if atHeader rest then return (rest, s) else s.inside? key (body? fuel rest))
    path.dropLast

/-- Reads sections to the end. -/
def sections? : Nat → List Char → Scope → Option Scope
  | 0, _, _ => none
  | _ + 1, [], document => some document
  | fuel + 1, _ :: rest, document =>
    match section? fuel rest document with
    | none => none
    | some (rest, document) => sections? fuel rest document

/-- Whether a text has no control character but tabs and line ends, and every carriage return
belongs to a line end. -/
def isClean : List Char → Bool
  | [] => true
  | '\r' :: rest =>
    match rest with
    | '\n' :: _ => isClean rest
    | _ => false
  | c :: rest => (c == '\t' || c == '\n' || (0x20 ≤ c.toNat && c.toNat != 0x7F)) && isClean rest

/-- Bytes without the mark of their encoding at the front. -/
def withoutMark : List UInt8 → List UInt8
  | 0xFF :: 0xFE :: rest => rest
  | 0xFE :: 0xFF :: rest => rest
  | 0xEF :: 0xBB :: 0xBF :: rest => rest
  | rest => rest

/-- Fuel for a text. Whatever takes fuel takes at most two units before a character is read. -/
def fuelFor (cs : List Char) : Nat := 2 * cs.length + 4

/-- The table of a document. -/
def parse? (bytes : List UInt8) : Option Table := do
  let cs ← Utf8.chars? (withoutMark bytes)
  if isClean cs then
    let fuel := fuelFor cs
    let (rest, document) ← body? fuel cs { isDocument := true }
    return (← sections? fuel rest document).table
  else none

end WindowMachine.Toml
