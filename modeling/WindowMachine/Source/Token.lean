import WindowMachine.Text.Quoted
import WindowMachine.Text.Utf8

/-!
Tokens of assembly text. At each place the first kind of token, in the order of `Kind.all`,
that fits there is taken; the text is read to its end before anything else happens. Every
token but a comment is ASCII, so kinds are recognised on bytes.
-/

namespace WindowMachine.Source

/-- A place in a text: line and column from 1, counted in characters, and the byte offset. -/
structure Position where
  line : Nat := 1
  column : Nat := 1
  offset : Nat := 0
  deriving DecidableEq, Repr

/-- The place after some bytes. -/
def Position.after (p : Position) (bytes : List UInt8) : Position :=
  let breaks := bytes.count 0x0A
  let tail := bytes.reverse.takeWhile (· != 0x0A)
  { line := p.line + breaks
    column := (if breaks = 0 then p.column else 1) + Utf8.count tail.reverse
    offset := p.offset + bytes.length }

/-! ## Characters -/

def isDigit (b : UInt8) : Bool := 0x30 ≤ b && b ≤ 0x39

def isLetter (b : UInt8) : Bool := (0x41 ≤ b && b ≤ 0x5A) || (0x61 ≤ b && b ≤ 0x7A)

def isHexDigit (b : UInt8) : Bool :=
  isDigit b || (0x41 ≤ b && b ≤ 0x46) || (0x61 ≤ b && b ≤ 0x66)

/-- A letter, a digit or an underscore. -/
def isWordByte (b : UInt8) : Bool := isLetter b || isDigit b || b == 0x5F

/-- What a name may start with. -/
def isNameStart (b : UInt8) : Bool := isLetter b || b == 0x5F

/-- What a name may go on with. -/
def isNameByte (b : UInt8) : Bool := isWordByte b || b == 0x2E

/-- A blank that does not end the line. -/
def isBlank (b : UInt8) : Bool := b == 0x20 || b == 0x09 || b == 0x0D

/-- How many bytes at the front of a text satisfy a test. -/
def spanLength (test : UInt8 → Bool) (bytes : List UInt8) : Nat :=
  (bytes.takeWhile test).length

/-! ## Kinds -/

/-- The kinds of token. -/
inductive Kind where
  /-- A semicolon and the rest of the line. -/
  | comment
  | blank
  /-- The end of a line. -/
  | eol
  /-- A name and a colon. -/
  | label
  /-- A dot and letters. -/
  | directive
  /-- The letter r and digits, not followed by more of a word. -/
  | register
  /-- Digits with a point among them, perhaps with sign and exponent. -/
  | float
  /-- Digits, perhaps with a sign, in base 10 or after `0x` in base 16. -/
  | int
  | name
  | comma
  deriving DecidableEq, Repr

namespace Kind

/-- The kinds in the order in which they are tried. -/
def all : List Kind :=
  [.comment, .blank, .eol, .label, .directive, .register, .float, .int, .name, .comma]

/-- Whether tokens of a kind are left out of the line they stand in. -/
def isSkipped : Kind → Bool
  | .comment | .blank => true
  | _ => false

end Kind

/-- The length of a sign at the front of a text. -/
def signLength : List UInt8 → Nat
  | 0x2B :: _ | 0x2D :: _ => 1
  | _ => 0

/-- The length of a name at the front of a text, zero if there is none. -/
def nameLength : List UInt8 → Nat
  | b :: rest => if isNameStart b then 1 + spanLength isNameByte rest else 0
  | [] => 0

/-- The length of an exponent at the front of a text, zero if there is none. -/
def exponentLength : List UInt8 → Nat
  | e :: rest =>
    if e == 0x45 || e == 0x65 then
      let sign := signLength rest
      let digits := spanLength isDigit (rest.drop sign)
      if digits = 0 then 0 else 1 + sign + digits
    else 0
  | [] => 0

/-- The length of a number with a point at the front of a text, zero if there is none. -/
def floatLength (bytes : List UInt8) : Nat :=
  let sign := signLength bytes
  let whole := spanLength isDigit (bytes.drop sign)
  match whole, bytes.drop (sign + whole) with
  | 0, _ => 0
  | _, 0x2E :: rest =>
    let fraction := spanLength isDigit rest
    if fraction = 0 then 0
    else sign + whole + 1 + fraction + exponentLength (rest.drop fraction)
  | _, _ => 0

/-- The length of a number in base 16 without its sign, zero if there is none. -/
def hexLength : List UInt8 → Nat
  | 0x30 :: x :: rest =>
    let digits := spanLength isHexDigit rest
    if (x == 0x58 || x == 0x78) && digits != 0 then 2 + digits else 0
  | _ => 0

/-- The length of an integer at the front of a text, zero if there is none. -/
def intLength (bytes : List UInt8) : Nat :=
  let sign := signLength bytes
  let rest := bytes.drop sign
  let hex := hexLength rest
  let digits := if hex = 0 then spanLength isDigit rest else hex
  if digits = 0 then 0 else sign + digits

/-- The length of a register at the front of a text, zero if there is none. -/
def registerLength : List UInt8 → Nat
  | r :: rest =>
    let digits := spanLength isDigit rest
    let ends :=
      match rest.drop digits with
      | b :: _ => !isWordByte b
      | [] => true
    if (r == 0x52 || r == 0x72) && digits != 0 && ends then 1 + digits else 0
  | [] => 0

/-- The length of the token of a kind at the front of a text, zero if there is none. -/
def Kind.length : Kind → List UInt8 → Nat
  | .comment, 0x3B :: rest => 1 + spanLength (· != 0x0A) rest
  | .comment, _ => 0
  | .blank, bytes => spanLength isBlank bytes
  | .eol, 0x0A :: _ => 1
  | .eol, _ => 0
  | .label, bytes =>
    let name := nameLength bytes
    match name, bytes.drop name with
    | 0, _ => 0
    | _, 0x3A :: _ => name + 1
    | _, _ => 0
  | .directive, 0x2E :: rest =>
    let letters := spanLength isLetter rest
    if letters = 0 then 0 else 1 + letters
  | .directive, _ => 0
  | .register, bytes => registerLength bytes
  | .float, bytes => floatLength bytes
  | .int, bytes => intLength bytes
  | .name, bytes => nameLength bytes
  | .comma, 0x2C :: _ => 1
  | .comma, _ => 0

/-- The first kind that fits the front of a text, with the length of its token. -/
def firstKind? (bytes : List UInt8) : Option (Kind × Nat) :=
  Kind.all.findSome? fun kind =>
    match kind.length bytes with
    | 0 => none
    | length => some (kind, length)

/-! ## Tokens -/

/-- A piece of a text and where it starts. -/
structure Token where
  kind : Kind
  bytes : List UInt8
  pos : Position
  deriving DecidableEq, Repr

/-- The text of a token that is ASCII. -/
def Token.text (t : Token) : String :=
  String.ofList (t.bytes.map fun b => Char.ofNat b.toNat)

/-- The tokens of a text, up to the place where no kind fits or to its end. -/
structure Scan where
  tokens : Array Token
  /-- What is left where no kind fits. -/
  stuck : Option (Position × List UInt8)
  deriving DecidableEq, Repr

/-- Reads tokens after those in `seen`, at most `fuel` of them. -/
def scanFrom : Nat → Array Token → Position → List UInt8 → Scan
  | _, seen, _, [] => ⟨seen, none⟩
  | 0, seen, pos, rest => ⟨seen, some (pos, rest)⟩
  | fuel + 1, seen, pos, rest =>
    match firstKind? rest with
    | none => ⟨seen, some (pos, rest)⟩
    | some (kind, length) =>
      let bytes := rest.take length
      scanFrom fuel (seen.push ⟨kind, bytes, pos⟩) (pos.after bytes) (rest.drop length)

/-- Reads all tokens of a text. Each takes at least one byte, so its length is fuel enough. -/
def scan (bytes : List UInt8) : Scan :=
  scanFrom bytes.length #[] {} bytes

/-- A text with an end of line at its end. -/
def terminated (bytes : List UInt8) : List UInt8 :=
  if bytes.getLast? = some 0x0A then bytes else bytes ++ [0x0A]

end WindowMachine.Source
