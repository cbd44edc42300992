import WindowMachine.Source.Token

/-!
Lines of assembly text. A line holds at most one label, then at most one directive or
instruction with its operands.

No cap is put on repetitions. A reader that is made from a grammar gives up after a million
repetitions of one part; a text is assumed to have fewer lines than that, and a line to have
fewer operands.
-/

namespace WindowMachine.Source

/-- The kinds of operand. -/
inductive OperandKind where
  | register
  | float
  | int
  | symbol
  deriving DecidableEq, Repr

/-- A register, a number or a name. -/
structure Operand where
  kind : OperandKind
  text : String
  pos : Position
  deriving DecidableEq, Repr

/-- A directive or a mnemonic with its operands. -/
structure Phrase where
  name : String
  operands : List Operand
  pos : Position
  deriving DecidableEq, Repr

/-- What a line does. -/
inductive Statement where
  | directive (phrase : Phrase)
  | instruction (phrase : Phrase)
  deriving DecidableEq, Repr

/-- One line of a text. -/
structure Line where
  pos : Position
  /-- The name of its label, without the colon. -/
  label : Option String
  statement : Option Statement
  deriving DecidableEq, Repr

/-- The directive or mnemonic of a line with its operands. -/
def Line.instruction? (l : Line) : Option Phrase :=
  match l.statement with
  | some (.instruction p) => some p
  | _ => none

/-! ## Reading -/

/-- What a text should have had in place of a token. -/
inductive Expected where
  | eol
  | operand
  deriving DecidableEq, Repr

/-- Why a text has no lines. -/
inductive Malformed where
  /-- No kind of token fits what is left. -/
  | unreadable (pos : Position) (rest : List UInt8)
  /-- A token that cannot stand where it stands. -/
  | unexpected (token : Token) (expected : Option Expected)
  deriving DecidableEq, Repr

namespace Malformed

/-- The most characters of an unreadable rest that a message shows. -/
def shownRest : Nat := 16

def restText (rest : List UInt8) : String :=
  let chars := Utf8.chars (rest.take (4 * (shownRest + 1)))
  let shown := String.ofList (chars.take shownRest)
  if shownRest < chars.length then shown ++ "..." else shown

def reason : Malformed → String
  | .unreadable _ rest => "lexer: invalid input text " ++ Text.quoted (restText rest)
  | .unexpected token expected =>
    "unexpected token " ++ Text.quoted token.text ++
      match expected with
      | none => ""
      | some .eol => " (expected <eol>)"
      | some .operand => " (expected Operand)"

def position : Malformed → Position
  | .unreadable pos _ => pos
  | .unexpected token _ => token.pos

/-- The wording of a refusal, with the name of the file if it has one. -/
def message (file : String) (m : Malformed) : String :=
  (if file = "" then "" else file ++ ":") ++ Numeral.ofNat m.position.line ++ ":" ++
    Numeral.ofNat m.position.column ++ ": " ++ m.reason

end Malformed

/-- A token as an operand. -/
def operand? (t : Token) : Option Operand :=
  match t.kind with
  | .register => some ⟨.register, t.text, t.pos⟩
  | .float => some ⟨.float, t.text, t.pos⟩
  | .int => some ⟨.int, t.text, t.pos⟩
  | .name => some ⟨.symbol, t.text, t.pos⟩
  | _ => none

/-- Reads operands that each follow a comma, and gives the tokens left. -/
def moreOperands (seen : Array Operand) : List Token → Array Operand × List Token
  | comma :: t :: rest =>
    if comma.kind = .comma then
      match operand? t with
      | some o => moreOperands (seen.push o) rest
      | none => (seen, comma :: t :: rest)
    else (seen, comma :: t :: rest)
  | rest => (seen, rest)

/-- Reads operands divided by commas, and gives the tokens left. -/
def operands : List Token → List Operand × List Token
  | [] => ([], [])
  | t :: rest =>
    match operand? t with
    | none => ([], t :: rest)
    | some o =>
      let (seen, left) := moreOperands #[o] rest
      (seen.toList, left)

/-- Reads an optional label, and gives the tokens left. -/
def label : List Token → Option String × List Token
  | [] => (none, [])
  | t :: rest =>
    if t.kind = .label then (some (String.ofList (t.text.toList.dropLast)), rest)
    else (none, t :: rest)

/-- Reads an optional directive or instruction, and gives the tokens left. -/
def statement : List Token → Option Statement × List Token
  | [] => (none, [])
  | t :: rest =>
    match t.kind with
    | .directive =>
      let (ops, left) := operands rest
      (some (.directive ⟨t.text, ops, t.pos⟩), left)
    | .name =>
      let (ops, left) := operands rest
      (some (.instruction ⟨t.text, ops, t.pos⟩), left)
    | _ => (none, t :: rest)

/-- The refusal of a line of which `taken` tokens could be read before `token`. A comma after
the single operand of an unlabelled line is itself accepted, and what follows it is not. -/
def refusal (taken : Nat) (line : Option Statement) (token : Token) (rest : List Token) :
    Malformed :=
  let operandCount :=
    match line with
    | some (.directive p) | some (.instruction p) => p.operands.length
    | none => 0
  if taken = 0 then .unexpected token none
  else if taken ≤ 2 ∧ token.kind = .comma ∧ operandCount ≠ 0 then
    match rest with
    | next :: _ => .unexpected next (some .operand)
    | [] => .unexpected token (some .eol)
  else .unexpected token (some .eol)

/-- Reads the tokens of one line, which starts at a place, up to its end. -/
def line (pos : Position) (tokens : List Token) : Except Malformed (Line × List Token) :=
  let (name, afterLabel) := label tokens
  let (body, left) := statement afterLabel
  match left with
  | [] => .ok (⟨pos, name, body⟩, [])
  | t :: rest =>
    if t.kind = .eol then .ok (⟨pos, name, body⟩, rest)
    else .error (refusal (tokens.length - left.length) body t rest)

/-- Reads lines after those in `seen`, at most `fuel` of them. Each takes a token at least, so
fuel for every token does not run out; it does not stand for the assumed cap on lines. -/
def linesFrom : Nat → Array Line → List Token → Except Malformed (Array Line)
  | _, seen, [] => .ok seen
  | 0, seen, _ => .ok seen
  | fuel + 1, seen, t :: rest =>
    match line t.pos (t :: rest) with
    | .error e => .error e
    | .ok (l, left) => linesFrom fuel (seen.push l) left

/-- Reads the lines of a text. -/
def parse (bytes : List UInt8) : Except Malformed (List Line) :=
  let scanned := scan (terminated bytes)
  match scanned.stuck with
  | some (pos, rest) => .error (.unreadable pos rest)
  | none =>
    let tokens := scanned.tokens.toList.filter fun t => !t.kind.isSkipped
    (linesFrom tokens.length #[] tokens).map Array.toList

end WindowMachine.Source
