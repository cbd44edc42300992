import WindowMachine.Number.Integer
import WindowMachine.Text.Quoted

/-!
Flags of a command line: `-name`, `-name=value` or `-name value`, with one dash or two, up to
the first argument that is none or to a double dash.
-/

namespace WindowMachine

/-- The value of a flag. -/
inductive FlagValue where
  | switch (on : Bool)
  | number (n : Int)
  | text (s : String)
  deriving DecidableEq, Repr

/-- A flag that a tool knows. -/
structure Flag where
  name : String
  usage : String
  /-- Its value unless it is given, which also tells its type. -/
  standard : FlagValue
  deriving DecidableEq, Repr

/-- Why a command line is not read to its end. -/
inductive FlagStop where
  /-- Help was asked for. -/
  | help
  /-- A flag is wrong. -/
  | wrong (message : String)
  deriving DecidableEq, Repr

/-- A command line taken apart. -/
structure CommandLine where
  values : List (String × FlagValue)
  arguments : List String
  deriving DecidableEq, Repr

namespace CommandLine

/-- Whether a switch is on. -/
def switch (c : CommandLine) (name : String) : Bool :=
  match c.values.lookup name with
  | some (.switch on) => on
  | _ => false

/-- The number of a flag. -/
def number (c : CommandLine) (name : String) : Int :=
  match c.values.lookup name with
  | some (.number n) => n
  | _ => 0

/-- The text of a flag. -/
def text (c : CommandLine) (name : String) : String :=
  match c.values.lookup name with
  | some (.text s) => s
  | _ => ""

end CommandLine

namespace Flag

/-- The word for the type of a flag's value. -/
def typeWord (f : Flag) : String :=
  match f.standard with
  | .switch _ => ""
  | .number _ => " int"
  | .text _ => " string"

/-- The default of a flag, unless it is zero or empty. -/
def defaultText (f : Flag) : String :=
  match f.standard with
  | .switch false => ""
  | .switch true => " (default true)"
  | .number n => if n = 0 then "" else " (default " ++ Numeral.ofInt n ++ ")"
  | .text s => if s = "" then "" else " (default " ++ Text.quoted s ++ ")"

/-- The lines that describe a flag. A short switch is described on the line of its name. -/
def describe (f : Flag) : String :=
  let front := "  -" ++ f.name ++ f.typeWord
  front ++ (if front.length ≤ 4 then "\t" else "\n    \t") ++ f.usage ++ f.defaultText ++ "\n"

/-- How to call a tool. -/
def usageText (tool : String) (flags : List Flag) : String :=
  let sorted := flags.mergeSort fun a b => decide (a.name ≤ b.name)
  sorted.foldl (fun text f => text ++ f.describe) ("Usage of " ++ tool ++ ":\n")

/-- The truth value that a text stands for. -/
def truth? (text : String) : Option Bool :=
  if ["1", "t", "T", "TRUE", "true", "True"].contains text then some true
  else if ["0", "f", "F", "FALSE", "false", "False"].contains text then some false
  else none

/-- The value of a flag that is given a text. -/
def parse (f : Flag) (text : String) : Except FlagStop FlagValue :=
  match f.standard with
  | .switch _ =>
    match truth? text with
    | some on => .ok (.switch on)
    | none =>
      .error (.wrong ("invalid boolean value " ++ Text.quoted text ++ " for -" ++ f.name ++
        ": parse error"))
  | .number _ =>
    match Integer.read text.toList with
    | .ok n => .ok (.number n)
    | .error fault =>
      let reason :=
        match fault with
        | .badDigit => "parse error"
        | .outOfRange => "value out of range"
      .error (.wrong ("invalid value " ++ Text.quoted text ++ " for flag -" ++ f.name ++ ": " ++
        reason))
  | .text _ => .ok (.text text)

/-- What an argument is to the reader of flags. -/
inductive Shape where
  /-- The first argument that is no flag. -/
  | plain
  /-- The double dash after which no flag follows. -/
  | stop
  /-- Dashes without a name. -/
  | bad
  /-- A flag, perhaps with a value. -/
  | flag (name : String) (value : Option String)
  deriving DecidableEq, Repr

/-- Takes a flag apart at its first equals sign, which is not its first character. -/
def named (cs : List Char) : Shape :=
  match cs with
  | [] => .bad
  | c :: rest =>
    if c = '-' ∨ c = '=' then .bad
    else
      let name := String.ofList (c :: rest.takeWhile (· != '='))
      match rest.dropWhile (· != '=') with
      | _ :: value => .flag name (some (String.ofList value))
      | [] => .flag name none

/-- What an argument is. -/
def shape (argument : String) : Shape :=
  match argument.toList with
  | ['-', '-'] => .stop
  | ['-'] => .plain
  | '-' :: '-' :: rest => named rest
  | '-' :: rest => named rest
  | _ => .plain

/-- Reads a command line; `values` holds what the flags so far have set. -/
def readFrom (flags : List Flag) (values : List (String × FlagValue)) :
    List String → Except FlagStop CommandLine
  | [] => .ok ⟨values, []⟩
  | argument :: rest =>
    match shape argument with
    | .plain => .ok ⟨values, argument :: rest⟩
    | .stop => .ok ⟨values, rest⟩
    | .bad => .error (.wrong ("bad flag syntax: " ++ argument))
    | .flag name value =>
      match flags.find? fun f => f.name == name with
      | none =>
        if name = "help" ∨ name = "h" then .error .help
        else .error (.wrong ("flag provided but not defined: -" ++ name))
      | some f =>
        match f.standard, value, rest with
        | .switch _, none, rest => readFrom flags ((name, .switch true) :: values) rest
        | _, some text, rest =>
          match f.parse text with
          | .ok v => readFrom flags ((name, v) :: values) rest
          | .error stop => .error stop
        | _, none, text :: rest =>
          match f.parse text with
          | .ok v => readFrom flags ((name, v) :: values) rest
          | .error stop => .error stop
        | _, none, [] => .error (.wrong ("flag needs an argument: -" ++ name))

/-- Reads a command line. -/
def read (flags : List Flag) (arguments : List String) : Except FlagStop CommandLine :=
  readFrom flags (flags.map fun f => (f.name, f.standard)) arguments

end Flag

end WindowMachine
