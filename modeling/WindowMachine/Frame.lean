import WindowMachine.Text.Numeral

/-!
Methods and frames. A call of a method turns the topmost values of the stack into the
arguments of a new frame and reserves locals above them.
-/

namespace WindowMachine

/-- What the machine knows of a callable stretch of code. -/
structure Method where
  /-- The address of its first instruction. -/
  entry : Int64
  /-- How many values of the stack become its first registers. -/
  args : Int64
  /-- How many registers follow those. -/
  locals : Int64
  deriving DecidableEq, Repr

namespace Method

/-- How many registers a call may address. -/
def window (m : Method) : Int64 := m.args + m.locals

def text (m : Method) : String :=
  "<method @" ++ Numeral.ofInt m.entry.toInt ++ " args=" ++ Numeral.ofInt m.args.toInt ++
    " locals=" ++ Numeral.ofInt m.locals.toInt ++ ">"

end Method

/-- The state of one call. -/
structure Frame where
  /-- The stack index of register 0. -/
  base : Int64
  /-- The stack index of the topmost pushed value. -/
  top : Int64
  /-- The address of the next instruction. -/
  pc : Int64
  /-- The stack index that registers stay below. -/
  limit : Int64
  deriving DecidableEq, Repr

/-- The base, the top and the next address of a frame. -/
def Frame.text (f : Frame) : String :=
  "bp=" ++ Numeral.ofInt f.base.toInt ++ " sp=" ++ Numeral.ofInt f.top.toInt ++
    " pc=" ++ Numeral.ofInt f.pc.toInt

end WindowMachine
