import WindowMachine.Breakdown

/-!
The fixed capacities of a machine, and which of them can be used.
-/

namespace WindowMachine

/-- The sizes that a machine keeps for its lifetime. -/
structure Capacities where
  /-- Slots of the stack. -/
  stack : Int64 := 1024
  /-- Calls that may be suspended at once. -/
  depth : Int64 := 1024
  /-- Entries of the method table. -/
  methods : Int64 := 64
  /-- Entries of the global store. -/
  globals : Int64 := 1024
  /-- The top of the stack when a program starts. -/
  entryTop : Int64 := 0
  /-- How many instructions a run may execute; zero stands for no limit. -/
  budget : Int64 := 0
  deriving DecidableEq, Repr

namespace Capacities

/-- The most entries that a table indexed by a 16-bit number can have. -/
def tableLimit : Int64 := 65536

/-- Why capacities cannot be used. -/
inductive Defect where
  | stack (size : Int64)
  | depth (size : Int64)
  | methods (size : Int64)
  | globals (size : Int64)
  | entryTop (top size : Int64)
  | budget (size : Int64)
  deriving DecidableEq, Repr

namespace Defect

def message : Defect → String
  | .stack n => "stack size must be positive, got " ++ Numeral.ofInt n.toInt
  | .depth n => "call depth must be positive, got " ++ Numeral.ofInt n.toInt
  | .methods n =>
    "method table size must be in 1.." ++ Numeral.ofInt tableLimit.toInt ++ ", got " ++
      Numeral.ofInt n.toInt
  | .globals n =>
    "global store size must be in 1.." ++ Numeral.ofInt tableLimit.toInt ++ ", got " ++
      Numeral.ofInt n.toInt
  | .entryTop top size =>
    "entry stack pointer " ++ Numeral.ofInt top.toInt ++ " outside stack of " ++
      Numeral.ofInt size.toInt ++ " slots"
  | .budget n => "instruction budget must not be negative, got " ++ Numeral.ofInt n.toInt

end Defect

/-- The first defect of some capacities, in the order of their fields. -/
def defect? (c : Capacities) : Option Defect :=
  if c.stack ≤ 0 then some (.stack c.stack)
  else if c.depth ≤ 0 then some (.depth c.depth)
  else if c.methods ≤ 0 ∨ tableLimit < c.methods then some (.methods c.methods)
  else if c.globals ≤ 0 ∨ tableLimit < c.globals then some (.globals c.globals)
  else if c.entryTop < -1 ∨ c.stack ≤ c.entryTop then some (.entryTop c.entryTop c.stack)
  else if c.budget < 0 then some (.budget c.budget)
  else none

/-- The most slots of four bytes that there are addresses for. -/
def slotLimit : Int64 := 0x400000000000

/-- The most frames of 32 bytes that there are addresses for. -/
def frameLimit : Int64 := 0x80000000000

/-- What the construction of a machine with these capacities breaks down on. -/
def breakdown? (c : Capacities) : Option Breakdown :=
  if slotLimit < c.stack then some .stackSize
  else if frameLimit < c.depth then some .depthSize
  else none

end Capacities

end WindowMachine
