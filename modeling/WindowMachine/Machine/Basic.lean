import WindowMachine.Failure
import WindowMachine.Instruction
import WindowMachine.Slot

/-!
The state of a machine, its regions of fixed size, and the operations that set it up, look at
it and shut it down.
-/

namespace WindowMachine

/-- The position in a region of `size` entries that an index names. -/
def position? (index : Int64) (size : Nat) : Option Nat :=
  if 0 ≤ index.toInt ∧ index.toInt < size then some index.toInt.toNat else none

/-- Where printed lines go. -/
inductive Sink where
  /-- They are kept in the machine's output. -/
  | keep
  /-- They are dropped. -/
  | drop
  /-- They are refused, for a reason. -/
  | refuse (reason : String)
  deriving DecidableEq, Repr

/-- What a machine notes down while it is being traced. -/
inductive TraceLine where
  /-- An instruction about to be executed, with the frame and the call depth. -/
  | executing (pc : Int64) (instruction : Instruction) (frame : Frame) (depth : Nat)
  /-- A run that ended in a failure. -/
  | aborted (why : Failure)
  deriving DecidableEq, Repr

def TraceLine.text : TraceLine → String
  | .executing pc i frame depth =>
    Numeral.padded 4 pc.toInt ++ "  " ++ Numeral.leftAligned 22 i.text ++ " " ++ frame.text ++
      " depth=" ++ Numeral.ofNat depth
  | .aborted why => "run aborted: " ++ why.message

/-- A machine. Its regions keep the size that its capacities give them until it is closed. -/
structure Machine where
  capacities : Capacities
  stack : Array Slot
  globals : Array Int32
  /-- The method table; an entry is empty until a method is registered there. -/
  methods : Array (Option Method)
  frame : Frame
  /-- The frames of the suspended callers, the most recent one last. -/
  callers : Array Frame
  /-- The return register. -/
  result : Int32
  code : Array Word
  /-- How many instructions the current or last run has fetched. -/
  steps : Nat
  halted : Bool
  closed : Bool
  /-- How many instructions a run may execute; nothing above zero stands for no limit. -/
  budget : Int64
  tracing : Bool
  trace : Array TraceLine
  sink : Sink
  /-- What the program has printed. -/
  output : String
  deriving DecidableEq, Repr

namespace Machine

/-! ## Construction -/

/-- The frame in which a program starts at an address. -/
def entryFrame (m : Machine) (pc : Int64) : Frame :=
  ⟨0, m.capacities.entryTop, pc, Int64.ofNat m.stack.size⟩

/-- A machine with all regions zero and no method registered. -/
def blank (c : Capacities) : Machine where
  capacities := c
  stack := Array.replicate c.stack.toInt.toNat 0
  globals := Array.replicate c.globals.toInt.toNat 0
  methods := Array.replicate c.methods.toInt.toNat none
  frame := ⟨0, c.entryTop, 0, Int64.ofNat c.stack.toInt.toNat⟩
  callers := #[]
  result := 0
  code := #[]
  steps := 0
  halted := false
  closed := false
  budget := c.budget
  tracing := false
  trace := #[]
  sink := .keep
  output := ""

/-- A machine of the given capacities, if they can be used and there is room for them. -/
def new (c : Capacities) : Except Failure Machine :=
  match c.defect?, c.breakdown? with
  | some d, _ => .error (.unusable d)
  | none, some b => .error (.broken b)
  | none, none => .ok (blank c)

/-- Clears stack, globals, frames and return register. Methods stay registered, and a closed
machine stays as it is. -/
def reset (m : Machine) : Machine :=
  if m.closed then m
  else
    { m with
      stack := Array.replicate m.stack.size 0
      globals := Array.replicate m.globals.size 0
      callers := #[]
      frame := m.entryFrame 0
      result := 0
      code := #[]
      steps := 0
      halted := false }

/-- Gives up the regions of a machine for good. -/
def close (m : Machine) : Machine :=
  { m with
    closed := true
    stack := #[]
    globals := #[]
    methods := #[]
    callers := #[]
    code := #[] }

/-- Installs a program and prepares its entry frame. The regions stay as they are. -/
def load (m : Machine) (code : Array Word) (entry : Int64) : Machine :=
  { m with
    code := code
    callers := #[]
    frame := m.entryFrame entry
    steps := 0
    halted := false }

/-! ## Setting up -/

/-- Registers a method. An index outside the table or a negative field changes nothing. -/
def setMethod (m : Machine) (index : Int64) (method : Method) : Except Failure Machine :=
  if m.closed then .error (.plain .closed)
  else
    match position? index m.methods.size with
    | none => .error (.methodIndex index m.methods.size)
    | some i =>
      if method.entry < 0 ∨ method.args < 0 ∨ method.locals < 0 then
        .error (.descriptor method)
      else .ok { m with methods := m.methods.setIfInBounds i (some method) }

/-- Stores the bits of a slot. -/
def setSlot (m : Machine) (index : Int64) (bits : Slot) : Except Failure Machine :=
  if m.closed then .error (.plain .closed)
  else
    match position? index m.stack.size with
    | none => .error (.slotIndex index m.stack.size)
    | some i => .ok { m with stack := m.stack.setIfInBounds i bits }

/-- Stores an integer in a slot. -/
def setStack (m : Machine) (index : Int64) (value : Int32) : Except Failure Machine :=
  m.setSlot index (Slot.ofInt value)

/-- Stores a global. -/
def setGlobal (m : Machine) (index : Int64) (value : Int32) : Except Failure Machine :=
  if m.closed then .error (.plain .closed)
  else
    match position? index m.globals.size with
    | none => .error (.globalIndex index m.globals.size)
    | some i => .ok { m with globals := m.globals.setIfInBounds i value }

/-! ## Looking at it -/

/-- The method registered at an index. -/
def method? (m : Machine) (index : Int64) : Option Method := do
  let i ← position? index m.methods.size
  (m.methods[i]?).join

/-- The slot at an index. -/
def slot (m : Machine) (index : Int64) : Except Failure Slot :=
  match position? index m.stack.size with
  | none => .error (.slotIndex index m.stack.size)
  | some i => .ok (m.stack.getD i 0)

/-- The global at an index. -/
def global (m : Machine) (index : Int64) : Except Failure Int32 :=
  match position? index m.globals.size with
  | none => .error (.globalIndex index m.globals.size)
  | some i => .ok (m.globals.getD i 0)

/-- The number of suspended callers. -/
def depth (m : Machine) : Nat := m.callers.size

/-- The stack position of a register of the current frame. -/
def locate (m : Machine) (r : UInt8) : Except Failure Nat :=
  let index := m.frame.base + Int64.ofNat r.toNat
  match position? index m.stack.size with
  | some i =>
    if index < m.frame.limit then .ok i else .error (.register r m.frame.base m.frame.limit)
  | none => .error (.register r m.frame.base m.frame.limit)

/-- The bits at a stack position. -/
def bitsAt (m : Machine) (i : Nat) : Slot := m.stack.getD i 0

/-- A register of the current frame, as an integer. -/
def register (m : Machine) (r : UInt8) : Except Failure Int32 := do
  let i ← m.locate r
  return Slot.asInt (m.bitsAt i)

/-- The slots from the bottom of the stack to its top, as integers. -/
def shownStack (m : Machine) : List Int32 :=
  (m.stack.take (m.frame.top.toInt + 1).toNat).toList.map Slot.asInt

/-- The slots from the bottom of the stack to its top, in brackets. -/
def stackText (m : Machine) : String :=
  match m.shownStack with
  | [] => "[]"
  | values =>
    values.foldl (fun text v => text ++ Numeral.ofInt v.toInt ++ " ") "[ " ++ "]"

end Machine

end WindowMachine
