import WindowMachine.Machine.Basic
import WindowMachine.Slot.Arithmetic

/-!
One instruction. It is first worked out, without touching the machine, into an effect or into
a failure; an effect is then applied, which cannot fail. A failing instruction therefore
leaves everything but the address and the step count as it was. Only a call from a frame whose
top lies below the stack breaks the machine down.

`InPlace` has the same instruction as it works on the machine, check by check and write by
write; that the two agree is a theorem.
-/

namespace WindowMachine

/-! ## Arithmetic -/

/-- The integer part of a number, held within the 32-bit range; zero if it is no number. -/
def truncate (f : Float) : Int32 := f.toInt32

/-- A power of integers, computed on numbers whose base was rounded to single precision. -/
def intPower (a b : Int32) : Int32 :=
  truncate (Power.float a.toFloat32.toFloat b.toFloat)

/-- The integer part of the root of an integer that was rounded to single precision. -/
def intSqrt (a : Int32) : Int32 :=
  truncate a.toFloat32.toFloat.sqrt

/-- A quotient truncated towards zero. -/
def intDiv (a b : Int32) : Except Failure Int32 :=
  if b = 0 then .error (.plain .divisionByZero) else .ok (a / b)

/-- The remainder of `intDiv`, with the sign of the dividend. -/
def intMod (a b : Int32) : Except Failure Int32 :=
  if b = 0 then .error (.plain .divisionByZero) else .ok (a % b)

/-! ## Effects -/

/-- What a successful instruction does to the machine. -/
inductive Effect where
  /-- Nothing. -/
  | idle
  /-- Writes a stack position. -/
  | store (slot : Nat) (bits : Slot)
  /-- Writes the position above the top, which becomes the top. -/
  | push (slot : Nat) (bits : Slot)
  /-- Writes a stack position and lowers the top by one. -/
  | pop (slot : Nat) (bits : Slot)
  /-- Writes a global. -/
  | setGlobal (index : Nat) (value : Int32)
  /-- Moves the next address. -/
  | jump (offset : Int64)
  /-- Suspends the current frame for a new one, whose locals become zero. -/
  | enter (callee : Frame)
  /-- Goes back to the most recent caller with a value in the return register. -/
  | leave (caller : Frame) (value : Int32)
  /-- Prints a line. -/
  | print (value : Int32)
  /-- Ends the program. -/
  | halt
  deriving DecidableEq, Repr

/-- How a step came out. -/
inductive StepOutcome where
  /-- The program goes on. -/
  | running
  /-- The program has ended. -/
  | ended
  /-- The instruction failed, or none could be fetched. -/
  | failed (why : Failure)
  /-- The machine broke down. -/
  | broke (breakdown : Breakdown)
  deriving DecidableEq, Repr

namespace Machine

/-- Sets `count` stack positions to zero, from `start` on. -/
def cleared (stack : Array Slot) (start : Nat) : Nat → Array Slot
  | 0 => stack
  | count + 1 => cleared (stack.setIfInBounds start 0) (start + 1) count

/-- Applies an effect. -/
def apply (m : Machine) : Effect → Machine
  | .idle => m
  | .store slot bits => { m with stack := m.stack.setIfInBounds slot bits }
  | .push slot bits =>
    { m with
      stack := m.stack.setIfInBounds slot bits
      frame := { m.frame with top := m.frame.top + 1 } }
  | .pop slot bits =>
    { m with
      stack := m.stack.setIfInBounds slot bits
      frame := { m.frame with top := m.frame.top - 1 } }
  | .setGlobal index value => { m with globals := m.globals.setIfInBounds index value }
  | .jump offset => { m with frame := { m.frame with pc := m.frame.pc + offset } }
  | .enter callee =>
    { m with
      stack := cleared m.stack (m.frame.top.toInt + 1).toNat
        (callee.top.toInt - m.frame.top.toInt).toNat
      callers := m.callers.push m.frame
      frame := callee }
  | .leave caller value =>
    { m with
      callers := m.callers.pop
      frame := caller
      result := value }
  | .print value =>
    match m.sink with
    | .keep => { m with output := m.output ++ Numeral.ofInt value.toInt ++ "\n" }
    | _ => m
  | .halt => { m with halted := true }

/-- What the machine breaks down on when an effect is applied: the first local of a call, if it
lies below the stack. -/
def breakdown? (m : Machine) : Effect → Option Breakdown
  | .enter callee =>
    let first := m.frame.top + 1
    if first < 0 ∧ first ≤ callee.top then some (.slot first) else none
  | _ => none

/-! ## Working out an instruction -/

/-- A register read as bits. -/
def readBits (m : Machine) (r : UInt8) : Except Failure Slot := do
  return m.bitsAt (← m.locate r)

/-- Writes a register from two others, all three of which must lie in the window. -/
def fromTwo (m : Machine) (i : Instruction) (f : Slot → Slot → Except Failure Slot) :
    Except Failure Effect := do
  let target ← m.locate i.a
  let left ← m.readBits i.b
  let right ← m.readBits i.c
  return .store target (← f left right)

/-- Writes a register from one other. -/
def fromOne (m : Machine) (i : Instruction) (f : Slot → Slot) : Except Failure Effect := do
  let target ← m.locate i.a
  let source ← m.readBits i.b
  return .store target (f source)

/-- Changes a register in place. -/
def update (m : Machine) (i : Instruction) (f : Slot → Except Failure Slot) :
    Except Failure Effect := do
  let target ← m.locate i.a
  return .store target (← f (m.bitsAt target))

/-- An operation on integers as one on slots. -/
def onInts (f : Int32 → Int32 → Int32) (a b : Slot) : Except Failure Slot :=
  .ok (Slot.ofInt (f (Slot.asInt a) (Slot.asInt b)))

/-- An operation on integers that may fail as one on slots. -/
def onIntsChecked (f : Int32 → Int32 → Except Failure Int32) (a b : Slot) :
    Except Failure Slot := do
  return Slot.ofInt (← f (Slot.asInt a) (Slot.asInt b))

/-- An operation on slots that cannot fail. -/
def onSlots (f : Slot → Slot → Slot) (a b : Slot) : Except Failure Slot := .ok (f a b)

/-- Skips the next instruction if two integers compare as asked. -/
def skipIf (m : Machine) (i : Instruction) (holds : Int32 → Int32 → Bool) :
    Except Failure Effect := do
  let left ← m.readBits i.a
  let right ← m.readBits i.b
  return if holds (Slot.asInt left) (Slot.asInt right) then .jump 1 else .idle

/-- The position of a global that an instruction names. -/
def locateGlobal (m : Machine) (index : Int32) : Except Failure Nat :=
  match position? index.toInt64 m.globals.size with
  | some g => .ok g
  | none => .error (.globalOperand index m.globals.size)

/-- Pushes a register. -/
def pushEffect (m : Machine) (i : Instruction) : Except Failure Effect := do
  let bits ← m.readBits i.a
  let top := m.frame.top + 1
  match position? top m.stack.size with
  | some slot => return .push slot bits
  | none => throw (.push top m.stack.size)

/-- Pops into a register. -/
def popEffect (m : Machine) (i : Instruction) : Except Failure Effect := do
  let target ← m.locate i.a
  match position? m.frame.top m.stack.size with
  | some slot => return .pop target (m.bitsAt slot)
  | none => throw (.pop m.frame.top)

/-- The frame of a call: the topmost values become its first registers, and locals are
reserved above them. -/
def calleeFrame (m : Machine) (method : Method) : Except Failure Frame :=
  let base := m.frame.top - method.args + 1
  let top := m.frame.top + method.locals
  if base < 0 then .error (.arguments method.args (m.frame.top + 1))
  else if Int64.ofNat m.stack.size ≤ top then .error (.window method.locals m.frame.top)
  else if m.callers.size = m.capacities.depth.toInt.toNat then
    .error (.depth m.callers.size)
  else .ok ⟨base, top, method.entry, top + 1⟩

/-- Calls a method. -/
def callEffect (m : Machine) (index : Int64) : Except Failure Effect :=
  match m.method? index with
  | none => .error (.noMethod index)
  | some method => do return .enter (← m.calleeFrame method)

/-- Returns a register to the most recent caller. -/
def returnEffect (m : Machine) (i : Instruction) : Except Failure Effect := do
  let bits ← m.readBits i.a
  match m.callers.back? with
  | some caller => return .leave caller (Slot.asInt bits)
  | none => throw (.plain .callStackUnderflow)

/-- Prints a register. -/
def printEffect (m : Machine) (i : Instruction) : Except Failure Effect := do
  let bits ← m.readBits i.a
  match m.sink with
  | .refuse reason => throw (.output reason)
  | _ => return .print (Slot.asInt bits)

/-- Works out an operation, for a machine whose next address is already past it. -/
def operationEffect (m : Machine) (i : Instruction) : Operation → Except Failure Effect
  | .add => m.fromTwo i (onInts (· + ·))
  | .sub => m.fromTwo i (onInts (· - ·))
  | .mul => m.fromTwo i (onInts (· * ·))
  | .div => m.fromTwo i (onIntsChecked intDiv)
  | .mod => m.fromTwo i (onIntsChecked intMod)
  | .exp => m.fromTwo i (onInts intPower)
  | .sqrt => m.fromOne i fun s => Slot.ofInt (intSqrt (Slot.asInt s))
  | .addImm => m.update i (onInts (· + ·) · (Slot.ofInt i.imm))
  | .subImm => m.update i (onInts (· - ·) · (Slot.ofInt i.imm))
  | .mulImm => m.update i (onInts (· * ·) · (Slot.ofInt i.imm))
  | .divImm => m.update i (onIntsChecked intDiv · (Slot.ofInt i.imm))
  | .modImm => m.update i (onIntsChecked intMod · (Slot.ofInt i.imm))
  | .expImm => m.update i (onInts intPower · (Slot.ofInt i.imm))
  | .sqrtImm => m.update i fun _ => .ok (Slot.ofInt (truncate i.imm.toFloat.sqrt))
  | .fadd => m.fromTwo i (onSlots (Slot.basic (· + ·)))
  | .fsub => m.fromTwo i (onSlots (Slot.basic (· - ·)))
  | .fmul => m.fromTwo i (onSlots (Slot.basic (· * ·)))
  | .fdiv => m.fromTwo i (onSlots (Slot.basic (· / ·)))
  | .fmod => m.fromTwo i (onSlots Slot.remainder)
  | .fexp => m.fromTwo i (onSlots Slot.power)
  | .fsqrt => m.fromOne i Slot.root
  | .push => m.pushEffect i
  | .pop => m.popEffect i
  | .mov => m.fromOne i id
  | .loadGlobal => do
    let target ← m.locate i.a
    let g ← m.locateGlobal i.imm
    return .store target (Slot.ofInt (m.globals.getD g 0))
  | .setGlobal => do
    let bits ← m.readBits i.a
    let g ← m.locateGlobal i.imm
    return .setGlobal g (Slot.asInt bits)
  | .moveImm => m.update i fun _ => .ok (Slot.ofInt i.imm)
  | .cmp => m.skipIf i fun a b => a == b
  | .gt => m.skipIf i fun a b => b < a
  | .gte => m.skipIf i fun a b => b ≤ a
  | .jumpIf => do
    let bits ← m.readBits i.a
    return if Slot.asInt bits == 0 then .idle else .jump i.imm.toInt64
  | .jump => .ok (.jump i.imm.toInt64)
  | .call => m.callEffect i.imm.toInt64
  | .ret => m.returnEffect i
  | .loadRet => m.update i fun _ => .ok (Slot.ofInt m.result)
  | .print => m.printEffect i
  | .halt => .ok .halt

/-- Works out an instruction. -/
def effect (m : Machine) (i : Instruction) : Except Failure Effect :=
  match Operation.ofByte? i.opcode with
  | some op => m.operationEffect i op
  | none => .error (.opcode i.opcode)

/-! ## Stepping -/

/-- The word at an address. -/
def wordAt? (m : Machine) (pc : Int64) : Option Word := do
  let i ← position? pc m.code.size
  m.code[i]?

/-- The opcode at an address. -/
def opcodeAt (m : Machine) (pc : Int64) : UInt8 :=
  match m.wordAt? pc with
  | some w => (Instruction.decode w).opcode
  | none => noOpcode

/-- Whether the run has used up its instructions. -/
def spent (m : Machine) : Bool :=
  0 < m.budget && m.budget.toInt ≤ m.steps

/-- Adds to the trace of a machine that is being traced. -/
def note (m : Machine) (line : TraceLine) : Machine :=
  if m.tracing then { m with trace := m.trace.push line } else m

/-- Counts an instruction and moves past it. -/
def advance (m : Machine) : Machine :=
  { m with
    steps := m.steps + 1
    frame := { m.frame with pc := m.frame.pc + 1 } }

/-- Applies an effect, unless the machine breaks down on it. -/
def perform (m : Machine) (e : Effect) : Machine × StepOutcome :=
  match m.breakdown? e with
  | some b => (m, .broke b)
  | none =>
    let m := m.apply e
    (m, if m.halted then .ended else .running)

/-- Executes a fetched instruction. -/
def execute (m : Machine) (i : Instruction) : Machine × StepOutcome :=
  let pc := m.frame.pc
  let m := m.advance
  let m := m.note (.executing pc i m.frame m.depth)
  match m.effect i with
  | .ok e => m.perform e
  | .error cause => (m, .failed (.fault pc i.opcode cause))

/-- Executes one instruction. A program that has ended stays so. -/
def step (m : Machine) : Machine × StepOutcome :=
  if m.closed then (m, .failed (.plain .closed))
  else if m.halted then (m, .ended)
  else if m.spent then
    (m, .failed (.fault m.frame.pc (m.opcodeAt m.frame.pc) (.budget m.steps)))
  else
    match m.wordAt? m.frame.pc with
    | none => (m, .failed (.fault m.frame.pc noOpcode (.fetch m.frame.pc m.code.size)))
    | some w => m.execute (Instruction.decode w)

end Machine

end WindowMachine
