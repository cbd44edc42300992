import WindowMachine.Machine.Step

/-!
The same instruction and the same step, worked in place: one check and one write after the
other, in the order in which they happen. Nothing is undone. A failure leaves the machine as the
writes before it have made it, and a breakdown leaves no machine behind.
-/

namespace WindowMachine

/-- Work on a machine. Outermost is the failure, so that the machine survives it. -/
abbrev InPlace := ExceptT Failure (StateT Machine (Except Breakdown))

namespace InPlace

/-- Does a piece of work on a machine. -/
def on {α : Type} (work : InPlace α) (m : Machine) :
    Except Breakdown (Except Failure α × Machine) :=
  StateT.run (ExceptT.run work) m

/-! ## Checks and writes -/

/-- Looks something up. -/
def read {α : Type} (look : Machine → α) : InPlace α := do
  return look (← get)

/-- Looks something up that may not be there. -/
def check {α : Type} (look : Machine → Except Failure α) : InPlace α := do
  ofExcept (look (← get))

/-- Changes the machine. -/
def write (change : Machine → Machine) : InPlace Unit := modify change

/-- Stops for good. -/
def breakDown {α : Type} (b : Breakdown) : InPlace α := throwThe Breakdown b

/-- The stack position of a register. -/
def reg (r : UInt8) : InPlace Nat := check (·.locate r)

/-- The position of a global. -/
def global (index : Int32) : InPlace Nat := check (·.locateGlobal index)

/-- The bits at a stack position. -/
def bits (place : Nat) : InPlace Slot := read (·.bitsAt place)

/-- The integer at a stack position. -/
def int (place : Nat) : InPlace Int32 := return Slot.asInt (← bits place)

/-- Writes a stack position. -/
def store (place : Nat) (bits : Slot) : InPlace Unit :=
  write fun m => { m with stack := m.stack.setIfInBounds place bits }

/-- Writes the slot at an index, which is a position or breaks the machine down. -/
def storeAt (index : Int64) (bits : Slot) : InPlace Unit := do
  match position? index (← read (·.stack.size)) with
  | some place => store place bits
  | none => breakDown (.slot index)

/-- Writes a global. -/
def setGlobal (place : Nat) (value : Int32) : InPlace Unit :=
  write fun m => { m with globals := m.globals.setIfInBounds place value }

/-- Moves the top. -/
def setTop (top : Int64) : InPlace Unit :=
  write fun m => { m with frame := { m.frame with top := top } }

/-- Moves the next address. -/
def jump (offset : Int64) : InPlace Unit :=
  write fun m => { m with frame := { m.frame with pc := m.frame.pc + offset } }

/-- Makes a frame the current one. -/
def setFrame (f : Frame) : InPlace Unit := write fun m => { m with frame := f }

/-! ## Calls -/

/-- Puts a frame on the call stack, if there is room. -/
def suspend (f : Frame) : InPlace Unit := do
  let depth ← read (·.callers.size)
  if depth = (← read (·.capacities.depth.toInt.toNat)) then
    throw (.depth depth)
  write fun m => { m with callers := m.callers.push f }

/-- Takes the most recent frame off the call stack. -/
def unsuspend : InPlace Frame := do
  match ← read (·.callers.back?) with
  | none => throw (.plain .callStackUnderflow)
  | some f =>
    write fun m => { m with callers := m.callers.pop }
    return f

/-- Zeroes a number of slots, from an index on. -/
def zeroFrom (index : Int64) : Nat → InPlace Unit
  | 0 => return
  | count + 1 => do
    storeAt index 0
    zeroFrom (index + 1) count

/-- Zeroes the slots from one index to another. The last index of a frame lies below the stack's
size, so that counting up to it does not wrap. -/
def zero (first last : Int64) : InPlace Unit :=
  zeroFrom first (last.toInt + 1 - first.toInt).toNat

/-- Builds the frame of a call. -/
def enter (method : Method) : InPlace Unit := do
  let caller ← read (·.frame)
  let base := caller.top - method.args + 1
  if base < 0 then
    throw (.arguments method.args (caller.top + 1))
  let top := caller.top + method.locals
  if Int64.ofNat (← read (·.stack.size)) ≤ top then
    throw (.window method.locals caller.top)
  suspend caller
  zero (caller.top + 1) top
  setFrame ⟨base, top, method.entry, top + 1⟩

/-- Calls a method. -/
def call (index : Int64) : InPlace Unit := do
  match ← read (·.method? index) with
  | none => throw (.noMethod index)
  | some method => enter method

/-- Restores the frame of the most recent caller. -/
def leave : InPlace Unit := do
  setFrame (← unsuspend)

/-! ## Instructions -/

/-- The arithmetic that the operations on registers share with those on a register and a
number. -/
def intOp (op : Operation) (a b : Int32) : Except Failure Int32 :=
  match op with
  | .add | .addImm => .ok (a + b)
  | .sub | .subImm => .ok (a - b)
  | .mul | .mulImm => .ok (a * b)
  | .div | .divImm => intDiv a b
  | .mod | .modImm => intMod a b
  | .exp | .expImm => .ok (intPower a b)
  | _ => .error (.opcode op.byte)

/-- Single-precision arithmetic; the root has no use for the second slot. -/
def floatOp (op : Operation) (a b : Slot) : Slot :=
  match op with
  | .fadd => Slot.basic (· + ·) a b
  | .fsub => Slot.basic (· - ·) a b
  | .fmul => Slot.basic (· * ·) a b
  | .fdiv => Slot.basic (· / ·) a b
  | .fmod => Slot.remainder a b
  | .fsqrt => Slot.root a
  | _ => Slot.power a b

/-- Whether a comparison skips the next instruction. -/
def skips (op : Operation) (a b : Int32) : Bool :=
  match op with
  | .cmp => a == b
  | .gt => b < a
  | _ => b ≤ a

/-- Prints a line to wherever the machine prints. -/
def print (place : Nat) : InPlace Unit := do
  match ← read (·.sink) with
  | .drop => return
  | .keep =>
    let value ← int place
    write fun m => { m with output := m.output ++ Numeral.ofInt value.toInt ++ "\n" }
  | .refuse reason => throw (.output reason)

/-- Executes an operation. The next address is already past it. -/
def operate (i : Instruction) (op : Operation) : InPlace Unit :=
  match op with
  | .add | .sub | .mul | .div | .mod | .exp => do
    let a ← reg i.a
    let b ← reg i.b
    let c ← reg i.c
    let v ← ofExcept (intOp op (← int b) (← int c))
    store a (Slot.ofInt v)
  | .sqrt => do
    let a ← reg i.a
    let b ← reg i.b
    store a (Slot.ofInt (intSqrt (← int b)))
  | .addImm | .subImm | .mulImm | .divImm | .modImm | .expImm => do
    let a ← reg i.a
    let v ← ofExcept (intOp op (← int a) i.imm)
    store a (Slot.ofInt v)
  | .sqrtImm => do
    let a ← reg i.a
    store a (Slot.ofInt (truncate i.imm.toFloat.sqrt))
  | .fadd | .fsub | .fmul | .fdiv | .fmod | .fexp => do
    let a ← reg i.a
    let b ← reg i.b
    let c ← reg i.c
    store a (floatOp op (← bits b) (← bits c))
  | .fsqrt => do
    let a ← reg i.a
    let b ← reg i.b
    store a (floatOp op (← bits b) 0)
  | .push => do
    let a ← reg i.a
    let top := (← read (·.frame.top)) + 1
    let size ← read (·.stack.size)
    match position? top size with
    | none => throw (.push top size)
    | some place =>
      store place (← bits a)
      setTop top
  | .pop => do
    let a ← reg i.a
    let top ← read (·.frame.top)
    match position? top (← read (·.stack.size)) with
    | none => throw (.pop top)
    | some place =>
      store a (← bits place)
      setTop (top - 1)
  | .mov => do
    let a ← reg i.a
    let b ← reg i.b
    store a (← bits b)
  | .loadGlobal | .setGlobal => do
    let a ← reg i.a
    let g ← global i.imm
    if op = .loadGlobal then
      store a (Slot.ofInt (← read (·.globals.getD g 0)))
    else
      setGlobal g (← int a)
  | .moveImm => do
    let a ← reg i.a
    store a (Slot.ofInt i.imm)
  | .cmp | .gt | .gte => do
    let a ← reg i.a
    let b ← reg i.b
    if skips op (← int a) (← int b) then
      jump 1
  | .jumpIf => do
    let a ← reg i.a
    if (← int a) != 0 then
      jump i.imm.toInt64
  | .jump => jump i.imm.toInt64
  | .call => call i.imm.toInt64
  | .ret => do
    let a ← reg i.a
    let v ← int a
    leave
    write fun m => { m with result := v }
  | .loadRet => do
    let a ← reg i.a
    store a (Slot.ofInt (← read (·.result)))
  | .print => do
    let a ← reg i.a
    print a
  | .halt => write fun m => { m with halted := true }

/-- Executes an instruction. -/
def exec (i : Instruction) : InPlace Unit :=
  match Operation.ofByte? i.opcode with
  | some op => operate i op
  | none => throw (.opcode i.opcode)

/-- Executes the instruction of an address, and tells whether the program has ended. A failure
becomes a fault at that address. -/
def attempt (pc : Int64) (i : Instruction) : InPlace Bool := do
  try
    exec i
  catch why =>
    throw (.fault pc i.opcode why)
  read (·.halted)

/-- Counts an instruction, moves past it and notes it down before it is executed. -/
def execute (i : Instruction) : InPlace Bool := do
  let pc ← read (·.frame.pc)
  write fun m => { m with steps := m.steps + 1 }
  jump 1
  write fun m => m.note (.executing pc i m.frame m.depth)
  attempt pc i

/-- Executes one instruction. A program that has ended stays so. -/
def step : InPlace Bool := do
  if ← read (·.closed) then
    throw (.plain .closed)
  else if ← read (·.halted) then
    return true
  else
    let pc ← read (·.frame.pc)
    if ← read (·.spent) then
      throw (.fault pc (← read (·.opcodeAt pc)) (.budget (← read (·.steps))))
    match ← read (·.wordAt? pc) with
    | none => throw (.fault pc noOpcode (.fetch pc (← read (·.code.size))))
    | some w => execute (Instruction.decode w)

end InPlace

end WindowMachine
