import WindowMachine.Proofs.Machine.Effects

/-!
# What an instruction sees

An instruction reads the registers that it names, its number, and of the
machine the frame, the tables, the slots of its window and the slot at the
top.  Two machines that look alike in these, given two instructions that
agree in the operands of their operation, work out the same effect.  The code,
the trace and all other slots stay out of sight.
-/

namespace WindowMachine

/-- Two instructions with the same registers, as far as an operation names
any, and the same number. -/
structure Instruction.SameOperands (op : Operation) (i j : Instruction) :
    Prop where
  a : 0 < op.registers → j.a = i.a
  b : 1 < op.registers → j.b = i.b
  c : 2 < op.registers → j.c = i.c
  imm : j.imm = i.imm

theorem Instruction.SameOperands.refl (op : Operation) (i : Instruction) :
    SameOperands op i i :=
  ⟨fun _ => rfl, fun _ => rfl, fun _ => rfl, rfl⟩

namespace Machine

/-- Whether an instruction can read a slot: as a register of the current
frame, or as the top of the stack. -/
def Shows (m : Machine) (slot : Nat) : Prop :=
  (∃ r, m.locate r = .ok slot) ∨ m.frame.top.toInt = slot

/-- A machine that looks to every instruction like another one. -/
structure Resembles (m n : Machine) : Prop where
  capacities : n.capacities = m.capacities
  size : n.stack.size = m.stack.size
  globals : n.globals = m.globals
  methods : n.methods = m.methods
  frame : n.frame = m.frame
  callers : n.callers = m.callers
  result : n.result = m.result
  sink : n.sink = m.sink
  bits (slot : Nat) : m.Shows slot → n.bitsAt slot = m.bitsAt slot

namespace Resembles

variable {m n : Machine} {i j : Instruction} {op : Operation}
  (alike : m.Resembles n)

include alike

/-! ## Registers -/

theorem locate (r : UInt8) : n.locate r = m.locate r := by
  simp only [Machine.locate, alike.frame, alike.size]

theorem readBits (r : UInt8) : n.readBits r = m.readBits r := by
  simp only [Machine.readBits, alike.locate]
  cases located : m.locate r with
  | error why =>
      rfl
  | ok slot =>
      have same := alike.bits slot (.inl ⟨r, located⟩)
      simp [bind, Except.bind, same]

theorem locateGlobal (index : Int32) :
    n.locateGlobal index = m.locateGlobal index := by
  simp only [Machine.locateGlobal, alike.globals]

/-! ## Families of operations -/

theorem fromTwo {f : Slot → Slot → Except Failure Slot}
    (a : j.a = i.a) (b : j.b = i.b) (c : j.c = i.c) :
    n.fromTwo j f = m.fromTwo i f := by
  simp only [Machine.fromTwo, alike.locate, alike.readBits, a, b, c]

theorem fromOne {f : Slot → Slot} (a : j.a = i.a) (b : j.b = i.b) :
    n.fromOne j f = m.fromOne i f := by
  simp only [Machine.fromOne, alike.locate, alike.readBits, a, b]

theorem update {f : Slot → Except Failure Slot} (a : j.a = i.a) :
    n.update j f = m.update i f := by
  simp only [Machine.update, alike.locate, a]
  cases located : m.locate i.a with
  | error why =>
      rfl
  | ok slot =>
      have same := alike.bits slot (.inl ⟨i.a, located⟩)
      simp [bind, Except.bind, same]

theorem skipIf {holds : Int32 → Int32 → Bool}
    (a : j.a = i.a) (b : j.b = i.b) :
    n.skipIf j holds = m.skipIf i holds := by
  simp only [Machine.skipIf, alike.readBits, a, b]

theorem popEffect (a : j.a = i.a) : n.popEffect j = m.popEffect i := by
  simp only [Machine.popEffect, alike.locate, alike.frame, alike.size, a]
  cases held : position? m.frame.top m.stack.size with
  | none =>
      rfl
  | some slot =>
      have top := (position?_eq_some_iff.mp held).1
      simp only [alike.bits slot (.inr top)]

theorem callEffect (index : Int64) :
    n.callEffect index = m.callEffect index := by
  simp only [Machine.callEffect, Machine.method?, Machine.calleeFrame,
    alike.methods, alike.frame, alike.size, alike.callers,
    alike.capacities]

/-! ## Effects -/

/-- Every operation works out the same effect on machines that look alike,
whatever the registers that it does not name. -/
theorem operationEffect (same : i.SameOperands op j) :
    n.operationEffect j op = m.operationEffect i op := by
  have imm := same.imm
  cases op with
  | add | sub | mul | div | mod | exp
  | fadd | fsub | fmul | fdiv | fmod | fexp =>
      exact alike.fromTwo (same.a (by decide)) (same.b (by decide))
        (same.c (by decide))
  | sqrt | fsqrt | mov =>
      exact alike.fromOne (same.a (by decide)) (same.b (by decide))
  | addImm | subImm | mulImm | divImm | modImm | expImm | sqrtImm
  | moveImm =>
      simp only [Machine.operationEffect, imm]
      exact alike.update (same.a (by decide))
  | loadRet =>
      simp only [Machine.operationEffect, alike.result]
      exact alike.update (same.a (by decide))
  | push =>
      simp only [Machine.operationEffect, Machine.pushEffect,
        alike.readBits, alike.frame, alike.size, same.a (by decide)]
  | pop =>
      exact alike.popEffect (same.a (by decide))
  | loadGlobal =>
      simp only [Machine.operationEffect, alike.locate,
        alike.locateGlobal, alike.globals, imm, same.a (by decide)]
  | setGlobal =>
      simp only [Machine.operationEffect, alike.readBits,
        alike.locateGlobal, imm, same.a (by decide)]
  | cmp | gt | gte =>
      simp only [Machine.operationEffect]
      exact alike.skipIf (same.a (by decide)) (same.b (by decide))
  | jumpIf =>
      simp only [Machine.operationEffect, alike.readBits, imm,
        same.a (by decide)]
  | jump =>
      simp only [Machine.operationEffect, imm]
  | call =>
      simp only [Machine.operationEffect, imm, alike.callEffect]
  | ret =>
      simp only [Machine.operationEffect, Machine.returnEffect,
        alike.readBits, alike.callers, same.a (by decide)]
  | print =>
      simp only [Machine.operationEffect, Machine.printEffect,
        alike.readBits, alike.sink, same.a (by decide)]
  | halt =>
      rfl

theorem effect (opcode : j.opcode = i.opcode)
    (same : ∀ op, Operation.ofByte? i.opcode = some op →
      i.SameOperands op j) :
    n.effect j = m.effect i := by
  simp only [Machine.effect, opcode]
  cases known : Operation.ofByte? i.opcode with
  | none =>
      rfl
  | some op =>
      exact alike.operationEffect (same op known)

theorem breakdown? (e : Effect) : n.breakdown? e = m.breakdown? e := by
  cases e with
  | enter callee =>
      simp only [Machine.breakdown?, alike.frame]
  | _ =>
      rfl

end Resembles

/-! ## Steps side by side -/

variable {m n : Machine} {i j : Instruction}

/-- How a step comes out that executes no instruction. -/
def unexecuted (m : Machine) : StepOutcome :=
  if m.closed then .failed (.plain .closed)
  else if m.halted then .ended
  else if m.spent then
    .failed (.fault m.frame.pc (m.opcodeAt m.frame.pc) (.budget m.steps))
  else .failed (.fault m.frame.pc noOpcode (.fetch m.frame.pc m.code.size))

theorem step_of_next?_none (nothing : m.next? = none) :
    m.step = (m, m.unexecuted) := by
  by_cases closed : m.closed = true
  · simp [step, unexecuted, closed]
  · by_cases halted : m.halted = true
    · simp [step, unexecuted, closed, halted]
    · by_cases spent : m.spent = true
      · simp [step, unexecuted, closed, halted, spent]
      · have word : m.wordAt? m.frame.pc = none := by
          simpa [next?, closed, halted, spent] using nothing
        simp [step, unexecuted, closed, halted, spent, word]

theorem apply_halted_congr (halted : n.halted = m.halted) (e : Effect) :
    (n.apply e).halted = (m.apply e).halted := by
  cases e with
  | print value =>
      rw [apply_print n, apply_print m]
      exact halted
  | halt =>
      rfl
  | _ =>
      exact halted

/-- Steps of machines that look alike come out alike: both stop after the
fetch, or both apply the same effect. -/
theorem step_alongside
    (fetches : m.next? = some i) (alsoFetches : n.next? = some j)
    (alike : (m.fetched i).Resembles (n.fetched j))
    (opcode : j.opcode = i.opcode)
    (same : ∀ op, Operation.ofByte? i.opcode = some op →
      i.SameOperands op j) :
    n.step.2 = m.step.2 ∧
      (m.step.1 = m.fetched i ∧ n.step.1 = n.fetched j ∨
        ∃ e, (m.fetched i).effect i = .ok e ∧
          m.step.1 = (m.fetched i).apply e ∧
            n.step.1 = (n.fetched j).apply e) := by
  have pc : n.frame.pc = m.frame.pc := by
    have frames := congrArg Frame.pc alike.frame
    simpa using frames
  have halted : (n.fetched j).halted = (m.fetched i).halted := by
    simp [halted_of_next? fetches, halted_of_next? alsoFetches]
  rw [step_eq_execute fetches, step_eq_execute alsoFetches, execute_eq,
    execute_eq, alike.effect opcode same]
  cases worked : (m.fetched i).effect i with
  | error cause =>
      simp [pc, opcode]
  | ok e =>
      simp only [perform, alike.breakdown? e]
      cases (m.fetched i).breakdown? e with
      | some b =>
          simp
      | none =>
          simp [apply_halted_congr halted e]

end Machine

end WindowMachine
