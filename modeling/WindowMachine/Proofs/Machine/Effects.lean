import WindowMachine.Machine.Run
import WindowMachine.Proofs.Checks

/-!
# What an instruction and a step can do

Every result about runs rests on two case distinctions, which are made once
and for all here:

* `Machine.Admits` lists the effects of an operation, each with the checks
  that it has passed;
* `Machine.StepCase` lists the ways in which a step comes out, each with the
  machine that it leaves behind.

The lemmas on `fetched` and `apply` say which parts of a machine neither the
fetch nor the effect touches.
-/

namespace WindowMachine

/-! ## Operations by what they change -/

namespace Operation

/-- Whether an operation writes its first register and nothing else. -/
def computes : Operation → Bool
  | .push | .pop | .setGlobal | .cmp | .gt | .gte | .jumpIf | .jump
  | .call | .ret | .print | .halt => false
  | _ => true

/-- Whether an operation compares two registers. -/
def compares : Operation → Bool
  | .cmp | .gt | .gte => true
  | _ => false

end Operation

namespace Machine

variable {m : Machine} {i : Instruction} {e : Effect}

/-! ## Registers -/

theorem locate_eq_ok_iff {r : UInt8} {slot : Nat} :
    m.locate r = .ok slot ↔
      (m.frame.base + Int64.ofNat r.toNat).toInt = slot ∧
        slot < m.stack.size ∧
          m.frame.base + Int64.ofNat r.toNat < m.frame.limit := by
  simp only [locate]
  cases place :
      position? (m.frame.base + Int64.ofNat r.toNat) m.stack.size with
  | none =>
      simp only [reduceCtorEq, false_iff]
      rintro ⟨index, inside, -⟩
      have := position?_eq_some_iff.mpr ⟨index, inside⟩
      simp [place] at this
  | some found =>
      obtain ⟨index, inside⟩ := position?_eq_some_iff.mp place
      by_cases below : m.frame.base + Int64.ofNat r.toNat < m.frame.limit
      · simp only [below, if_true, Except.ok.injEq, and_true, index]
        omega
      · simp [below]

theorem register_eq_ok_iff {r : UInt8} {value : Int32} :
    m.register r = .ok value ↔
      ∃ bits, m.readBits r = .ok bits ∧ Slot.asInt bits = value := by
  simp only [register, readBits, bind_eq_ok_iff, pure_eq_ok_iff]
  constructor
  · rintro ⟨slot, located, rfl⟩
    exact ⟨_, ⟨slot, located, rfl⟩, rfl⟩
  · rintro ⟨_, ⟨slot, located, rfl⟩, rfl⟩
    exact ⟨slot, located, rfl⟩

theorem locateGlobal_eq_ok_iff {index : Int32} {g : Nat} :
    m.locateGlobal index = .ok g ↔
      position? index.toInt64 m.globals.size = some g := by
  simp only [locateGlobal]
  cases position? index.toInt64 m.globals.size with
  | none =>
      simp
  | some found =>
      simp

/-! ## The frame of a call -/

/-- The frame that a call builds once its checks are passed. -/
def callee (m : Machine) (method : Method) : Frame :=
  ⟨m.frame.top - method.args + 1, m.frame.top + method.locals,
    method.entry, m.frame.top + method.locals + 1⟩

theorem calleeFrame_eq_ok_iff {method : Method} {f : Frame} :
    m.calleeFrame method = .ok f ↔
      ¬ (m.callee method).base < 0 ∧
        ¬ Int64.ofNat m.stack.size ≤ (m.callee method).top ∧
          m.callers.size ≠ m.capacities.depth.toInt.toNat ∧
            f = m.callee method := by
  simp only [calleeFrame, callee]
  split
  · simp [*]
  · split
    · simp [*]
    · split
      · simp [*]
      · simp only [*, Except.ok.injEq, not_false_eq_true, ne_eq, true_and]
        exact eq_comm

/-! ## Effects -/

/-- The effects that an operation can have, each with the checks that it has
passed. -/
inductive Admits (m : Machine) (i : Instruction) :
    Operation → Effect → Prop
  | idle {op : Operation} :
      op.compares = true ∨ op = .jumpIf →
      Admits m i op .idle
  | store {op : Operation} {slot : Nat} {bits : Slot} :
      op.computes = true →
      m.locate i.a = .ok slot →
      Admits m i op (.store slot bits)
  | push {slot : Nat} {bits : Slot} :
      m.readBits i.a = .ok bits →
      position? (m.frame.top + 1) m.stack.size = some slot →
      Admits m i .push (.push slot bits)
  | pop {slot source : Nat} :
      m.locate i.a = .ok slot →
      position? m.frame.top m.stack.size = some source →
      Admits m i .pop (.pop slot (m.bitsAt source))
  | setGlobal {index : Nat} {bits : Slot} :
      m.readBits i.a = .ok bits →
      position? i.imm.toInt64 m.globals.size = some index →
      Admits m i .setGlobal (.setGlobal index (Slot.asInt bits))
  | skip {op : Operation} :
      op.compares = true →
      Admits m i op (.jump 1)
  | jump :
      Admits m i .jump (.jump i.imm.toInt64)
  | jumpIf {bits : Slot} :
      m.readBits i.a = .ok bits →
      Slot.asInt bits ≠ 0 →
      Admits m i .jumpIf (.jump i.imm.toInt64)
  | enter {method : Method} {callee : Frame} :
      m.method? i.imm.toInt64 = some method →
      m.calleeFrame method = .ok callee →
      Admits m i .call (.enter callee)
  | leave {caller : Frame} {bits : Slot} :
      m.readBits i.a = .ok bits →
      m.callers.back? = some caller →
      Admits m i .ret (.leave caller (Slot.asInt bits))
  | print {bits : Slot} :
      m.readBits i.a = .ok bits →
      (∀ reason, m.sink ≠ .refuse reason) →
      Admits m i .print (.print (Slot.asInt bits))
  | halt :
      Admits m i .halt .halt

private theorem fromTwo_stores
    {f : Slot → Slot → Except Failure Slot}
    (worked : m.fromTwo i f = .ok e) :
    ∃ slot bits, m.locate i.a = .ok slot ∧ e = .store slot bits := by
  simp only [fromTwo, bind_eq_ok_iff, pure_eq_ok_iff] at worked
  obtain ⟨slot, located, _, _, _, _, bits, _, equality⟩ := worked
  exact ⟨slot, bits, located, equality.symm⟩

private theorem fromOne_stores {f : Slot → Slot}
    (worked : m.fromOne i f = .ok e) :
    ∃ slot bits, m.locate i.a = .ok slot ∧ e = .store slot bits := by
  simp only [fromOne, bind_eq_ok_iff, pure_eq_ok_iff] at worked
  obtain ⟨slot, located, source, _, equality⟩ := worked
  exact ⟨slot, f source, located, equality.symm⟩

theorem update_stores {f : Slot → Except Failure Slot}
    (worked : m.update i f = .ok e) :
    ∃ slot bits, m.locate i.a = .ok slot ∧ e = .store slot bits := by
  simp only [update, bind_eq_ok_iff, pure_eq_ok_iff] at worked
  obtain ⟨slot, located, bits, _, equality⟩ := worked
  exact ⟨slot, bits, located, equality.symm⟩

private theorem computes_stores {op : Operation}
    (computes : op.computes = true)
    (worked : m.operationEffect i op = .ok e) :
    ∃ slot bits, m.locate i.a = .ok slot ∧ e = .store slot bits := by
  cases op with
  | add | sub | mul | div | mod | exp
  | fadd | fsub | fmul | fdiv | fmod | fexp =>
      exact fromTwo_stores worked
  | sqrt | fsqrt | mov =>
      exact fromOne_stores worked
  | addImm | subImm | mulImm | divImm | modImm | sqrtImm | expImm
  | moveImm | loadRet =>
      simp only [operationEffect] at worked
      exact update_stores worked
  | loadGlobal =>
      simp only [operationEffect, bind_eq_ok_iff, pure_eq_ok_iff]
        at worked
      obtain ⟨slot, located, _, _, equality⟩ := worked
      exact ⟨slot, _, located, equality.symm⟩
  | push | pop | setGlobal | cmp | gt | gte | jumpIf | jump
  | call | ret | print | halt =>
      cases computes

private theorem skipIf_admits
    {op : Operation} {holds : Int32 → Int32 → Bool}
    (compares : op.compares = true)
    (worked : m.skipIf i holds = .ok e) :
    m.Admits i op e := by
  simp only [skipIf, bind_eq_ok_iff, pure_eq_ok_iff] at worked
  obtain ⟨left, _, right, _, equality⟩ := worked
  subst equality
  split
  · exact .skip compares
  · exact .idle (.inl compares)

theorem operationEffect_admits {op : Operation}
    (worked : m.operationEffect i op = .ok e) :
    m.Admits i op e := by
  by_cases computes : op.computes = true
  · obtain ⟨slot, bits, located, rfl⟩ :=
      computes_stores computes worked
    exact .store computes located
  · cases op with
    | push =>
        simp only [operationEffect, pushEffect, bind_eq_ok_iff] at worked
        obtain ⟨bits, read, worked⟩ := worked
        split at worked
        · cases worked
          exact .push read ‹_›
        · cases worked
    | pop =>
        simp only [operationEffect, popEffect, bind_eq_ok_iff] at worked
        obtain ⟨slot, located, worked⟩ := worked
        split at worked
        · cases worked
          exact .pop located ‹_›
        · cases worked
    | setGlobal =>
        simp only [operationEffect, bind_eq_ok_iff, pure_eq_ok_iff]
          at worked
        obtain ⟨bits, read, index, found, rfl⟩ := worked
        exact .setGlobal read (locateGlobal_eq_ok_iff.mp found)
    | cmp | gt | gte =>
        simp only [operationEffect] at worked
        exact skipIf_admits rfl worked
    | jumpIf =>
        simp only [operationEffect, bind_eq_ok_iff, pure_eq_ok_iff]
          at worked
        obtain ⟨bits, read, rfl⟩ := worked
        split
        · exact .idle (.inr rfl)
        · exact .jumpIf read (by simp_all)
    | jump =>
        cases worked
        exact .jump
    | call =>
        simp only [operationEffect, callEffect] at worked
        split at worked
        · cases worked
        · simp only [bind_eq_ok_iff, pure_eq_ok_iff] at worked
          obtain ⟨callee, fits, rfl⟩ := worked
          exact .enter ‹_› fits
    | ret =>
        simp only [operationEffect, returnEffect, bind_eq_ok_iff]
          at worked
        obtain ⟨bits, read, worked⟩ := worked
        split at worked
        · cases worked
          exact .leave read ‹_›
        · cases worked
    | print =>
        simp only [operationEffect, printEffect, bind_eq_ok_iff]
          at worked
        obtain ⟨bits, read, worked⟩ := worked
        split at worked
        · cases worked
        · cases worked
          exact .print read ‹_›
    | halt =>
        cases worked
        exact .halt
    | _ =>
        exact absurd rfl computes

theorem effect_eq_ok_iff :
    m.effect i = .ok e ↔
      ∃ op, Operation.ofByte? i.opcode = some op ∧
        m.operationEffect i op = .ok e := by
  simp only [effect]
  cases Operation.ofByte? i.opcode with
  | none =>
      simp
  | some op =>
      simp

theorem effect_admits (worked : m.effect i = .ok e) :
    ∃ op, Operation.ofByte? i.opcode = some op ∧ m.Admits i op e := by
  obtain ⟨op, known, worked⟩ := effect_eq_ok_iff.mp worked
  exact ⟨op, known, operationEffect_admits worked⟩

/-! ## Fetching -/

/-- The instruction that the next step executes, if it executes any. -/
def next? (m : Machine) : Option Instruction :=
  if m.closed ∨ m.halted ∨ m.spent then none
  else (m.wordAt? m.frame.pc).map Instruction.decode

/-- A machine that has counted, passed and noted down an instruction, but not
yet worked it out. -/
def fetched (m : Machine) (i : Instruction) : Machine :=
  m.advance.note
    (.executing m.frame.pc i m.advance.frame m.advance.depth)

section Fetched

variable (m : Machine) (i : Instruction)

/-- Apart from the step count, the next address and the trace, fetching
leaves a machine as it was. -/
theorem fetched_eq :
    m.fetched i =
      { m with
        steps := m.steps + 1
        frame := { m.frame with pc := m.frame.pc + 1 }
        trace := (m.fetched i).trace } := by
  by_cases tracing : m.tracing = true
  · simp [fetched, note, advance, tracing]
  · simp [fetched, note, advance, tracing]

@[simp]
theorem fetched_frame :
    (m.fetched i).frame = { m.frame with pc := m.frame.pc + 1 } := by
  rw [fetched_eq]

@[simp]
theorem fetched_capacities :
    (m.fetched i).capacities = m.capacities := by
  rw [fetched_eq]

@[simp]
theorem fetched_stack : (m.fetched i).stack = m.stack := by
  rw [fetched_eq]

@[simp]
theorem fetched_globals : (m.fetched i).globals = m.globals := by
  rw [fetched_eq]

@[simp]
theorem fetched_methods : (m.fetched i).methods = m.methods := by
  rw [fetched_eq]

@[simp]
theorem fetched_callers : (m.fetched i).callers = m.callers := by
  rw [fetched_eq]

@[simp]
theorem fetched_halted : (m.fetched i).halted = m.halted := by
  rw [fetched_eq]

@[simp]
theorem fetched_result : (m.fetched i).result = m.result := by
  rw [fetched_eq]

@[simp]
theorem fetched_code : (m.fetched i).code = m.code := by
  rw [fetched_eq]

@[simp]
theorem fetched_steps : (m.fetched i).steps = m.steps + 1 := by
  rw [fetched_eq]

@[simp]
theorem fetched_closed : (m.fetched i).closed = m.closed := by
  rw [fetched_eq]

@[simp]
theorem fetched_budget : (m.fetched i).budget = m.budget := by
  rw [fetched_eq]

@[simp]
theorem fetched_tracing : (m.fetched i).tracing = m.tracing := by
  rw [fetched_eq]

@[simp]
theorem fetched_sink : (m.fetched i).sink = m.sink := by
  rw [fetched_eq]

@[simp]
theorem fetched_output : (m.fetched i).output = m.output := by
  rw [fetched_eq]

@[simp]
theorem fetched_method? (index : Int64) :
    (m.fetched i).method? index = m.method? index := by
  simp [method?]

@[simp]
theorem fetched_locate (r : UInt8) :
    (m.fetched i).locate r = m.locate r := by
  simp [locate]

@[simp]
theorem fetched_readBits (r : UInt8) :
    (m.fetched i).readBits r = m.readBits r := by
  simp [readBits, bitsAt]

@[simp]
theorem fetched_calleeFrame (method : Method) :
    (m.fetched i).calleeFrame method = m.calleeFrame method := by
  simp [calleeFrame]

end Fetched

theorem halted_of_next? (fetches : m.next? = some i) :
    m.halted = false := by
  unfold next? at fetches
  split at fetches
  · cases fetches
  · simp_all

/-! ## Steps -/

/-- The ways in which a step of a machine comes out: what it leaves behind,
and its outcome. -/
inductive StepCase (m : Machine) : Machine → StepOutcome → Prop
  | closed :
      m.closed = true →
      StepCase m m (.failed (.plain .closed))
  | finished :
      m.closed = false →
      m.halted = true →
      StepCase m m .ended
  | spent :
      m.closed = false →
      m.halted = false →
      m.spent = true →
      StepCase m m
        (.failed (.fault m.frame.pc (m.opcodeAt m.frame.pc)
          (.budget m.steps)))
  | unfetched :
      m.closed = false →
      m.halted = false →
      m.spent = false →
      m.wordAt? m.frame.pc = none →
      StepCase m m
        (.failed (.fault m.frame.pc noOpcode
          (.fetch m.frame.pc m.code.size)))
  | faulted {i : Instruction} {cause : Failure} :
      m.next? = some i →
      (m.fetched i).effect i = .error cause →
      StepCase m (m.fetched i)
        (.failed (.fault m.frame.pc i.opcode cause))
  | broke {i : Instruction} {e : Effect} {b : Breakdown} :
      m.next? = some i →
      (m.fetched i).effect i = .ok e →
      (m.fetched i).breakdown? e = some b →
      StepCase m (m.fetched i) (.broke b)
  | went {i : Instruction} {e : Effect} :
      m.next? = some i →
      (m.fetched i).effect i = .ok e →
      (m.fetched i).breakdown? e = none →
      ((m.fetched i).apply e).halted = false →
      StepCase m ((m.fetched i).apply e) .running
  | ended {i : Instruction} {e : Effect} :
      m.next? = some i →
      (m.fetched i).effect i = .ok e →
      (m.fetched i).breakdown? e = none →
      ((m.fetched i).apply e).halted = true →
      StepCase m ((m.fetched i).apply e) .ended

theorem step_eq_execute (fetches : m.next? = some i) :
    m.step = m.execute i := by
  unfold next? at fetches
  split at fetches
  · cases fetches
  · rename_i ready
    obtain ⟨w, found, rfl⟩ := Option.map_eq_some_iff.mp fetches
    simp only [not_or, Bool.not_eq_true] at ready
    simp [step, ready, found]

theorem execute_eq (m : Machine) (i : Instruction) :
    m.execute i =
      match (m.fetched i).effect i with
      | .ok e => (m.fetched i).perform e
      | .error cause =>
          (m.fetched i, .failed (.fault m.frame.pc i.opcode cause)) :=
  rfl

private theorem execute_case (fetches : m.next? = some i) :
    m.StepCase (m.execute i).1 (m.execute i).2 := by
  rw [execute_eq]
  cases worked : (m.fetched i).effect i with
  | error cause =>
      exact .faulted fetches worked
  | ok e =>
      simp only [perform]
      cases broken : (m.fetched i).breakdown? e with
      | some b =>
          exact .broke fetches worked broken
      | none =>
          cases halts : ((m.fetched i).apply e).halted with
          | true =>
              simpa [halts] using
                StepCase.ended fetches worked broken halts
          | false =>
              simpa [halts] using
                StepCase.went fetches worked broken halts

private theorem step_falls_under_case (m : Machine) :
    m.StepCase m.step.1 m.step.2 := by
  by_cases closed : m.closed = true
  · simpa [step, closed] using StepCase.closed closed
  · by_cases halted : m.halted = true
    · simpa [step, closed, halted] using
        StepCase.finished (by simpa using closed) halted
    · by_cases spent : m.spent = true
      · simpa [step, closed, halted, spent] using
          StepCase.spent (by simpa using closed)
            (by simpa using halted) spent
      · cases word : m.wordAt? m.frame.pc with
        | none =>
            simpa [step, closed, halted, spent, word] using
              StepCase.unfetched (by simpa using closed)
                (by simpa using halted) (by simpa using spent) word
        | some w =>
            have fetches : m.next? = some (Instruction.decode w) := by
              simp [next?, closed, halted, spent, word]
            rw [step_eq_execute fetches]
            exact execute_case fetches

theorem step_case {n : Machine} {outcome : StepOutcome}
    (stepped : m.step = (n, outcome)) :
    m.StepCase n outcome := by
  have falls := step_falls_under_case m
  rwa [stepped] at falls

/-! ## Applying -/

@[simp]
theorem cleared_size (stack : Array Slot) (start count : Nat) :
    (cleared stack start count).size = stack.size := by
  induction count generalizing stack start with
  | zero =>
      rfl
  | succ count inductionHypothesis =>
      simp [cleared, inductionHypothesis]

/-- Clearing zeroes the slots of its range and no other one. -/
theorem cleared_getElem?
    (stack : Array Slot) (start count place : Nat) :
    (cleared stack start count)[place]? =
      if start ≤ place ∧ place < start + count ∧ place < stack.size then
        some 0
      else stack[place]? := by
  induction count generalizing stack start with
  | zero =>
      rw [cleared, if_neg (by omega)]
  | succ count inductionHypothesis =>
      rw [cleared, inductionHypothesis, Array.size_setIfInBounds,
        Array.getElem?_setIfInBounds]
      grind

section Applied

variable (m : Machine) (e : Effect)

/-- Printing changes the output and nothing else. -/
theorem apply_print (value : Int32) :
    m.apply (.print value) =
      { m with output := (m.apply (.print value)).output } := by
  simp only [apply]
  split <;> rfl

@[simp]
theorem apply_capacities : (m.apply e).capacities = m.capacities := by
  cases e with
  | print value =>
      rw [apply_print]
  | _ =>
      rfl

@[simp]
theorem apply_methods : (m.apply e).methods = m.methods := by
  cases e with
  | print value =>
      rw [apply_print]
  | _ =>
      rfl

@[simp]
theorem apply_code : (m.apply e).code = m.code := by
  cases e with
  | print value =>
      rw [apply_print]
  | _ =>
      rfl

@[simp]
theorem apply_trace : (m.apply e).trace = m.trace := by
  cases e with
  | print value =>
      rw [apply_print]
  | _ =>
      rfl

@[simp]
theorem apply_stack_size : (m.apply e).stack.size = m.stack.size := by
  cases e with
  | print value =>
      rw [apply_print]
  | _ =>
      simp [apply]

@[simp]
theorem apply_globals_size :
    (m.apply e).globals.size = m.globals.size := by
  cases e with
  | print value =>
      rw [apply_print]
  | _ =>
      simp [apply]

end Applied

/-! ## Jumps -/

/-- Whether a machine that has come to a jump takes it with its next
step. -/
structure TakesJump (m : Machine) (op : Operation) (i : Instruction) :
    Prop where
  opened : m.closed = false
  running : m.halted = false
  unspent : m.spent = false
  condition :
    op = .jump ∨ ∃ value, m.register i.a = .ok value ∧ value ≠ 0

theorem TakesJump.next? {op : Operation} {w : Word}
    (takes : m.TakesJump op (Instruction.decode w))
    (found : m.wordAt? m.frame.pc = some w) :
    m.next? = some (Instruction.decode w) := by
  simp [Machine.next?, takes.opened, takes.running, takes.unspent, found]

/-- A jump that is taken moves the next address by its number, from behind
the jump. -/
theorem TakesJump.step {op : Operation}
    (takes : m.TakesJump op i)
    (fetches : m.next? = some i)
    (known : Operation.ofByte? i.opcode = some op)
    (jumps : op = .jumpIf ∨ op = .jump) :
    m.step.2 = .running ∧
      m.step.1.frame.pc = m.frame.pc + 1 + i.imm.toInt64 := by
  have worked :
      (m.fetched i).effect i = .ok (.jump i.imm.toInt64) := by
    apply effect_eq_ok_iff.mpr
    refine ⟨op, known, ?_⟩
    rcases jumps with rfl | rfl
    · rcases takes.condition with impossible | ⟨value, read, nonzero⟩
      · cases impossible
      · obtain ⟨bits, readBits, rfl⟩ := register_eq_ok_iff.mp read
        simp only [operationEffect, bind_eq_ok_iff, pure_eq_ok_iff]
        exact ⟨bits, by simpa using readBits, by simp [nonzero]⟩
    · rfl
  rw [step_eq_execute fetches, execute_eq, worked]
  simp [perform, breakdown?, apply, takes.running]

end Machine

end WindowMachine
