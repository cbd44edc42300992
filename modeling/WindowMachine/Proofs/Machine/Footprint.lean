import WindowMachine.Proofs.Machine.CallerSlots
import WindowMachine.Proofs.Machine.Data
import WindowMachine.Proofs.Machine.OperandStack

/-!
# The footprint of a step

A step that succeeds changes little, and its operation says where: one
register, or the slot above the top, or the locals of a call; one global; the
return register; the top by one; the frames; the output.  Registers, pushed
values and locals lie in one array, so it has to be shown for each operation
that the place it has worked out is the one that it is meant to write.

The window of a frame is where its base and its limit put it as long as both
are indexes of the stack, and so the footprint is stated for machines that a
history of commands can reach.
-/

namespace WindowMachine

/-- How far an operation moves the top of its own frame. -/
def Operation.lift : Operation → Int
  | .push => 1
  | .pop => -1
  | _ => 0

/-- Whether a slot is a register of a frame. -/
structure Frame.Spans (f : Frame) (slot : Nat) : Prop where
  base_le : f.base.toInt ≤ slot
  lt_limit : (slot : Int) < f.limit.toInt

namespace Machine

variable {m n : Machine} {i : Instruction} {op : Operation} {e : Effect}
  {c : Capacities}

/-- What a step that executes an operation leaves of a machine. -/
structure Footprint (m : Machine) (i : Instruction) (op : Operation)
    (n : Machine) : Prop where
  /-- A result, or what is popped, goes to the first register. -/
  register : op.computes = true ∨ op = .pop →
    ∃ slot bits, m.locate i.a = .ok slot ∧ m.frame.Spans slot ∧
      n.stack = m.stack.setIfInBounds slot bits
  /-- A push writes a register to the slot above the top. -/
  push : op = .push →
    ∃ (slot : Nat) (bits : Slot), m.readBits i.a = .ok bits ∧
      (slot : Int) = m.frame.top.toInt + 1 ∧
        n.stack = m.stack.setIfInBounds slot bits
  /-- A call clears the locals above the top. -/
  call : op = .call →
    ∃ method, m.method? i.imm.toInt64 = some method ∧
      ∀ place : Nat, n.stack[place]? =
        if m.frame.top.toInt < place ∧
            (place : Int) ≤ m.frame.top.toInt + method.locals.toInt then
          some 0
        else m.stack[place]?
  stack : op.computes = false →
    op ≠ .pop → op ≠ .push → op ≠ .call → n.stack = m.stack
  globals : op ≠ .setGlobal → n.globals = m.globals
  setGlobal : op = .setGlobal →
    ∃ (place : Nat) (value : Int32), m.register i.a = .ok value ∧
      i.imm.toInt = place ∧
        n.globals = m.globals.setIfInBounds place value
  result : op ≠ .ret → n.result = m.result
  ret : op = .ret → m.register i.a = .ok n.result
  top : op ≠ .call → op ≠ .ret →
    n.frame.top.toInt = m.frame.top.toInt + op.lift
  window : op ≠ .call → op ≠ .ret →
    n.frame.base = m.frame.base ∧ n.frame.limit = m.frame.limit ∧
      n.callers = m.callers
  output : op ≠ .print → n.output = m.output
  /-- What is printed is dropped if there is nowhere to keep it. -/
  print : op = .print →
    ∃ value, m.register i.a = .ok value ∧
      n.output =
        if m.sink = .keep then
          m.output ++ Numeral.ofInt value.toInt ++ "\n"
        else m.output
  methods : n.methods = m.methods
  code : n.code = m.code
  capacities : n.capacities = m.capacities

/-! ## Effects of single operations -/

theorem Admits.of_push (admits : m.Admits i .push e) :
    ∃ slot bits, m.readBits i.a = .ok bits ∧
      position? (m.frame.top + 1) m.stack.size = some slot ∧
        e = .push slot bits := by
  cases admits with
  | push read free =>
      exact ⟨_, _, read, free, rfl⟩
  | idle kind =>
      rcases kind with kind | kind <;> cases kind
  | store kind | skip kind =>
      cases kind

theorem Admits.of_pop (admits : m.Admits i .pop e) :
    ∃ slot source, m.locate i.a = .ok slot ∧
      position? m.frame.top m.stack.size = some source ∧
        e = .pop slot (m.bitsAt source) := by
  cases admits with
  | pop located held =>
      exact ⟨_, _, located, held, rfl⟩
  | idle kind =>
      rcases kind with kind | kind <;> cases kind
  | store kind | skip kind =>
      cases kind

theorem Admits.of_setGlobal (admits : m.Admits i .setGlobal e) :
    ∃ index bits, m.readBits i.a = .ok bits ∧
      position? i.imm.toInt64 m.globals.size = some index ∧
        e = .setGlobal index (Slot.asInt bits) := by
  cases admits with
  | setGlobal read found =>
      exact ⟨_, _, read, found, rfl⟩
  | idle kind =>
      rcases kind with kind | kind <;> cases kind
  | store kind | skip kind =>
      cases kind

theorem Admits.of_print (admits : m.Admits i .print e) :
    ∃ bits, m.readBits i.a = .ok bits ∧
      (∀ reason, m.sink ≠ .refuse reason) ∧
        e = .print (Slot.asInt bits) := by
  cases admits with
  | print read accepts =>
      exact ⟨_, read, accepts, rfl⟩
  | idle kind =>
      rcases kind with kind | kind <;> cases kind
  | store kind | skip kind =>
      cases kind

/-! ## The stack -/

theorem writes_nothing (kind : op.compares = true ∨ op = .jumpIf) :
    op.computes = false ∧ op ≠ .pop := by
  cases op <;> simp_all [Operation.compares, Operation.computes]

theorem apply_stack (admits : (m.fetched i).Admits i op e)
    (noResult : op.computes = false) (noPop : op ≠ .pop)
    (noPush : op ≠ .push) (noCall : op ≠ .call) :
    ((m.fetched i).apply e).stack = m.stack := by
  cases admits with
  | store kind =>
      rw [kind] at noResult
      cases noResult
  | pop =>
      exact absurd rfl noPop
  | push =>
      exact absurd rfl noPush
  | enter =>
      exact absurd rfl noCall
  | print =>
      rw [apply_print]
      simp
  | _ =>
      simp [apply]

section Stack

variable (safe : m.Safe c)
  (exactly : c.stack.toInt ≤ Capacities.exactSlots)
  (admits : (m.fetched i).Admits i op e)

include safe exactly

theorem spans_of_locate {r : UInt8} {slot : Nat}
    (located : m.locate r = .ok slot) : m.frame.Spans slot := by
  obtain rfl := safe.capacities
  obtain ⟨index, -, below⟩ := locate_eq_ok_iff.mp located
  rw [Int64.lt_iff_toInt_lt, index] at below
  exact ⟨base_le_of_locate safe.frame exactly located, below⟩

theorem toInt_succ_top :
    (m.frame.top + 1).toInt = m.frame.top.toInt + 1 := by
  obtain rfl := safe.capacities
  have topGe := safe.frame.top_ge
  have topLt := safe.frame.top_lt
  have one : (1 : Int64).toInt = 1 := rfl
  simp only [Capacities.exactSlots] at exactly
  rw [toInt_add_of_fits (by omega) (by omega), one]

include admits

theorem apply_register (writes : op.computes = true ∨ op = .pop) :
    ∃ slot bits, m.locate i.a = .ok slot ∧ m.frame.Spans slot ∧
      ((m.fetched i).apply e).stack = m.stack.setIfInBounds slot bits := by
  cases admits with
  | @store _ slot bits _ located =>
      rw [fetched_locate] at located
      exact ⟨slot, bits, located, spans_of_locate safe exactly located,
        by simp [apply]⟩
  | @pop slot source located =>
      rw [fetched_locate] at located
      exact ⟨slot, (m.fetched i).bitsAt source, located,
        spans_of_locate safe exactly located, by simp [apply]⟩
  | idle kind =>
      simp [writes_nothing kind] at writes
  | skip kind =>
      simp [writes_nothing (.inl kind)] at writes
  | _ =>
      rcases writes with kind | kind <;> cases kind

theorem apply_push (pushes : op = .push) :
    ∃ (slot : Nat) (bits : Slot), m.readBits i.a = .ok bits ∧
      (slot : Int) = m.frame.top.toInt + 1 ∧
        ((m.fetched i).apply e).stack =
          m.stack.setIfInBounds slot bits := by
  subst pushes
  obtain ⟨slot, bits, read, free, rfl⟩ := admits.of_push
  rw [fetched_readBits] at read
  have index := (position?_eq_some_iff.mp free).1
  simp only [fetched_frame] at index
  rw [toInt_succ_top safe exactly] at index
  exact ⟨slot, bits, read, index.symm, by simp [apply]⟩

theorem apply_call (calls : op = .call) :
    ∃ method, m.method? i.imm.toInt64 = some method ∧
      ∀ place : Nat, ((m.fetched i).apply e).stack[place]? =
        if m.frame.top.toInt < place ∧
            (place : Int) ≤ m.frame.top.toInt + method.locals.toInt then
          some 0
        else m.stack[place]? := by
  subst calls
  obtain rfl := safe.capacities
  obtain ⟨method, callee, found, built, rfl⟩ := admits.of_call
  rw [fetched_method?] at found
  rw [fetched_calleeFrame] at built
  have modest := safe.modest _ (method?_mem found)
  have within := calleeFrame_within safe.toSound modest exactly built
  obtain ⟨-, -, -, rfl⟩ := calleeFrame_eq_ok_iff.mp built
  have topGe := safe.frame.top_ge
  have topLt := safe.frame.top_lt
  have size := safe.stack
  have inside := within.top_lt
  have localsNonneg := modest.locals_nonneg
  have localsLe := modest.locals_le
  simp only [Capacities.exactSlots, maxU16] at exactly localsLe
  have raised := callee_top (m := m) topGe localsNonneg (by omega)
  refine ⟨method, found, fun place => ?_⟩
  rw [apply_enter_getElem? i topGe, raised]
  -- The locals fit, so the slots to be cleared are all there.
  have range : (m.frame.top.toInt < place ∧
      (place : Int) ≤ m.frame.top.toInt + method.locals.toInt ∧
        place < m.stack.size) ↔
      m.frame.top.toInt < place ∧
        (place : Int) ≤ m.frame.top.toInt + method.locals.toInt := by
    omega
  simp only [range]

end Stack

/-! ## Everything else -/

section Rest

variable (admits : (m.fetched i).Admits i op e)

include admits

theorem apply_globals (other : op ≠ .setGlobal) :
    ((m.fetched i).apply e).globals = m.globals := by
  cases admits with
  | setGlobal =>
      exact absurd rfl other
  | print =>
      rw [apply_print]
      simp
  | _ =>
      simp [apply]

theorem apply_setGlobal (sets : op = .setGlobal) :
    ∃ (place : Nat) (value : Int32), m.register i.a = .ok value ∧
      i.imm.toInt = place ∧
        ((m.fetched i).apply e).globals =
          m.globals.setIfInBounds place value := by
  subst sets
  obtain ⟨place, bits, read, found, rfl⟩ := admits.of_setGlobal
  rw [fetched_readBits] at read
  have index := (position?_eq_some_iff.mp found).1
  rw [Int32.toInt_toInt64] at index
  exact ⟨place, Slot.asInt bits,
    register_eq_ok_iff.mpr ⟨bits, read, rfl⟩, index, by simp [apply]⟩

theorem apply_result (other : op ≠ .ret) :
    ((m.fetched i).apply e).result = m.result := by
  cases admits with
  | leave =>
      exact absurd rfl other
  | print =>
      rw [apply_print]
      simp
  | _ =>
      simp [apply]

theorem apply_ret (returns : op = .ret) :
    m.register i.a = .ok ((m.fetched i).apply e).result := by
  subst returns
  obtain ⟨bits, caller, read, -, rfl⟩ := admits.of_ret
  rw [fetched_readBits] at read
  exact register_eq_ok_iff.mpr ⟨bits, read, rfl⟩

theorem apply_callers (noCall : op ≠ .call) (noReturn : op ≠ .ret) :
    ((m.fetched i).apply e).callers = m.callers := by
  cases admits with
  | enter =>
      exact absurd rfl noCall
  | leave =>
      exact absurd rfl noReturn
  | print =>
      rw [apply_print]
      simp
  | _ =>
      simp [apply]

theorem apply_output (other : op ≠ .print) :
    ((m.fetched i).apply e).output = m.output := by
  cases admits with
  | print =>
      exact absurd rfl other
  | _ =>
      simp [apply]

theorem apply_printed (prints : op = .print) :
    ∃ value, m.register i.a = .ok value ∧
      ((m.fetched i).apply e).output =
        if m.sink = .keep then
          m.output ++ Numeral.ofInt value.toInt ++ "\n"
        else m.output := by
  subst prints
  obtain ⟨bits, read, accepts, rfl⟩ := admits.of_print
  rw [fetched_readBits] at read
  refine ⟨Slot.asInt bits, register_eq_ok_iff.mpr ⟨bits, read, rfl⟩, ?_⟩
  cases sink : m.sink with
  | keep | drop | refuse =>
      simp [apply, sink]

end Rest

/-! ## The top -/

theorem lift_eq_zero (noPush : op ≠ .push) (noPop : op ≠ .pop) :
    op.lift = 0 := by
  cases op with
  | push =>
      exact absurd rfl noPush
  | pop =>
      exact absurd rfl noPop
  | _ =>
      rfl

/-- An operation that stays in its frame moves the top by what it lifts. -/
theorem apply_top (safe : m.Safe c)
    (exactly : c.stack.toInt ≤ Capacities.exactSlots)
    (admits : (m.fetched i).Admits i op e)
    (noCall : op ≠ .call) (noReturn : op ≠ .ret) :
    ((m.fetched i).apply e).frame.top.toInt =
      m.frame.top.toInt + op.lift := by
  by_cases push : op = .push
  · subst push
    obtain ⟨slot, bits, -, -, rfl⟩ := admits.of_push
    simpa [apply, Operation.lift] using toInt_succ_top safe exactly
  · by_cases pop : op = .pop
    · subst pop
      obtain ⟨slot, source, -, held, rfl⟩ := admits.of_pop
      have index := (position?_eq_some_iff.mp held).1
      simp only [fetched_frame] at index
      have upper := m.frame.top.toInt_lt
      have one : (1 : Int64).toInt = 1 := rfl
      simp only [apply, fetched_frame, Operation.lift]
      rw [toInt_sub_of_fits (by omega) (by omega), one]
      rfl
    · obtain ⟨same, -⟩ := apply_other admits push pop noCall noReturn
      rw [same, lift_eq_zero push pop, Int.add_zero]

/-! ## Steps -/

theorem apply_footprint (safe : m.Safe c)
    (exactly : c.stack.toInt ≤ Capacities.exactSlots)
    (admits : (m.fetched i).Admits i op e) :
    m.Footprint i op ((m.fetched i).apply e) where
  register := apply_register safe exactly admits
  push := apply_push safe exactly admits
  call := apply_call safe exactly admits
  stack := apply_stack admits
  globals := apply_globals admits
  setGlobal := apply_setGlobal admits
  result := apply_result admits
  ret := apply_ret admits
  top := apply_top safe exactly admits
  window noCall noReturn := by
    obtain ⟨base, limit, -⟩ := apply_sameWindow admits noCall noReturn
    exact ⟨base, limit, apply_callers admits noCall noReturn⟩
  output := apply_output admits
  print := apply_printed admits
  methods := by simp
  code := by simp
  capacities := by simp

/-- A reachable machine that steps successfully has ended before and stays as
it is, or it executes an operation and changes no more than the footprint of
that. -/
theorem step_footprint {start : Machine} {history : List Command}
    {outcome : StepOutcome}
    (made : Machine.new c = .ok start)
    (modest : ∀ command ∈ history, command.RegistersModest)
    (stepped : (start.after history).step = (n, outcome))
    (succeeded : outcome.Succeeded) :
    (start.after history).halted = true ∧ n = start.after history ∨
      ∃ i op, (start.after history).next? = some i ∧
        Operation.ofByte? i.opcode = some op ∧
          (start.after history).Footprint i op n := by
  cases step_case stepped with
  | closed | spent | unfetched | faulted | broke =>
      exact succeeded.elim
  | finished _ halted =>
      exact .inl ⟨halted, rfl⟩
  | @went i e fetches worked | @ended i e fetches worked =>
      obtain ⟨safe, exactly⟩ := safe_of_fetches made modest fetches
      obtain ⟨op, known, admits⟩ := effect_admits worked
      exact .inr ⟨i, op, fetches, known,
        apply_footprint safe exactly admits⟩

/-- The capacities of a small machine for one method and one call. -/
def staleCapacities : Capacities :=
  { stack := 8, depth := 2, methods := 1, globals := 1 }

/-- A machine about to call a method with one argument and two locals, where
other values have been left above the top. -/
def staleCaller : List Command :=
  [.setMethod 0 ⟨2, 1, 2⟩, .setStack 1 7, .setStack 2 9, .setStack 3 5,
    .load #[0x20, 0x24, 0x15, 0x21] 0]

theorem staleCaller_footprint :
    Machine.new staleCapacities = .ok (blank staleCapacities) ∧
      (∀ command ∈ staleCaller, command.RegistersModest) ∧
        ((blank staleCapacities).after staleCaller).step.2 = .running ∧
          ((blank staleCapacities).after staleCaller).Footprint
            (Instruction.decode 0x20) .call
            ((blank staleCapacities).after staleCaller).step.1 := by
  have made : Machine.new staleCapacities = .ok (blank staleCapacities) := rfl
  have modest : ∀ command ∈ staleCaller, command.RegistersModest := by
    simp only [staleCaller, List.forall_mem_cons, Command.RegistersModest,
      true_and]
    exact ⟨⟨by decide, by decide, by decide, by decide⟩, by simp⟩
  have runs : ((blank staleCapacities).after staleCaller).step.2 = .running :=
    by decide
  refine ⟨made, modest, runs, ?_⟩
  rcases step_footprint made modest (Prod.ext rfl runs) trivial with
    ⟨halted, -⟩ | ⟨i, op, fetches, known, footprint⟩
  · cases halted
  · have fetched : ((blank staleCapacities).after staleCaller).next? =
        some (Instruction.decode 0x20) := by decide
    obtain rfl := Option.some.inj (fetched.symm.trans fetches)
    obtain rfl : Operation.call = op :=
      Option.some.inj
        ((show _ = some Operation.call by decide).symm.trans known)
    exact footprint

end Machine

end WindowMachine
