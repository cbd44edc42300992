import WindowMachine.Proofs.Machine.Stops

/-!
# The operand stack of a call

The registers of a frame and the values that it pushes lie in one array.  In
the frame of a call the top begins at the last register, so pushed values lie
above all registers, and writing a register cannot reach them.  As long as
nothing is popped that was not pushed there, they are a stack: a pop delivers
what the latest push has stored whose value is still there.

Only the limit of the frame and its top matter for that.  The depth of the
call, and what its frame begins with, do not.
-/

namespace WindowMachine

/-- Whether the next push of a frame lies above its registers. -/
def Frame.Clear (f : Frame) : Prop := f.limit.toInt - 1 ≤ f.top.toInt

instance (f : Frame) : Decidable f.Clear :=
  inferInstanceAs (Decidable (_ ≤ _))

namespace Machine

variable {m n : Machine} {i : Instruction} {op : Operation} {e : Effect}
  {bits : Slot} {count : Nat}

/-! ## Pushes and pops -/

/-- The operation that the next step executes, if it executes any. -/
def operation? (m : Machine) : Option Operation :=
  m.next?.bind fun i => Operation.ofByte? i.opcode

/-- Whether the next step of a machine succeeds and stays in its frame: it
calls nothing, and it ends neither the call nor the program. -/
structure StaysInFrame (m : Machine) : Prop where
  goesOn : m.step.2 = .running
  noCall : m.operation? ≠ some .call
  noReturn : m.operation? ≠ some .ret

instance : Decidable m.StaysInFrame :=
  decidable_of_iff
    (m.step.2 = .running ∧ m.operation? ≠ some .call ∧
      m.operation? ≠ some .ret)
    ⟨fun ⟨goesOn, noCall, noReturn⟩ => ⟨goesOn, noCall, noReturn⟩,
      fun stays => ⟨stays.goesOn, stays.noCall, stays.noReturn⟩⟩

/-- Whether the next step of a machine pushes some bits. -/
def Pushes (m : Machine) (bits : Slot) : Prop :=
  ∃ i, m.next? = some i ∧ Operation.ofByte? i.opcode = some .push ∧
    m.readBits i.a = .ok bits

/-- Whether the next step of a machine pops some bits into a register. -/
def Pops (m : Machine) (bits : Slot) : Prop :=
  ∃ i, m.next? = some i ∧ Operation.ofByte? i.opcode = some .pop ∧
    m.step.1.readBits i.a = .ok bits

/-- How many of the first steps execute an operation. -/
def executions (m : Machine) (op : Operation) (count : Nat) : Nat :=
  (List.range count).countP fun k => (m.afterSteps k).operation? = some op

/-- The pushes among the first steps whose values have not been popped, each
by the number of its step, and the latest one first.  A pop matches the
first of these. -/
def pending (m : Machine) : Nat → List Nat
  | 0 => []
  | k + 1 =>
    match (m.afterSteps k).operation? with
    | some .push => k :: m.pending k
    | some .pop => (m.pending k).tail
    | _ => m.pending k

theorem executions_succ :
    m.executions op (count + 1) = m.executions op count +
      if (m.afterSteps count).operation? = some op then 1 else 0 := by
  simp [executions, List.range_succ, List.countP_singleton]

theorem operation?_eq (fetches : m.next? = some i)
    (known : Operation.ofByte? i.opcode = some op) :
    m.operation? = some op := by
  simp [operation?, fetches, known]

theorem Pushes.operation? (pushes : m.Pushes bits) :
    m.operation? = some .push := by
  obtain ⟨i, fetches, known, -⟩ := pushes
  exact operation?_eq fetches known

theorem Pops.operation? (pops : m.Pops bits) : m.operation? = some .pop := by
  obtain ⟨i, fetches, known, -⟩ := pops
  exact operation?_eq fetches known

/-- All that is pending has been pushed by an earlier step. -/
theorem pushes_of_mem_pending {k : Nat} (member : k ∈ m.pending count) :
    k < count ∧ (m.afterSteps k).operation? = some .push := by
  induction count with
  | zero =>
      cases member
  | succ count inductionHypothesis =>
      have earlier (member : k ∈ m.pending count) :
          k < count + 1 ∧ (m.afterSteps k).operation? = some .push := by
        obtain ⟨before, pushes⟩ := inductionHypothesis member
        exact ⟨by omega, pushes⟩
      simp only [pending] at member
      split at member
      · rcases List.mem_cons.mp member with rfl | member
        · exact ⟨by omega, ‹_›⟩
        · exact earlier member
      · exact earlier (List.mem_of_mem_tail member)
      · exact earlier member

/-- If pops have never outnumbered pushes, what is pending are the pushes in
excess. -/
theorem length_pending
    (balanced : ∀ k ≤ count, m.executions .pop k ≤ m.executions .push k) :
    (m.pending count).length + m.executions .pop count =
      m.executions .push count := by
  induction count with
  | zero =>
      rfl
  | succ count inductionHypothesis =>
      have before := inductionHypothesis fun k below => balanced k (by omega)
      have now := balanced (count + 1) (Nat.le_refl _)
      simp only [executions_succ, pending] at now ⊢
      split
      · simp_all
        omega
      · simp_all
        omega
      · simp_all

/-! ## One step -/

/-- Whether two machines have the same registers, in number and place. -/
structure SameWindow (m n : Machine) : Prop where
  base : n.frame.base = m.frame.base
  limit : n.frame.limit = m.frame.limit
  size : n.stack.size = m.stack.size

/-- What a step that stays in its frame does to values above the registers:
nothing, or it puts one on top, or it takes the top into a register. -/
inductive OperandCase (m n : Machine) : Prop
  | kept :
      m.operation? ≠ some .push →
      m.operation? ≠ some .pop →
      n.frame.top.toInt = m.frame.top.toInt →
      (∀ place : Nat, m.frame.limit.toInt ≤ place →
        n.stack[place]? = m.stack[place]?) →
      OperandCase m n
  | pushed {slot : Nat} {bits : Slot} :
      m.Pushes bits →
      m.frame.top.toInt + 1 = slot →
      n.frame.top.toInt = slot →
      n.stack[slot]? = some bits →
      (∀ place : Nat, place ≠ slot → n.stack[place]? = m.stack[place]?) →
      OperandCase m n
  | popped {source : Nat} {bits : Slot} :
      m.Pops bits →
      m.frame.top.toInt = source →
      n.frame.top.toInt = source - 1 →
      m.stack[source]? = some bits →
      (∀ place : Nat, m.frame.limit.toInt ≤ place →
        n.stack[place]? = m.stack[place]?) →
      OperandCase m n

theorem SameWindow.locate (same : m.SameWindow n) {r : UInt8} {slot : Nat}
    (located : m.locate r = .ok slot) : n.locate r = .ok slot := by
  rw [locate_eq_ok_iff] at located ⊢
  rwa [same.base, same.limit, same.size]

/-- Writing a register leaves all places from the limit on as they are. -/
theorem getElem?_set_of_locate {r : UInt8} {slot place : Nat}
    (located : m.locate r = .ok slot)
    (above : m.frame.limit.toInt ≤ place) :
    (m.stack.setIfInBounds slot bits)[place]? = m.stack[place]? := by
  obtain ⟨index, -, below⟩ := locate_eq_ok_iff.mp located
  rw [Int64.lt_iff_toInt_lt, index] at below
  exact Array.getElem?_setIfInBounds_ne (by omega)

theorem readBits_set_of_locate {r : UInt8} {slot : Nat}
    (located : m.locate r = .ok slot) (same : m.SameWindow n)
    (stack : n.stack = m.stack.setIfInBounds slot bits) :
    n.readBits r = .ok bits := by
  obtain ⟨-, inside, -⟩ := locate_eq_ok_iff.mp located
  simp [readBits, same.locate located, bitsAt, stack, inside, bind,
    Except.bind, pure, Except.pure]

/-- A number whose successor is an index is the one before it. -/
private theorem toInt_of_succ {a : Int64} {k : Nat}
    (index : (a + 1).toInt = k) : a.toInt + 1 = k := by
  have one : (1 : Int64).toInt = 1 := rfl
  have lower := a.le_toInt
  by_cases fits : a.toInt + 1 < 2 ^ 63
  · rw [← index, toInt_add_of_fits (by omega) (by omega), one]
  · have wrapped := @toInt_add_of_beyond a 1 (by omega)
    have upper := a.toInt_lt
    omega

/-- An effect that stays in its frame leaves the registers where they are. -/
theorem apply_sameWindow (admits : (m.fetched i).Admits i op e)
    (noCall : op ≠ .call) (noReturn : op ≠ .ret) :
    m.SameWindow ((m.fetched i).apply e) := by
  refine ⟨?_, ?_, by simp⟩
  all_goals
    cases admits with
    | enter =>
        exact absurd rfl noCall
    | leave =>
        exact absurd rfl noReturn
    | print =>
        rw [apply_print]
        simp
    | _ =>
        simp [apply]

theorem apply_other (admits : (m.fetched i).Admits i op e)
    (noPush : op ≠ .push) (noPop : op ≠ .pop)
    (noCall : op ≠ .call) (noReturn : op ≠ .ret) :
    ((m.fetched i).apply e).frame.top = m.frame.top ∧
      ∀ place : Nat, m.frame.limit.toInt ≤ place →
        ((m.fetched i).apply e).stack[place]? = m.stack[place]? := by
  cases admits with
  | push =>
      exact absurd rfl noPush
  | pop =>
      exact absurd rfl noPop
  | enter =>
      exact absurd rfl noCall
  | leave =>
      exact absurd rfl noReturn
  | store _ located =>
      rw [fetched_locate] at located
      refine ⟨by simp [apply], ?_⟩
      intro place above
      simpa [apply] using getElem?_set_of_locate located above
  | print =>
      rw [apply_print]
      simp
  | _ =>
      simp [apply]

private theorem step_push {slot : Nat} (fetches : m.next? = some i)
    (known : Operation.ofByte? i.opcode = some .push)
    (read : (m.fetched i).readBits i.a = .ok bits)
    (free : position? ((m.fetched i).frame.top + 1)
      (m.fetched i).stack.size = some slot)
    (left : m.step.1 = (m.fetched i).apply (.push slot bits)) :
    m.OperandCase m.step.1 := by
  rw [fetched_readBits] at read
  simp only [fetched_frame, fetched_stack] at free
  obtain ⟨index, inside⟩ := position?_eq_some_iff.mp free
  have top : m.step.1.frame.top.toInt = slot := by
    simpa [left, apply] using index
  have stack : m.step.1.stack = m.stack.setIfInBounds slot bits := by
    simp [left, apply]
  refine .pushed ⟨i, fetches, known, read⟩ (toInt_of_succ index) top ?_ ?_
  · simp [stack, inside]
  · intro place other
    rw [stack, Array.getElem?_setIfInBounds_ne (Ne.symm other)]

private theorem step_pop {slot source : Nat} (fetches : m.next? = some i)
    (known : Operation.ofByte? i.opcode = some .pop)
    (located : (m.fetched i).locate i.a = .ok slot)
    (found : position? (m.fetched i).frame.top (m.fetched i).stack.size =
      some source)
    (left : m.step.1 =
      (m.fetched i).apply (.pop slot ((m.fetched i).bitsAt source)))
    (window : m.SameWindow m.step.1) :
    m.OperandCase m.step.1 := by
  rw [fetched_locate] at located
  simp only [fetched_frame, fetched_stack] at found
  obtain ⟨index, inside⟩ := position?_eq_some_iff.mp found
  have stack : m.step.1.stack =
      m.stack.setIfInBounds slot (m.bitsAt source) := by
    simp [left, apply, bitsAt]
  refine .popped
    ⟨i, fetches, known, readBits_set_of_locate located window stack⟩
    index ?_ ?_ ?_
  · have one : (1 : Int64).toInt = 1 := rfl
    have upper := m.frame.top.toInt_lt
    simp only [left, apply, fetched_frame]
    rw [toInt_sub_of_fits (by omega) (by omega), index, one]
  · simp [bitsAt, inside]
  · intro place above
    rw [stack, getElem?_set_of_locate located above]

/-- The effect of a step that goes on. -/
theorem step_admits (goesOn : m.step.2 = .running) :
    ∃ i op e, m.next? = some i ∧
      Operation.ofByte? i.opcode = some op ∧
        (m.fetched i).Admits i op e ∧
          m.step.1 = (m.fetched i).apply e := by
  rcases stepped : m.step with ⟨n, outcome⟩
  rw [stepped] at goesOn
  cases step_case stepped with
  | closed | finished | spent | unfetched | faulted | broke | ended =>
      cases goesOn
  | went fetches worked =>
      obtain ⟨op, known, admits⟩ := effect_admits worked
      exact ⟨_, op, _, fetches, known, admits, rfl⟩

theorem step_operandCase (stays : m.StaysInFrame) :
    m.SameWindow m.step.1 ∧ m.OperandCase m.step.1 := by
  obtain ⟨i, op, e, fetches, known, admits, left⟩ := step_admits stays.goesOn
  have executes := operation?_eq fetches known
  have noCall : op ≠ .call := by
    simpa [executes] using stays.noCall
  have noReturn : op ≠ .ret := by
    simpa [executes] using stays.noReturn
  have window : m.SameWindow m.step.1 := by
    rw [left]
    exact apply_sameWindow admits noCall noReturn
  refine ⟨window, ?_⟩
  by_cases push : op = .push
  · subst push
    cases admits with
    | push read free =>
        exact step_push fetches known read free left
    | idle never =>
        simp [Operation.compares] at never
    | store never | skip never =>
        cases never
  · by_cases pop : op = .pop
    · subst pop
      cases admits with
      | pop located found =>
          exact step_pop fetches known located found left window
      | idle never =>
          simp [Operation.compares] at never
      | store never | skip never =>
          cases never
    · obtain ⟨top, stack⟩ := apply_other admits push pop noCall noReturn
      rw [← left] at top stack
      exact .kept (by simpa [executes] using push)
        (by simpa [executes] using pop) (by rw [top]) stack

/-! ## Runs inside of a frame -/

/-- What is known of the values that are pending after some steps: each lies
as far above the first top as there are others below it, and it has the bits
that its push has read. -/
structure HoldsPending (m : Machine) (count : Nat) : Prop where
  limit : (m.afterSteps count).frame.limit = m.frame.limit
  top : (m.afterSteps count).frame.top.toInt =
    m.frame.top.toInt + (m.pending count).length
  held {k : Nat} {below : List Nat} : (k :: below) <:+ m.pending count →
    ∃ (place : Nat) (bits : Slot),
      (place : Int) = m.frame.top.toInt + 1 + below.length ∧
        (m.afterSteps count).stack[place]? = some bits ∧
          (m.afterSteps k).Pushes bits

theorem holdsPending_zero : m.HoldsPending 0 where
  limit := rfl
  top := by simp [afterSteps, pending]
  held suffix := by simp [pending] at suffix

namespace HoldsPending

variable (holds : m.HoldsPending count) (clear : m.frame.Clear)

include holds clear

/-- What the registers cannot reach is still held, as long as it is
pending. -/
private theorem keep {pending : List Nat}
    (less : pending <:+ m.pending count)
    (stack : ∀ place : Nat,
      (m.afterSteps count).frame.limit.toInt ≤ place →
        (m.afterSteps (count + 1)).stack[place]? =
          (m.afterSteps count).stack[place]?)
    {k : Nat} {below : List Nat} (suffix : (k :: below) <:+ pending) :
    ∃ (place : Nat) (bits : Slot),
      (place : Int) = m.frame.top.toInt + 1 + below.length ∧
        (m.afterSteps (count + 1)).stack[place]? = some bits ∧
          (m.afterSteps k).Pushes bits := by
  obtain ⟨place, bits, height, found, pushes⟩ :=
    holds.held (suffix.trans less)
  have above : (m.afterSteps count).frame.limit.toInt ≤ place := by
    rw [holds.limit]
    simp only [Frame.Clear] at clear
    omega
  exact ⟨place, bits, height, by rw [stack place above, found], pushes⟩

theorem step (stays : (m.afterSteps count).StaysInFrame)
    (more : (m.afterSteps count).operation? = some .pop →
      m.pending count ≠ []) :
    m.HoldsPending (count + 1) := by
  obtain ⟨window, effect⟩ := step_operandCase stays
  rw [← afterSteps_succ] at window effect
  have limit := window.limit.trans holds.limit
  have top := holds.top
  cases effect with
  | kept noPush noPop sameTop stack =>
      have same : m.pending (count + 1) = m.pending count := by
        simp only [pending]
      refine ⟨limit, ?_, ?_⟩
      · rw [same, sameTop, top]
      · rw [same]
        exact holds.keep clear (List.suffix_refl _) stack
  | @pushed slot bits pushes above newTop written stack =>
      have added : m.pending (count + 1) = count :: m.pending count := by
        simp only [pending, pushes.operation?]
      refine ⟨limit, ?_, ?_⟩
      · rw [added, newTop, List.length_cons]
        omega
      · intro k below suffix
        rw [added] at suffix
        rcases List.suffix_cons_iff.mp suffix with same | earlier
        · cases same
          exact ⟨slot, bits, by omega, written, pushes⟩
        · -- An earlier value lies below the place of the new one.
          obtain ⟨place, own, height, found, pushedThere⟩ := holds.held earlier
          have lower := earlier.length_le
          rw [List.length_cons] at lower
          exact ⟨place, own, height, by rw [stack place (by omega), found],
            pushedThere⟩
  | @popped source bits pops here newTop found stack =>
      have removed : m.pending (count + 1) = (m.pending count).tail := by
        simp only [pending, pops.operation?]
      have some := List.length_pos_iff.mpr (more pops.operation?)
      refine ⟨limit, ?_, ?_⟩
      · rw [removed, newTop, List.length_tail]
        omega
      · rw [removed]
        exact holds.keep clear (List.tail_suffix _) stack

end HoldsPending

/-- Whether the next step after some others pops what the step that is matched
by it has pushed. -/
def Delivers (m : Machine) (count : Nat) : Prop :=
  ∃ k below bits, m.pending count = k :: below ∧ k < count ∧
    (m.afterSteps k).Pushes bits ∧ (m.afterSteps count).Pops bits

theorem HoldsPending.delivers (holds : m.HoldsPending count)
    (stays : (m.afterSteps count).StaysInFrame)
    (pops : (m.afterSteps count).operation? = some .pop)
    (more : m.pending count ≠ []) : m.Delivers count := by
  obtain ⟨k, below, first⟩ := List.exists_cons_of_ne_nil more
  have whole : (k :: below) <:+ m.pending count := by
    simp only [first, List.suffix_refl]
  obtain ⟨place, bits, height, found, pushes⟩ := holds.held whole
  have top := holds.top
  rw [first, List.length_cons] at top
  obtain ⟨earlier, -⟩ :=
    pushes_of_mem_pending (whole.mem List.mem_cons_self)
  cases (step_operandCase stays).2 with
  | kept _ noPop =>
      exact absurd pops noPop
  | pushed pushesHere =>
      rw [pushesHere.operation?] at pops
      cases pops
  | @popped source popped popsHere here _ taken =>
      obtain rfl : source = place := by omega
      obtain rfl : popped = bits := Option.some.inj (taken.symm.trans found)
      exact ⟨k, below, popped, first, earlier, pushes, popsHere⟩

/-- From a machine whose next push lies above its registers, and for as long as
steps succeed, stay in the frame and pop no more than they have pushed, each
pop delivers what its match has pushed, whatever has been written to registers
since, and the top moves by as much as there are more pushes than pops. -/
theorem operandStack_lifo (clear : m.frame.Clear)
    (stays : ∀ k < count, (m.afterSteps k).StaysInFrame)
    (balanced : ∀ k ≤ count, m.executions .pop k ≤ m.executions .push k) :
    (∀ k < count, (m.afterSteps k).operation? = some .pop → m.Delivers k) ∧
      (m.afterSteps count).frame.top.toInt =
        m.frame.top.toInt + m.executions .push count -
          m.executions .pop count := by
  -- A pop that found nothing pending would make the pops outnumber.
  have more (k : Nat) (before : k < count)
      (pops : (m.afterSteps k).operation? = some .pop) :
      m.pending k ≠ [] := by
    have excess := @length_pending m k fun j below => balanced j (by omega)
    have next := balanced (k + 1) before
    simp only [executions_succ, pops, if_true, Option.some.injEq,
      reduceCtorEq, if_false] at next
    apply List.length_pos_iff.mp
    omega
  have holds (k : Nat) (within : k ≤ count) : m.HoldsPending k := by
    induction k with
    | zero =>
        exact holdsPending_zero
    | succ k inductionHypothesis =>
        exact (inductionHypothesis (by omega)).step clear
          (stays k within) (more k within)
  refine ⟨?_, ?_⟩
  · intro k before pops
    exact (holds k (Nat.le_of_lt before)).delivers (stays k before) pops
      (more k before pops)
  · have excess := length_pending balanced
    rw [(holds count (Nat.le_refl _)).top]
    omega

/-! ## After a call -/

/-- The frame that a call has entered begins with its top at its last
register. -/
theorem step_call_clear {outcome : StepOutcome}
    (fetches : m.next? = some i)
    (calls : Operation.ofByte? i.opcode = some .call)
    (called : m.step = (n, outcome)) (succeeded : outcome.Succeeded) :
    n.frame.limit.toInt - 1 = n.frame.top.toInt := by
  obtain ⟨method, f, -, built, rfl⟩ :=
    step_call_enters fetches calls called succeeded
  obtain ⟨-, topLt, -, rfl⟩ := calleeFrame_eq_ok_iff.mp built
  have one : (1 : Int64).toInt = 1 := rfl
  rw [Int64.le_iff_toInt_le, Int.not_le] at topLt
  have sizeLt := (Int64.ofNat m.stack.size).toInt_lt
  have topLower := (m.callee method).top.le_toInt
  change ((m.callee method).top + 1).toInt - 1 = (m.callee method).top.toInt
  rw [toInt_add_of_fits (by omega) (by omega), one]
  omega

/-- A machine about to call a method that pushes its argument, overwrites it
and pushes what it has written, and then pops both into other registers. -/
def pushingCaller : Machine :=
  { blank
      { stack := 16, depth := 1, methods := 1, globals := 1, entryTop := 1 }
    with
    stack := #[7, 9] ++ Array.replicate 14 0
    methods := #[some ⟨2, 2, 1⟩]
    code := #[0x20, 0x24, 0x15, 0x5001A, 0x15, 0x116, 0x216, 0x21] }

theorem pushingCaller_lifo :
    pushingCaller.step.1.depth = 1 ∧
      pushingCaller.step.1.Delivers 3 ∧
        pushingCaller.step.1.Delivers 4 ∧
          ((pushingCaller.step.1.afterSteps 5).readBits 1).toOption = some 5 ∧
            ((pushingCaller.step.1.afterSteps 5).readBits 2).toOption =
                some 7 ∧
              (pushingCaller.step.1.afterSteps 5).frame.top.toInt = 2 := by
  have called :
      pushingCaller.step = (pushingCaller.step.1, .running) :=
    Prod.ext rfl (by decide)
  have clear := step_call_clear
    (show pushingCaller.next? = some (Instruction.decode 0x20) by decide)
    (by decide) called trivial
  obtain ⟨delivers, top⟩ := @operandStack_lifo pushingCaller.step.1 5
    (Int.le_of_eq clear) (by decide) (by decide)
  refine ⟨by decide, delivers 3 (by decide) (by decide),
    delivers 4 (by decide) (by decide), by decide, by decide, ?_⟩
  rw [top]
  decide

end Machine

end WindowMachine
