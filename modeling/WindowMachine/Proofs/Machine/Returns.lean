import WindowMachine.Proofs.Machine.Effects

/-!
# Calls and their returns

A call suspends the frame of its caller on top of those already suspended, and
whatever happens deeper than that, nested calls included, leaves these frames
alone.  The step that brings the depth back is therefore a return, and it
restores the caller as the call has left it.
-/

namespace WindowMachine

/-- Whether a step came out without a failure or a breakdown. -/
def StepOutcome.Succeeded : StepOutcome → Prop
  | .running | .ended => True
  | .failed _ | .broke _ => False

namespace Machine

variable {m n : Machine} {outcome : StepOutcome}

/-! ## One step -/

/-- What a successful step does to the suspended frames: nothing, the push of
a call or the pop of a return. -/
inductive CallersCase (m n : Machine) : Prop
  | kept :
      n.callers = m.callers →
      CallersCase m n
  | pushed :
      n.callers = m.callers.push { m.frame with pc := m.frame.pc + 1 } →
      CallersCase m n
  | popped {i : Instruction} :
      m.next? = some i →
      Operation.ofByte? i.opcode = some .ret →
      m.callers.back? = some n.frame →
      n.callers = m.callers.pop →
      m.register i.a = .ok n.result →
      CallersCase m n

private theorem apply_callersCase {i : Instruction} {e : Effect}
    (fetches : m.next? = some i)
    (worked : (m.fetched i).effect i = .ok e) :
    m.CallersCase ((m.fetched i).apply e) := by
  obtain ⟨op, known, admits⟩ := effect_admits worked
  cases admits with
  | idle | store | push | pop | setGlobal | skip | jump | jumpIf | halt =>
      exact .kept (by simp [apply])
  | print =>
      exact .kept (by rw [apply_print]; simp)
  | enter found built =>
      exact .pushed (by simp [apply])
  | leave read back =>
      simp only [fetched_readBits, fetched_callers] at read back
      exact .popped fetches known back (by simp [apply])
        (register_eq_ok_iff.mpr ⟨_, read, rfl⟩)

theorem step_callersCase
    (stepped : m.step = (n, outcome)) (succeeded : outcome.Succeeded) :
    m.CallersCase n := by
  cases step_case stepped with
  | closed | spent | unfetched | faulted | broke =>
      exact succeeded.elim
  | finished =>
      exact .kept rfl
  | went fetches worked | ended fetches worked =>
      exact apply_callersCase fetches worked

/-- A step that executes a call and succeeds enters the frame of a registered
method. -/
theorem step_call_enters {i : Instruction}
    (fetches : m.next? = some i)
    (calls : Operation.ofByte? i.opcode = some .call)
    (stepped : m.step = (n, outcome)) (succeeded : outcome.Succeeded) :
    ∃ method f, m.method? i.imm.toInt64 = some method ∧
      m.calleeFrame method = .ok f ∧
        n = (m.fetched i).apply (.enter f) := by
  cases step_case stepped with
  | closed | spent | unfetched | faulted | broke =>
      exact succeeded.elim
  | finished open' halted =>
      rw [halted_of_next? fetches] at halted
      cases halted
  | went fetched worked | ended fetched worked =>
      obtain rfl := Option.some.inj (fetches.symm.trans fetched)
      obtain ⟨op, known, admits⟩ := effect_admits worked
      obtain rfl := Option.some.inj (calls.symm.trans known)
      cases admits with
      | enter found built =>
          rw [fetched_method?] at found
          rw [fetched_calleeFrame] at built
          exact ⟨_, _, found, built, rfl⟩
      | idle never =>
          simp [Operation.compares] at never
      | store never =>
          cases never
      | skip never =>
          cases never

theorem step_call_callers {i : Instruction}
    (fetches : m.next? = some i)
    (calls : Operation.ofByte? i.opcode = some .call)
    (stepped : m.step = (n, outcome)) (succeeded : outcome.Succeeded) :
    n.callers = m.callers.push { m.frame with pc := m.frame.pc + 1 } := by
  obtain ⟨method, f, _, _, rfl⟩ :=
    step_call_enters fetches calls stepped succeeded
  simp [apply]

/-! ## Runs inside of a call -/

/-- A run of successful steps, all of whose machines have more than `floor`
suspended callers. -/
inductive Deeper (floor : Nat) : Machine → Machine → Prop
  | refl {m : Machine} :
      floor < m.depth →
      Deeper floor m m
  | step {m n last : Machine} {outcome : StepOutcome} :
      floor < m.depth →
      m.step = (n, outcome) →
      outcome.Succeeded →
      Deeper floor n last →
      Deeper floor m last

/-- Whether the lowest suspended frames of a machine are those of `callers`
and then `caller`, with others nested above. -/
def Suspends (callers : Array Frame) (caller : Frame) (m : Machine) :
    Prop :=
  ∃ nested : List Frame,
    m.callers.toList = callers.toList ++ caller :: nested

section Suspended

variable {callers : Array Frame} {caller : Frame}

theorem Deeper.start_depth {floor : Nat} {last : Machine}
    (inside : Deeper floor m last) : floor < m.depth := by
  cases inside with
  | refl deeper =>
      exact deeper
  | step deeper =>
      exact deeper

theorem Suspends.step (suspends : m.Suspends callers caller)
    (stepped : m.step = (n, outcome)) (succeeded : outcome.Succeeded)
    (deeper : callers.size < n.depth) :
    n.Suspends callers caller := by
  obtain ⟨nested, shape⟩ := suspends
  cases step_callersCase stepped succeeded with
  | kept same =>
      exact ⟨nested, by rw [same, shape]⟩
  | pushed same =>
      exact ⟨nested ++ [{ m.frame with pc := m.frame.pc + 1 }],
        by simp [same, shape]⟩
  | popped fetches returns back same =>
      -- The caller itself can only be popped by leaving the call.
      cases nested with
      | nil =>
          simp [depth, same, ← Array.length_toList, shape] at deeper
      | cons first rest =>
          exact ⟨(first :: rest).dropLast, by
            simp [same, shape]⟩

theorem Deeper.suspends {last : Machine}
    (inside : Deeper callers.size m last)
    (suspends : m.Suspends callers caller) :
    last.Suspends callers caller := by
  induction inside with
  | refl _ =>
      exact suspends
  | step _ stepped succeeded rest inductionHypothesis =>
      exact inductionHypothesis
        (suspends.step stepped succeeded rest.start_depth)

/-- The step that leaves a call is a return to the suspended caller. -/
theorem Suspends.returns (suspends : m.Suspends callers caller)
    (stepped : m.step = (n, outcome)) (succeeded : outcome.Succeeded)
    (back : n.depth = callers.size) :
    n.frame = caller ∧ n.callers = callers ∧
      ∃ i, m.next? = some i ∧
        Operation.ofByte? i.opcode = some .ret ∧
          m.register i.a = .ok n.result := by
  obtain ⟨nested, shape⟩ := suspends
  have size : m.callers.size = callers.size + (nested.length + 1) := by
    simp [← Array.length_toList, shape]
  cases step_callersCase stepped succeeded with
  | kept same =>
      rw [depth, same] at back
      omega
  | pushed same =>
      rw [depth, same, Array.size_push] at back
      omega
  | popped fetches returns restored same value =>
      rw [depth, same, Array.size_pop] at back
      obtain rfl : nested = [] := List.eq_nil_of_length_eq_zero (by omega)
      refine ⟨?_, ?_, _, fetches, returns, value⟩
      · rw [← Array.getLast?_toList, shape] at restored
        simpa using restored.symm
      · apply Array.toList_inj.mp
        simp [same, shape]

end Suspended

/-! ## The bracket -/

/-- The step that brings the depth back to that of a call is a return.  It
restores the frame of the caller, past the call, and the frames suspended
below it, and it hands over the register that it names. -/
theorem return_restores_caller {entered last returned : Machine}
    {i : Instruction} {onCall onReturn : StepOutcome}
    (fetches : m.next? = some i)
    (calls : Operation.ofByte? i.opcode = some .call)
    (called : m.step = (entered, onCall))
    (callSucceeded : onCall.Succeeded)
    (inside : Deeper m.depth entered last)
    (left : last.step = (returned, onReturn))
    (returnSucceeded : onReturn.Succeeded)
    (back : returned.depth = m.depth) :
    returned.frame = { m.frame with pc := m.frame.pc + 1 } ∧
      returned.callers = m.callers ∧
        ∃ j, last.next? = some j ∧
          Operation.ofByte? j.opcode = some .ret ∧
            last.register j.a = .ok returned.result := by
  have suspended :
      entered.Suspends m.callers { m.frame with pc := m.frame.pc + 1 } := by
    have pushed := step_call_callers fetches calls called callSucceeded
    exact ⟨[], by simp [pushed]⟩
  exact (inside.suspends suspended).returns left returnSucceeded back

/-- A machine about to call a method that pushes a value and calls another
one. -/
def nestedCaller : Machine :=
  { blank
      { stack := 16, depth := 2, methods := 2, globals := 1, entryTop := 1 }
    with
    stack := #[7, 9] ++ Array.replicate 14 0
    methods := #[some ⟨2, 2, 0⟩, some ⟨5, 1, 1⟩]
    code := #[0x20, 0x24, 0x15, 0x10020, 0x121, 0x21] }

/-- A machine after some steps. -/
def afterSteps (m : Machine) : Nat → Machine
  | 0 => m
  | count + 1 => afterSteps m.step.1 count

theorem nestedCaller_return :
    (nestedCaller.afterSteps 5).frame =
        { nestedCaller.frame with pc := nestedCaller.frame.pc + 1 } ∧
      (nestedCaller.afterSteps 5).callers = nestedCaller.callers ∧
        ∃ j, (nestedCaller.afterSteps 4).next? = some j ∧
          Operation.ofByte? j.opcode = some .ret ∧
            (nestedCaller.afterSteps 4).register j.a =
              .ok (nestedCaller.afterSteps 5).result := by
  have running (count : Nat)
      (goesOn : (nestedCaller.afterSteps count).step.2 = .running) :
      (nestedCaller.afterSteps count).step =
        ((nestedCaller.afterSteps count).step.1, .running) :=
    Prod.ext rfl goesOn
  exact return_restores_caller
    (show nestedCaller.next? = some (Instruction.decode 0x20) by decide)
    (by decide) (running 0 (by decide)) trivial
    (.step (by decide) (running 1 (by decide)) trivial
      (.step (by decide) (running 2 (by decide)) trivial
        (.step (by decide) (running 3 (by decide)) trivial
          (.refl (by decide)))))
    (running 4 (by decide)) trivial (by decide)

end Machine

end WindowMachine
