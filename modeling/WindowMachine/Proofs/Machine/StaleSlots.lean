import WindowMachine.Proofs.Machine.FramesSince
import WindowMachine.Proofs.Machine.Reachable
import WindowMachine.Proofs.Machine.Returns
import WindowMachine.Proofs.Machine.Views

/-!
# Slots above the window of a call

What earlier calls have left above the window of a callee has no influence on
it.  Take two machines that have just entered the same call and differ in
slots from the limit of its frame on.  They go on in lockstep until the call
returns, because a slot above the window is written, by a push or by the zeros
of a nested call, before the top or another window reaches it.

The slots on which both machines agree therefore form a bottom part of the
stack that only grows, and that holds the window and the top of every frame
since the call.
-/

namespace WindowMachine

/-- Whether the window of a frame and its top lie below a stack index. -/
structure Frame.Under (f : Frame) (bound : Int) : Prop where
  limit : f.limit.toInt ≤ bound
  top : f.top.toInt < bound

theorem Frame.Under.mono {f : Frame} {bound wider : Int}
    (under : f.Under bound) (wide : bound ≤ wider) : f.Under wider where
  limit := Int.le_trans under.limit wide
  top := Int.lt_of_lt_of_le under.top wide

namespace Machine

variable {m n : Machine} {bound wider : Int}

/-! ## Two machines -/

/-- A machine that differs from another one at most in the slots from a bound
on. -/
structure SameBelow (bound : Int) (m n : Machine) : Prop where
  size : n.stack.size = m.stack.size
  slots (place : Nat) : (place : Int) < bound →
    n.stack[place]? = m.stack[place]?
  rest : n = { m with stack := n.stack }

namespace SameBelow

theorem mono (same : SameBelow wider m n) (wide : bound ≤ wider) :
    SameBelow bound m n where
  size := same.size
  slots place below := same.slots place (Int.lt_of_lt_of_le below wide)
  rest := same.rest

theorem next? (same : SameBelow bound m n) : n.next? = m.next? := by
  rw [same.rest]
  rfl

theorem fetched (same : SameBelow bound m n) (i : Instruction) :
    SameBelow bound (m.fetched i) (n.fetched i) where
  size := by
    simpa using same.size
  slots place below := by
    simpa using same.slots place below
  rest := by
    rw [same.rest]
    by_cases tracing : m.tracing = true
    · simp [Machine.fetched, note, advance, tracing, depth]
    · simp [Machine.fetched, note, advance, tracing]

/-- What lies below the bound is all that an instruction sees. -/
theorem resembles (same : SameBelow bound m n)
    (under : m.frame.Under bound) : m.Resembles n where
  capacities := by rw [same.rest]
  size := same.size
  globals := by rw [same.rest]
  methods := by rw [same.rest]
  frame := by rw [same.rest]
  callers := by rw [same.rest]
  result := by rw [same.rest]
  sink := by rw [same.rest]
  bits slot shown := by
    have below : (slot : Int) < bound := by
      rcases shown with ⟨r, located⟩ | top
      · obtain ⟨index, -, inside⟩ := locate_eq_ok_iff.mp located
        rw [Int64.lt_iff_toInt_lt, index] at inside
        have limit := under.limit
        omega
      · have topUnder := under.top
        omega
    simp only [bitsAt, Array.getD_eq_getD_getElem?, same.slots slot below]

/-- An effect writes the same slots in the same way on both machines. -/
theorem apply (same : SameBelow bound m n) (e : Effect) :
    SameBelow bound (m.apply e) (n.apply e) := by
  have frame : n.frame = m.frame := by rw [same.rest]
  have sink : n.sink = m.sink := by rw [same.rest]
  have stored (slot : Nat) (bits : Slot) (place : Nat)
      (below : (place : Int) < bound) :
      (n.stack.setIfInBounds slot bits)[place]? =
        (m.stack.setIfInBounds slot bits)[place]? := by
    rw [Array.getElem?_setIfInBounds, Array.getElem?_setIfInBounds,
      same.size, same.slots place below]
  refine ⟨?_, ?_, ?_⟩
  · rw [apply_stack_size, apply_stack_size, same.size]
  · intro place below
    cases e with
    | idle | setGlobal | jump | leave | halt =>
        exact same.slots place below
    | print value =>
        rw [apply_print n, apply_print m]
        exact same.slots place below
    | store slot bits | push slot bits | pop slot bits =>
        exact stored slot bits place below
    | enter callee =>
        simp only [Machine.apply, cleared_getElem?, frame, same.size,
          same.slots place below]
  · cases e with
    | print value =>
        rw [same.rest]
        simp only [Machine.apply]
        split <;> rfl
    | _ =>
        rw [same.rest]
        rfl

/-- The common part of two stacks grows by slots that have become the
same. -/
theorem widen (same : SameBelow bound m n)
    (above : ∀ place : Nat, bound ≤ place → (place : Int) < wider →
      n.stack[place]? = m.stack[place]?) :
    SameBelow (max bound wider) m n where
  size := same.size
  slots place below := by
    by_cases inside : (place : Int) < bound
    · exact same.slots place inside
    · exact above place (by omega) (by omega)
  rest := same.rest

end SameBelow

/-! ## Lockstep -/

/-- Two machines inside of a call from `floor` suspended callers: they agree
below a bound, and all frames since the call lie below it. -/
structure InStep (floor : Nat) (bound : Int) (m n : Machine) : Prop where
  same : SameBelow bound m n
  frames : FramesSince floor (·.Under bound) m

namespace InStep

variable {floor : Nat} {c : Capacities} {i : Instruction}

theorem fetched (inStep : InStep floor bound m n)
    (deeper : floor < m.depth) (i : Instruction) :
    InStep floor bound (m.fetched i) (n.fetched i) where
  same := inStep.same.fetched i
  frames := by
    have under := inStep.frames.frame deeper
    apply inStep.frames.of_frame (fetched_callers m i)
    exact ⟨by simpa using under.limit, by simpa using under.top⟩

/-- An effect that leaves the suspended frames alone keeps the machines in
step, as long as the current frame stays below the bound. -/
private theorem of_frame {e : Effect} (inStep : InStep floor bound m n)
    (wide : bound ≤ wider)
    (same : SameBelow wider (m.apply e) (n.apply e))
    (callers : (m.apply e).callers = m.callers)
    (frame : (m.apply e).frame.Under wider) :
    InStep floor wider (m.apply e) (n.apply e) :=
  ⟨same,
    (inStep.frames.mono fun _ under => under.mono wide).of_frame callers
      frame⟩

/-- A push writes the slot right above the common part, or one inside of
it. -/
private theorem push {slot : Nat} {bits : Slot}
    (inStep : InStep floor bound m n)
    (under : m.frame.Under bound)
    (free : position? (m.frame.top + 1) m.stack.size = some slot)
    (topGe : -1 ≤ m.frame.top.toInt)
    (topLt : m.frame.top.toInt < m.stack.size)
    (size : (m.stack.size : Int) < 2 ^ 63) :
    InStep floor (max bound (slot + 1)) (m.apply (.push slot bits))
      (n.apply (.push slot bits)) := by
  obtain ⟨index, inside⟩ := position?_eq_some_iff.mp free
  have one : (1 : Int64).toInt = 1 := rfl
  have next : (slot : Int) = m.frame.top.toInt + 1 := by
    rw [← index, toInt_add_of_fits (by omega) (by omega), one]
  have limit := under.limit
  have top := under.top
  apply inStep.of_frame (by omega)
  · apply (inStep.same.apply _).widen
    intro place above below
    obtain rfl : place = slot := by omega
    simp [Machine.apply, inStep.same.size, inside]
  · rfl
  · refine ⟨?_, ?_⟩
    · change m.frame.limit.toInt ≤ _
      omega
    · change (m.frame.top + 1).toInt < _
      omega

/-- A call zeroes what lies between the common part and the top of the new
window. -/
private theorem enter {callee : Frame}
    (inStep : InStep floor bound m n)
    (under : m.frame.Under bound)
    (topGe : -1 ≤ m.frame.top.toInt)
    (limit : callee.limit.toInt = callee.top.toInt + 1) :
    InStep floor (max bound (callee.top.toInt + 1))
      (m.apply (.enter callee)) (n.apply (.enter callee)) := by
  have top := under.top
  have sameFrame : n.frame = m.frame := by rw [inStep.same.rest]
  have frames := inStep.frames.mono fun _ under =>
    under.mono (Int.le_max_left bound (callee.top.toInt + 1))
  refine ⟨?_, frames.enter (under.mono (by omega)) ⟨by omega, by omega⟩⟩
  · apply (inStep.same.apply _).widen
    intro place above below
    by_cases inside : place < m.stack.size
    · simp only [Machine.apply, cleared_getElem?, sameFrame,
        inStep.same.size]
      rw [if_pos (by omega), if_pos (by omega)]
    · rw [Array.getElem?_eq_none (by simp [inStep.same.size]; omega),
        Array.getElem?_eq_none (by simp; omega)]

/-- A return uncovers a frame that was suspended since the call, unless it
leaves the call. -/
private theorem leave {caller : Frame} {value : Int32}
    (inStep : InStep floor bound m n)
    (back : m.callers.back? = some caller) :
    InStep floor bound (m.apply (.leave caller value))
      (n.apply (.leave caller value)) :=
  ⟨inStep.same.apply _, inStep.frames.leave back⟩

theorem apply {op : Operation} {e : Effect}
    (inStep : InStep floor bound m n) (deeper : floor < m.depth)
    (safe : m.Safe c) (exactly : c.stack.toInt ≤ Capacities.exactSlots)
    (admits : m.Admits i op e) :
    ∃ wider, bound ≤ wider ∧
      InStep floor wider (m.apply e) (n.apply e) := by
  obtain rfl := safe.capacities
  have under := inStep.frames.frame deeper
  have topGe := safe.frame.top_ge
  have topLt := safe.frame.top_lt
  have size := safe.stack
  simp only [Capacities.exactSlots] at exactly
  cases admits with
  | idle | store | setGlobal | halt | skip | jump | jumpIf =>
      exact ⟨bound, Int.le_refl _,
        inStep.of_frame (Int.le_refl _) (inStep.same.apply _) rfl
          ⟨under.limit, under.top⟩⟩
  | print =>
      refine ⟨bound, Int.le_refl _,
        inStep.of_frame (Int.le_refl _) (inStep.same.apply _) ?_ ?_⟩
      · rw [apply_print]
      · rw [apply_print]
        exact under
  | push read free =>
      exact ⟨_, Int.le_max_left _ _,
        inStep.push under free topGe (by omega) (by omega)⟩
  | pop located held =>
      obtain ⟨index, inside⟩ := position?_eq_some_iff.mp held
      have one : (1 : Int64).toInt = 1 := rfl
      have topUnder := under.top
      have lowered : (m.frame.top - 1).toInt = m.frame.top.toInt - 1 := by
        rw [toInt_sub_of_fits (by omega) (by omega), one]
      refine ⟨bound, Int.le_refl _,
        inStep.of_frame (Int.le_refl _) (inStep.same.apply _) rfl
          ⟨under.limit, ?_⟩⟩
      change (m.frame.top - 1).toInt < bound
      omega
  | enter found built =>
      have modest := safe.modest _ (method?_mem found)
      have within := calleeFrame_within safe.toSound modest exactly built
      obtain ⟨-, -, -, rfl⟩ := calleeFrame_eq_ok_iff.mp built
      exact ⟨_, Int.le_max_left _ _,
        inStep.enter under topGe (callee_limit within.top_lt)⟩
  | leave read back =>
      exact ⟨bound, Int.le_refl _, inStep.leave back⟩

theorem step (inStep : InStep floor bound m n) (deeper : floor < m.depth)
    (safe : m.Safe c)
    (exactly : c.stack.toInt ≤ Capacities.exactSlots) :
    n.step.2 = m.step.2 ∧
      ∃ wider, bound ≤ wider ∧
        InStep floor wider m.step.1 n.step.1 := by
  have sameNext := inStep.same.next?
  cases fetches : m.next? with
  | none =>
      rw [step_of_next?_none fetches,
        step_of_next?_none (sameNext.trans fetches)]
      refine ⟨?_, bound, Int.le_refl _, inStep⟩
      rw [inStep.same.rest]
      rfl
  | some i =>
      have fetched := inStep.fetched deeper i
      have fetchedDeeper : floor < (m.fetched i).depth := by
        simpa [depth] using deeper
      obtain ⟨outcome, ⟨stops, alsoStops⟩ | ⟨e, worked, goes, alsoGoes⟩⟩ :=
        step_alongside fetches (sameNext.trans fetches)
          (fetched.same.resembles (fetched.frames.frame fetchedDeeper)) rfl
          (fun op _ => .refl op i)
      · rw [stops, alsoStops]
        exact ⟨outcome, bound, Int.le_refl _, fetched⟩
      · obtain ⟨op, -, admits⟩ := effect_admits worked
        rw [goes, alsoGoes]
        exact ⟨outcome, fetched.apply fetchedDeeper (safe.fetched i)
          exactly admits⟩

theorem afterSteps (inStep : InStep floor bound m n) (safe : m.Safe c)
    (exactly : c.stack.toInt ≤ Capacities.exactSlots) (count : Nat)
    (inside : ∀ k < count, floor < (m.afterSteps k).depth) :
    (∃ wider, bound ≤ wider ∧
      InStep floor wider (m.afterSteps count) (n.afterSteps count)) ∧
        ∀ k < count, (n.afterSteps k).step.2 = (m.afterSteps k).step.2 := by
  induction count generalizing m n bound with
  | zero =>
      refine ⟨⟨bound, Int.le_refl _, inStep⟩, ?_⟩
      intro k impossible
      omega
  | succ count inductionHypothesis =>
      obtain ⟨outcome, wider, wide, stepped⟩ :=
        inStep.step (inside 0 (by omega)) safe exactly
      obtain ⟨⟨widest, wideEnough, last⟩, outcomes⟩ :=
        inductionHypothesis stepped (safe.step exactly)
          (fun k below => inside (k + 1) (by omega))
      refine ⟨⟨widest, Int.le_trans wide wideEnough, last⟩, ?_⟩
      intro k below
      cases k with
      | zero =>
          exact outcome
      | succ k =>
          exact outcomes k (by omega)

/-- Right after a call both machines are in step up to the limit of the
callee. -/
theorem of_call {entered : Machine} {onCall : StepOutcome}
    (safe : m.Safe c) (exactly : c.stack.toInt ≤ Capacities.exactSlots)
    (fetches : m.next? = some i)
    (calls : Operation.ofByte? i.opcode = some .call)
    (called : m.step = (entered, onCall))
    (succeeded : onCall.Succeeded)
    (same : SameBelow entered.frame.limit.toInt entered n) :
    InStep m.depth entered.frame.limit.toInt entered n := by
  obtain rfl := safe.capacities
  obtain ⟨method, f, found, built, rfl⟩ :=
    step_call_enters fetches calls called succeeded
  have modest := safe.modest _ (method?_mem found)
  have within := calleeFrame_within safe.toSound modest exactly built
  obtain ⟨-, -, -, rfl⟩ := calleeFrame_eq_ok_iff.mp built
  have limit := callee_limit within.top_lt
  have frames : FramesSince (m.fetched i).depth
      (·.Under (m.callee method).limit.toInt)
      ((m.fetched i).apply (.enter (m.callee method))) :=
    .of_entered ⟨Int.le_refl _, by omega⟩
  rw [depth, fetched_callers] at frames
  exact ⟨same, frames⟩

end InStep

/-! ## The call -/

/-- From a call to its return, the slots above the window of the callee have
no influence: a machine in which they hold anything else makes the same steps,
with the same outcomes, and differs from the first one in slots above that
window alone.  This includes the steps on which the program ends or fails. -/
theorem call_ignores_slots_above {c : Capacities}
    {start entered other : Machine} {history : List Command}
    {i : Instruction} {onCall : StepOutcome}
    (made : Machine.new c = .ok start)
    (modest : ∀ command ∈ history, command.RegistersModest)
    (fetches : (start.after history).next? = some i)
    (calls : Operation.ofByte? i.opcode = some .call)
    (called : (start.after history).step = (entered, onCall))
    (succeeded : onCall.Succeeded)
    (same : SameBelow entered.frame.limit.toInt entered other)
    (count : Nat)
    (inside : ∀ k < count,
      (start.after history).depth < (entered.afterSteps k).depth) :
    SameBelow entered.frame.limit.toInt (entered.afterSteps count)
        (other.afterSteps count) ∧
      ∀ k < count,
        (other.afterSteps k).step.2 = (entered.afterSteps k).step.2 := by
  obtain ⟨safe, exactly⟩ := safe_of_fetches made modest fetches
  have enteredSafe : entered.Safe c := by
    have stepped := safe.step exactly
    rwa [called] at stepped
  obtain ⟨⟨wider, wide, last⟩, outcomes⟩ :=
    (InStep.of_call safe exactly fetches calls called succeeded
      same).afterSteps enteredSafe exactly count inside
  exact ⟨last.same.mono wide, outcomes⟩

def smallCapacities : Capacities :=
  { stack := 16, depth := 2, methods := 2, globals := 1, entryTop := 1 }

/-- A history that leaves some bits above the two values on the stack, before
a method that pushes, calls another method and pops. -/
def leftovers (bits : Slot) : List Command :=
  [.setMethod 0 ⟨2, 2, 1⟩, .setMethod 1 ⟨7, 1, 1⟩,
    .setStack 0 7, .setStack 1 9,
    .setSlot 3 bits, .setSlot 4 bits, .setSlot 5 bits,
    .load #[0x20, 0x24, 0x15, 0x10020, 0x222, 0x116, 0x221, 0x100, 0x121] 0]

/-- The machine that has entered the first method after that history. -/
def overLeftovers (bits : Slot) : Machine :=
  ((blank smallCapacities).after (leftovers bits)).step.1

theorem leftovers_ignored :
    overLeftovers 5 ≠ overLeftovers 8 ∧
      SameBelow 3 ((overLeftovers 5).afterSteps 7)
        ((overLeftovers 8).afterSteps 7) ∧
      ∀ k < 7, ((overLeftovers 8).afterSteps k).step.2 =
        ((overLeftovers 5).afterSteps k).step.2 := by
  have modest : ∀ command ∈ leftovers 5, command.RegistersModest := by
    simp only [leftovers, List.forall_mem_cons, Command.RegistersModest,
      true_and]
    exact ⟨⟨by decide, by decide, by decide, by decide⟩,
      ⟨by decide, by decide, by decide, by decide⟩, by simp⟩
  have below : ∀ place < 3,
      (overLeftovers 8).stack[place]? = (overLeftovers 5).stack[place]? := by
    decide
  have same : SameBelow (overLeftovers 5).frame.limit.toInt
      (overLeftovers 5) (overLeftovers 8) := by
    refine ⟨by decide, ?_, by decide⟩
    intro place inside
    have limit : (overLeftovers 5).frame.limit.toInt = 3 := by decide
    exact below place (by omega)
  exact ⟨by decide,
    call_ignores_slots_above
      (show Machine.new smallCapacities = .ok (blank smallCapacities) from rfl)
      modest
      (show _ = some (Instruction.decode 0x20) by decide) (by decide)
      (show _ = (overLeftovers 5, .running) by decide) trivial same 7
      (by decide)⟩

end Machine

end WindowMachine
