import WindowMachine.Proofs.Machine.StaleSlots

/-!
# Slots below a call

The frames of all calls share one stack, and nothing in the checks of an
instruction keeps a callee from the slots of its caller: a pop may bring the
top below the base of the frame, a later push then writes there, and the
arguments of a nested call may begin there as well.  A call that does neither
is disciplined.

From a disciplined call to its return, the slots below its base hold what they
held before the call.  The invariant behind it is about frames only: each frame
since the call has its base at or above that of the call, and its top at most
one below.
-/

namespace WindowMachine

/-- Whether the registers of a frame lie at or above a stack index, and its
next push as well. -/
structure Frame.Over (f : Frame) (bound : Int) : Prop where
  base : bound ≤ f.base.toInt
  top : bound ≤ f.top.toInt + 1

namespace Machine

variable {m n : Machine} {bound : Int} {floor : Nat} {c : Capacities}
  {i : Instruction} {e : Effect}

/-- Whether the next step of a machine, if it is a pop, takes its value from a
stack index on, and if it is a call, puts the base of the callee there. -/
structure Disciplined (bound : Int) (m : Machine) : Prop where
  pop (i : Instruction) :
    m.next? = some i → Operation.ofByte? i.opcode = some .pop →
      bound ≤ m.frame.top.toInt
  call (i : Instruction) :
    m.next? = some i → Operation.ofByte? i.opcode = some .call →
      bound ≤ m.step.1.frame.base.toInt

instance : Decidable (m.Disciplined bound) :=
  decidable_of_iff
    (∀ i ∈ m.next?,
      (Operation.ofByte? i.opcode = some .pop →
          bound ≤ m.frame.top.toInt) ∧
        (Operation.ofByte? i.opcode = some .call →
          bound ≤ m.step.1.frame.base.toInt))
    ⟨fun all =>
        ⟨fun i found => (all i found).1, fun i found => (all i found).2⟩,
      fun disciplined i found =>
        ⟨disciplined.pop i found, disciplined.call i found⟩⟩

/-- Whether all frames since a call from `floor` suspended callers lie over a
stack index. -/
abbrev FramesOver (floor : Nat) (bound : Int) (m : Machine) : Prop :=
  FramesSince floor (·.Over bound) m

/-- Whether a machine holds the same slots below a stack index as an earlier
one. -/
def KeepsBelow (bound : Int) (m n : Machine) : Prop :=
  ∀ place : Nat, (place : Int) < bound → n.stack[place]? = m.stack[place]?

/-! ## Single writes -/

theorem keepsBelow_of_stack (same : n.stack = m.stack) :
    KeepsBelow bound m n := by
  intro place _
  rw [same]

theorem keepsBelow_set {slot : Nat} {bits : Slot}
    (same : n.stack = m.stack.setIfInBounds slot bits)
    (above : bound ≤ slot) : KeepsBelow bound m n := by
  intro place below
  rw [same, Array.getElem?_setIfInBounds_ne (by omega)]

/-- A register of a frame lies at or above its base. -/
theorem base_le_of_locate {size : Int} {r : UInt8} {slot : Nat}
    (within : m.frame.Within size) (fits : size ≤ Capacities.exactSlots)
    (located : m.locate r = .ok slot) :
    m.frame.base.toInt ≤ slot := by
  obtain ⟨index, -, -⟩ := locate_eq_ok_iff.mp located
  have base := within.base_nonneg
  have limit := within.base_le_limit
  have inside := within.limit_le
  have small := r.toNat_lt
  simp only [Capacities.exactSlots] at fits
  have register : (Int64.ofNat r.toNat).toInt = r.toNat :=
    Int64.toInt_ofNat_of_lt (by omega)
  rw [toInt_add_of_fits (by omega) (by omega), register] at index
  omega

/-! ## One effect -/

namespace FramesOver

theorem fetched (since : FramesOver floor bound m) (deeper : floor < m.depth)
    (i : Instruction) : FramesOver floor bound (m.fetched i) := by
  have frame := since.frame deeper
  apply FramesSince.of_frame since (fetched_callers m i)
  exact ⟨by simpa using frame.base, by simpa using frame.top⟩

/-- An effect inside of a disciplined call keeps the invariant and the slots
below. -/
theorem apply {op : Operation} (since : FramesOver floor bound m)
    (deeper : floor < m.depth) (safe : m.Safe c)
    (exactly : c.stack.toInt ≤ Capacities.exactSlots)
    (admits : m.Admits i op e)
    (pops : op = .pop → bound ≤ m.frame.top.toInt)
    (calls : ∀ callee, e = .enter callee → bound ≤ callee.base.toInt) :
    FramesOver floor bound (m.apply e) ∧ KeepsBelow bound m (m.apply e) := by
  obtain rfl := safe.capacities
  have frame := since.frame deeper
  have base := frame.base
  have top := frame.top
  have topGe := safe.frame.top_ge
  have topLt := safe.frame.top_lt
  simp only [Capacities.exactSlots] at exactly
  cases admits with
  | idle | setGlobal | halt | skip | jump | jumpIf =>
      exact ⟨FramesSince.of_frame since rfl ⟨base, top⟩,
        keepsBelow_of_stack rfl⟩
  | print =>
      rw [apply_print]
      exact ⟨FramesSince.of_frame since rfl frame, keepsBelow_of_stack rfl⟩
  | store computes located =>
      have above := base_le_of_locate safe.frame exactly located
      exact ⟨FramesSince.of_frame since rfl frame,
        keepsBelow_set rfl (by omega)⟩
  | push read free =>
      obtain ⟨index, -⟩ := position?_eq_some_iff.mp free
      have one : (1 : Int64).toInt = 1 := rfl
      have next : (m.frame.top + 1).toInt = m.frame.top.toInt + 1 := by
        rw [toInt_add_of_fits (by omega) (by omega), one]
      refine ⟨FramesSince.of_frame since rfl ⟨base, ?_⟩,
        keepsBelow_set rfl (by omega)⟩
      change bound ≤ (m.frame.top + 1).toInt + 1
      omega
  | pop located held =>
      have above := base_le_of_locate safe.frame exactly located
      have held := pops rfl
      have one : (1 : Int64).toInt = 1 := rfl
      have lowered : (m.frame.top - 1).toInt = m.frame.top.toInt - 1 := by
        rw [toInt_sub_of_fits (by omega) (by omega), one]
      refine ⟨FramesSince.of_frame since rfl ⟨base, ?_⟩,
        keepsBelow_set rfl (by omega)⟩
      change bound ≤ (m.frame.top - 1).toInt + 1
      omega
  | @enter method callee found built =>
      have modest := safe.modest _ (method?_mem found)
      have localsNonneg := modest.locals_nonneg
      have localsLe := modest.locals_le
      simp only [maxU16] at localsLe
      have inner := calls callee rfl
      obtain ⟨-, -, -, rfl⟩ := calleeFrame_eq_ok_iff.mp built
      have raised := callee_top (m := m) topGe localsNonneg (by omega)
      refine ⟨FramesSince.enter since frame ⟨inner, by omega⟩, ?_⟩
      -- The locals begin right above the top of the caller.
      intro place below
      simp only [Machine.apply, cleared_getElem?]
      rw [if_neg (by omega)]
  | leave read back =>
      exact ⟨FramesSince.leave since back, keepsBelow_of_stack rfl⟩

/-! ## Steps -/

theorem step (since : FramesOver floor bound m) (deeper : floor < m.depth)
    (safe : m.Safe c) (exactly : c.stack.toInt ≤ Capacities.exactSlots)
    (disciplined : m.Disciplined bound) :
    FramesOver floor bound m.step.1 ∧ KeepsBelow bound m m.step.1 := by
  rcases stepped : m.step with ⟨n, outcome⟩
  cases step_case stepped with
  | closed | finished | spent | unfetched =>
      exact ⟨since, keepsBelow_of_stack rfl⟩
  | faulted | broke =>
      exact ⟨since.fetched deeper _, keepsBelow_of_stack (fetched_stack _ _)⟩
  | @went i e fetches worked | @ended i e fetches worked =>
      obtain ⟨op, known, admits⟩ := effect_admits worked
      obtain ⟨frames, kept⟩ := (since.fetched deeper i).apply
        (by simpa [depth] using deeper) (safe.fetched i) exactly admits
        (by
          rintro rfl
          simpa using disciplined.pop i fetches known)
        (by
          rintro callee rfl
          cases admits with
          | enter =>
              have placed := disciplined.call i fetches known
              rwa [stepped] at placed)
      refine ⟨frames, ?_⟩
      intro place below
      rw [kept place below, fetched_stack]

theorem afterSteps (since : FramesOver floor bound m) (safe : m.Safe c)
    (exactly : c.stack.toInt ≤ Capacities.exactSlots) (count : Nat)
    (inside : ∀ k < count, floor < (m.afterSteps k).depth)
    (disciplined : ∀ k < count, (m.afterSteps k).Disciplined bound) :
    KeepsBelow bound m (m.afterSteps count) := by
  induction count generalizing m with
  | zero =>
      exact keepsBelow_of_stack rfl
  | succ count inductionHypothesis =>
      obtain ⟨frames, kept⟩ := since.step (inside 0 (by omega)) safe exactly
        (disciplined 0 (by omega))
      have later := inductionHypothesis frames
        (safe.step exactly)
        (fun k below => inside (k + 1) (by omega))
        (fun k below => disciplined (k + 1) (by omega))
      intro place below
      exact (later place below).trans (kept place below)

/-- The frame that a call has built lies over its own base, and its locals lie
above the slots of the caller. -/
theorem of_call {entered : Machine} {onCall : StepOutcome}
    (safe : m.Safe c) (exactly : c.stack.toInt ≤ Capacities.exactSlots)
    (fetches : m.next? = some i)
    (calls : Operation.ofByte? i.opcode = some .call)
    (called : m.step = (entered, onCall))
    (succeeded : onCall.Succeeded) :
    FramesOver m.depth entered.frame.base.toInt entered ∧
      KeepsBelow entered.frame.base.toInt m entered := by
  obtain rfl := safe.capacities
  obtain ⟨method, f, found, built, rfl⟩ :=
    step_call_enters fetches calls called succeeded
  have modest := safe.modest _ (method?_mem found)
  have argsNonneg := modest.args_nonneg
  have localsNonneg := modest.locals_nonneg
  have localsLe := modest.locals_le
  have topGe := safe.frame.top_ge
  have topLt := safe.frame.top_lt
  simp only [Capacities.exactSlots, maxU16] at exactly localsLe
  obtain ⟨-, -, -, rfl⟩ := calleeFrame_eq_ok_iff.mp built
  have base := callee_base topGe topLt argsNonneg
  have top := callee_top topGe localsNonneg (by omega)
  have frames : FramesSince (m.fetched i).depth
      (·.Over (m.callee method).base.toInt)
      ((m.fetched i).apply (.enter (m.callee method))) :=
    .of_entered ⟨Int.le_refl _, by omega⟩
  rw [depth, fetched_callers] at frames
  refine ⟨frames, ?_⟩
  intro place below
  change (place : Int) < (m.callee method).base.toInt at below
  rw [apply_enter_getElem? i topGe, if_neg (by omega)]

end FramesOver

/-! ## The call -/

/-- From a disciplined call on, up to and including the step that returns from
it, the slots below the base of the callee hold what they held before the
call. -/
theorem call_keeps_slots_below {c : Capacities}
    {start entered : Machine} {history : List Command}
    {i : Instruction} {onCall : StepOutcome}
    (made : Machine.new c = .ok start)
    (modest : ∀ command ∈ history, command.RegistersModest)
    (fetches : (start.after history).next? = some i)
    (calls : Operation.ofByte? i.opcode = some .call)
    (called : (start.after history).step = (entered, onCall))
    (succeeded : onCall.Succeeded)
    (count : Nat)
    (inside : ∀ k < count,
      (start.after history).depth < (entered.afterSteps k).depth)
    (disciplined : ∀ k < count,
      (entered.afterSteps k).Disciplined entered.frame.base.toInt) :
    ∀ place : Nat, (place : Int) < entered.frame.base.toInt →
      (entered.afterSteps count).stack[place]? =
        (start.after history).stack[place]? := by
  obtain ⟨safe, exactly⟩ := safe_of_fetches made modest fetches
  have enteredSafe : entered.Safe c := by
    have stepped := safe.step exactly
    rwa [called] at stepped
  obtain ⟨frames, kept⟩ :=
    FramesOver.of_call safe exactly fetches calls called succeeded
  have later :=
    FramesOver.afterSteps frames enteredSafe exactly count inside disciplined
  intro place below
  exact (later place below).trans (kept place below)

def nestingCapacities : Capacities :=
  { stack := 16, depth := 2, methods := 2, globals := 1, entryTop := 2 }

/-- Two methods, of which the first one pushes its argument, calls the second
one with it and pops it again, and three values on the stack. -/
def nesting : List Command :=
  [.setMethod 0 ⟨2, 1, 1⟩, .setMethod 1 ⟨6, 1, 1⟩,
    .setStack 0 7, .setStack 1 9, .setStack 2 5,
    .load #[0x20, 0x24, 0x15, 0x10020, 0x116, 0x121, 0x100, 0x121] 0]

/-- The machine that has entered the first method. -/
def nested : Machine := ((blank nestingCapacities).after nesting).step.1

theorem nesting_keeps :
    (nested.afterSteps 6).depth = 0 ∧
      ∀ place : Nat, (place : Int) < 2 →
        (nested.afterSteps 6).stack[place]? =
          ((blank nestingCapacities).after nesting).stack[place]? := by
  have modest : ∀ command ∈ nesting, command.RegistersModest := by
    simp only [nesting, List.forall_mem_cons, Command.RegistersModest,
      true_and]
    exact ⟨⟨by decide, by decide, by decide, by decide⟩,
      ⟨by decide, by decide, by decide, by decide⟩, by simp⟩
  exact ⟨by decide,
    call_keeps_slots_below
      (show Machine.new nestingCapacities = .ok (blank nestingCapacities)
        from rfl)
      modest
      (show _ = some (Instruction.decode 0x20) by decide) (by decide)
      (show _ = (nested, .running) by decide) trivial 6
      (by decide) (by decide)⟩

end Machine

end WindowMachine
