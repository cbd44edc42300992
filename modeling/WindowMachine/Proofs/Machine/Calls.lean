import WindowMachine.Proofs.Machine.Effects

/-!
# The frame of a call

A call checks its frame with 64-bit sums.  The base of the frame is always
exact, but its top is not: the counts of a registered method are bounded from
below only, and a top beyond the range wraps around to an index below the
stack, which the check lets pass.  The main result says for exactly which
calls the checks agree with the integers.
-/

namespace WindowMachine

/-- Regions of the sizes that the capacities give them. -/
structure Machine.Sized (m : Machine) : Prop where
  stack : (m.stack.size : Int) = m.capacities.stack.toInt
  globals : (m.globals.size : Int) = m.capacities.globals.toInt
  methods : (m.methods.size : Int) = m.capacities.methods.toInt
  depth : (m.callers.size : Int) ≤ m.capacities.depth.toInt

/-- A method that can be registered. -/
structure Method.Registrable (method : Method) : Prop where
  entry : 0 ≤ method.entry.toInt
  args : 0 ≤ method.args.toInt
  locals : 0 ≤ method.locals.toInt

namespace Machine

variable {m : Machine} {method : Method}

/-! ## Over the integers -/

/-- Whether the frame of a call fits, over the integers: its arguments lie on
the stack, its locals fit above them, and one more frame can be suspended. -/
def CallFits (m : Machine) (method : Method) : Prop :=
  0 ≤ m.frame.top.toInt - method.args.toInt + 1 ∧
    m.frame.top.toInt + method.locals.toInt < m.capacities.stack.toInt ∧
      (m.callers.size : Int) < m.capacities.depth.toInt

/-- What a call makes of a machine. -/
structure Entered (m : Machine) (method : Method) (n : Machine) :
    Prop where
  base : n.frame.base.toInt =
    m.frame.top.toInt - method.args.toInt + 1
  top : n.frame.top.toInt = m.frame.top.toInt + method.locals.toInt
  top_ge : -1 ≤ n.frame.top.toInt
  top_lt : n.frame.top.toInt < m.capacities.stack.toInt
  pc : n.frame.pc = method.entry
  limit : n.frame.limit.toInt =
    n.frame.base.toInt + method.args.toInt + method.locals.toInt
  callers : n.callers =
    m.callers.push { m.frame with pc := m.frame.pc + 1 }
  /-- The first registers are the topmost values of the caller. -/
  arguments : ∀ r : Nat, (r : Int) < method.args.toInt →
    n.stack[(n.frame.base.toInt + r).toNat]? =
      m.stack[(m.frame.top.toInt - method.args.toInt + 1 + r).toNat]?
  /-- The other registers are zero. -/
  locals : ∀ r : Nat, method.args.toInt ≤ r →
    (r : Int) < method.args.toInt + method.locals.toInt →
      n.stack[(n.frame.base.toInt + r).toNat]? = some 0
  others : ∀ place : Nat,
    (place : Int) ≤ m.frame.top.toInt ∨
      m.frame.top.toInt + method.locals.toInt < place →
        n.stack[place]? = m.stack[place]?
  rest : n =
    { m with
      stack := n.stack
      frame := n.frame
      callers := n.callers
      steps := m.steps + 1
      trace := n.trace }

/-- Whether a call is decided and carried out as over the integers: it goes
on exactly if its frame fits, and otherwise faults and changes nothing but the
next address and the step count. -/
structure CallsExactly (m : Machine) (i : Instruction) (method : Method) :
    Prop where
  running_iff : m.step.2 = .running ↔ m.CallFits method
  entered : m.CallFits method → m.Entered method m.step.1
  refused : ¬ m.CallFits method →
    (∃ cause, m.step.2 = .failed (.fault m.frame.pc i.opcode cause)) ∧
      m.step.1 =
        { m with
          steps := m.steps + 1
          frame := { m.frame with pc := m.frame.pc + 1 }
          trace := m.step.1.trace }

/-! ## Over words -/

section Words

variable
  (topGe : -1 ≤ m.frame.top.toInt)
  (topLt : m.frame.top.toInt < m.capacities.stack.toInt)
  (argsNonneg : 0 ≤ method.args.toInt)
  (localsNonneg : 0 ≤ method.locals.toInt)

include topGe topLt argsNonneg in
theorem callee_base :
    (m.callee method).base.toInt =
      m.frame.top.toInt - method.args.toInt + 1 := by
  have argsLt := method.args.toInt_lt
  have sizeLt := m.capacities.stack.toInt_lt
  have one : (1 : Int64).toInt = 1 := rfl
  have difference :
      (m.frame.top - method.args).toInt =
        m.frame.top.toInt - method.args.toInt :=
    toInt_sub_of_fits (by omega) (by omega)
  rw [callee, toInt_add_of_fits, difference, one]
  · rw [difference, one]
    omega
  · rw [difference, one]
    omega

include topGe localsNonneg in
theorem callee_top
    (inside : m.frame.top.toInt + method.locals.toInt < 2 ^ 63) :
    (m.callee method).top.toInt =
      m.frame.top.toInt + method.locals.toInt := by
  exact toInt_add_of_fits (by omega) inside

/-- A top beyond the range of indexes wraps around to one below the stack. -/
theorem callee_top_of_beyond
    (beyond : 2 ^ 63 ≤ m.frame.top.toInt + method.locals.toInt) :
    (m.callee method).top.toInt < -1 := by
  have topUpper := m.frame.top.toInt_lt
  have localsUpper := method.locals.toInt_lt
  have wrapped := toInt_add_of_beyond beyond
  change (m.frame.top + method.locals).toInt < -1
  omega

theorem callee_limit
    (topInside :
      (m.callee method).top.toInt < m.capacities.stack.toInt) :
    (m.callee method).limit.toInt = (m.callee method).top.toInt + 1 := by
  have one : (1 : Int64).toInt = 1 := rfl
  have sizeLt := m.capacities.stack.toInt_lt
  have topLower := (m.callee method).top.le_toInt
  change ((m.callee method).top + 1).toInt = _
  rw [toInt_add_of_fits (by omega) (by omega), one]

/-- The size of a stack as the checks see it. -/
theorem Sized.toInt_stack (sized : m.Sized) :
    (Int64.ofNat m.stack.size).toInt = m.capacities.stack.toInt := by
  have size := sized.stack
  have sizeLt := m.capacities.stack.toInt_lt
  rw [Int64.toInt_ofNat_of_lt (by omega), size]

include topGe topLt argsNonneg in
/-- The checks of a call, with only the sum in its top left to words. -/
theorem calleeFrame_eq_ok_iff_top {f : Frame} (sized : m.Sized) :
    m.calleeFrame method = .ok f ↔
      0 ≤ m.frame.top.toInt - method.args.toInt + 1 ∧
        (m.callee method).top.toInt < m.capacities.stack.toInt ∧
          (m.callers.size : Int) < m.capacities.depth.toInt ∧
            f = m.callee method := by
  have depth := sized.depth
  have zero : (0 : Int64).toInt = 0 := rfl
  rw [calleeFrame_eq_ok_iff, Int64.lt_iff_toInt_lt, Int64.le_iff_toInt_le,
    callee_base topGe topLt argsNonneg, sized.toInt_stack, zero]
  have free :
      m.callers.size ≠ m.capacities.depth.toInt.toNat ↔
        (m.callers.size : Int) < m.capacities.depth.toInt := by
    omega
  rw [free, Int.not_lt, Int.not_le]

include topGe topLt argsNonneg localsNonneg in
theorem calleeFrame_eq_ok_iff_fits {f : Frame} (sized : m.Sized)
    (inside : m.frame.top.toInt + method.locals.toInt < 2 ^ 63) :
    m.calleeFrame method = .ok f ↔
      m.CallFits method ∧ f = m.callee method := by
  rw [calleeFrame_eq_ok_iff_top topGe topLt argsNonneg sized,
    callee_top topGe localsNonneg inside, CallFits]
  simp only [and_assoc]

end Words

/-! ## Steps that call -/

/-- A machine whose top lies in the stack breaks down on no effect. -/
theorem breakdown?_eq_none
    (topGe : -1 ≤ m.frame.top.toInt)
    (topLt : m.frame.top.toInt < m.capacities.stack.toInt)
    (e : Effect) :
    m.breakdown? e = none := by
  cases e with
  | enter callee =>
      have sizeLt := m.capacities.stack.toInt_lt
      have zero : (0 : Int64).toInt = 0 := rfl
      have one : (1 : Int64).toInt = 1 := rfl
      have first : ¬ m.frame.top + 1 < 0 := by
        rw [Int64.lt_iff_toInt_lt, zero,
          toInt_add_of_fits (by omega) (by omega), one]
        omega
      simp [breakdown?, first]
  | _ =>
      rfl

section Steps

variable {i : Instruction}
  (fetches : m.next? = some i)
  (calls : Operation.ofByte? i.opcode = some .call)
  (found : m.method? i.imm.toInt64 = some method)

include fetches calls found in
theorem step_call_refused {cause : Failure}
    (refused : m.calleeFrame method = .error cause) :
    m.step =
      (m.fetched i, .failed (.fault m.frame.pc i.opcode cause)) := by
  rw [step_eq_execute fetches, execute_eq]
  simp [effect, calls, operationEffect, callEffect, found, refused,
    bind, Except.bind]

include fetches calls found in
theorem step_call_entered {f : Frame}
    (topGe : -1 ≤ m.frame.top.toInt)
    (topLt : m.frame.top.toInt < m.capacities.stack.toInt)
    (built : m.calleeFrame method = .ok f) :
    m.step = ((m.fetched i).apply (.enter f), .running) := by
  have worked : (m.fetched i).effect i = .ok (.enter f) := by
    simp [effect, calls, operationEffect, callEffect, found, built,
      bind, Except.bind, pure, Except.pure]
  have stands : (m.fetched i).breakdown? (.enter f) = none :=
    breakdown?_eq_none (by simpa using topGe) (by simpa using topLt) _
  have halted := halted_of_next? fetches
  rw [step_eq_execute fetches, execute_eq, worked]
  simp [perform, stands, apply, halted]

end Steps

/-! ## Entering -/

section Entering

variable (i : Instruction)

/-- Entering zeroes the slots from the top of the caller to that of the
callee. -/
theorem apply_enter_getElem?
    (topGe : -1 ≤ m.frame.top.toInt) (f : Frame) (place : Nat) :
    ((m.fetched i).apply (.enter f)).stack[place]? =
      if m.frame.top.toInt < place ∧ (place : Int) ≤ f.top.toInt ∧
          place < m.stack.size then
        some 0
      else m.stack[place]? := by
  simp only [apply, fetched_stack, fetched_frame, cleared_getElem?]
  have range :
      ((m.frame.top.toInt + 1).toNat ≤ place ∧
        place < (m.frame.top.toInt + 1).toNat +
            (f.top.toInt - m.frame.top.toInt).toNat ∧
          place < m.stack.size) ↔
        m.frame.top.toInt < place ∧ (place : Int) ≤ f.top.toInt ∧
          place < m.stack.size := by
    omega
  simp only [range]

theorem apply_enter_entered
    (topGe : -1 ≤ m.frame.top.toInt)
    (registrable : method.Registrable) (sized : m.Sized)
    (fits : m.CallFits method) :
    m.Entered method
      ((m.fetched i).apply (.enter (m.callee method))) := by
  obtain ⟨argumentsFit, localsFit, _⟩ := fits
  have argsNonneg := registrable.args
  have localsNonneg := registrable.locals
  have sizeLt := m.capacities.stack.toInt_lt
  have size := sized.stack
  have base := callee_base topGe (by omega) argsNonneg
  have top := callee_top topGe localsNonneg (by omega)
  have limit :=
    callee_limit (show (m.callee method).top.toInt < _ by omega)
  exact {
    base := base
    top := top
    top_ge := by
      change -1 ≤ (m.callee method).top.toInt
      omega
    top_lt := by
      change (m.callee method).top.toInt < _
      omega
    pc := rfl
    limit := by
      change (m.callee method).limit.toInt =
        (m.callee method).base.toInt + _ + _
      omega
    callers := by
      simp [apply]
    arguments := by
      intro r inside
      change _[((m.callee method).base.toInt + r).toNat]? = _
      rw [apply_enter_getElem? i topGe, if_neg (by omega), base]
    locals := by
      intro r lower upper
      change _[((m.callee method).base.toInt + r).toNat]? = _
      rw [apply_enter_getElem? i topGe, if_pos (by omega)]
    others := by
      intro place outside
      rw [apply_enter_getElem? i topGe, if_neg (by omega)]
    rest := by
      simp [apply] }

end Entering

/-! ## Exact calls -/

/-- Once the checks decide as the integers do, the whole step is exact. -/
theorem callsExactly_of_checks {i : Instruction}
    (sized : m.Sized)
    (topGe : -1 ≤ m.frame.top.toInt)
    (topLt : m.frame.top.toInt < m.capacities.stack.toInt)
    (registrable : method.Registrable)
    (fetches : m.next? = some i)
    (calls : Operation.ofByte? i.opcode = some .call)
    (found : m.method? i.imm.toInt64 = some method)
    (checks : ∀ f, m.calleeFrame method = .ok f ↔
      m.CallFits method ∧ f = m.callee method) :
    m.CallsExactly i method := by
  by_cases fits : m.CallFits method
  · have stepped := step_call_entered fetches calls found topGe topLt
      ((checks _).mpr ⟨fits, rfl⟩)
    exact {
      running_iff := by
        simp [stepped, fits]
      entered := by
        intro _
        rw [stepped]
        exact apply_enter_entered i topGe registrable sized fits
      refused := fun unfit => absurd fits unfit }
  · cases built : m.calleeFrame method with
    | ok f =>
        exact absurd ((checks f).mp built).1 fits
    | error cause =>
        have stepped := step_call_refused fetches calls found built
        exact {
          running_iff := by
            simp [stepped, fits]
          entered := fun fit => absurd fit fits
          refused := by
            intro _
            rw [stepped]
            exact ⟨⟨cause, rfl⟩, fetched_eq m i⟩ }

/-- A call is exact unless its top lies beyond the range of indexes and
nothing else stops it. -/
theorem callsExactly_iff {i : Instruction}
    (sized : m.Sized)
    (topGe : -1 ≤ m.frame.top.toInt)
    (topLt : m.frame.top.toInt < m.capacities.stack.toInt)
    (registrable : method.Registrable)
    (fetches : m.next? = some i)
    (calls : Operation.ofByte? i.opcode = some .call)
    (found : m.method? i.imm.toInt64 = some method) :
    m.CallsExactly i method ↔
      m.frame.top.toInt + method.locals.toInt < 2 ^ 63 ∨
        m.frame.top.toInt - method.args.toInt + 1 < 0 ∨
          m.capacities.depth.toInt ≤ m.callers.size := by
  constructor
  · intro exactly
    apply Decidable.byContradiction
    intro otherwise
    simp only [not_or, Int.not_lt, Int.not_le] at otherwise
    obtain ⟨beyond, argumentsFit, free⟩ := otherwise
    -- The wrapped top lies below the stack, so the check of the top passes.
    have wrapped := callee_top_of_beyond beyond
    have built :=
      (calleeFrame_eq_ok_iff_top topGe topLt registrable.args sized).mpr
        ⟨argumentsFit, by omega, free, rfl⟩
    have stepped :=
      step_call_entered fetches calls found topGe topLt built
    have fits : m.CallFits method :=
      exactly.running_iff.mp (by rw [stepped])
    have localsFit := fits.2.1
    have sizeLt := m.capacities.stack.toInt_lt
    omega
  · intro condition
    apply callsExactly_of_checks sized topGe topLt registrable fetches
      calls found
    intro f
    by_cases inside :
        m.frame.top.toInt + method.locals.toInt < 2 ^ 63
    · exact calleeFrame_eq_ok_iff_fits topGe topLt registrable.args
        registrable.locals sized inside
    · rw [calleeFrame_eq_ok_iff_top topGe topLt registrable.args sized, CallFits]
      constructor
      · rintro ⟨argumentsFit, _, free, _⟩
        omega
      · rintro ⟨⟨argumentsFit, _, free⟩, _⟩
        omega

/-- A machine about to call a method with some number of locals, from a frame
with two values on the stack. -/
def caller (locals : Int64) : Machine :=
  { blank
      { stack := 16, depth := 2, methods := 1, globals := 1, entryTop := 1 }
    with
    methods := #[some ⟨1, 2, locals⟩]
    code := #[0x20, 0x24] }

/-- Three locals fit, and the call is exact.  With the most locals that a
method can have the call is let through though they do not fit. -/
theorem caller_callsExactly :
    (caller 3).CallsExactly (Instruction.decode 0x20) ⟨1, 2, 3⟩ ∧
      ¬ (caller Int64.maxValue).CallsExactly (Instruction.decode 0x20)
        ⟨1, 2, Int64.maxValue⟩ := by
  constructor
  · exact
      (callsExactly_iff ⟨by decide, by decide, by decide, by decide⟩
        (by decide) (by decide) ⟨by decide, by decide, by decide⟩
        (by decide) (by decide) (by decide)).mpr (by decide)
  · exact fun exactly =>
      absurd
        ((callsExactly_iff ⟨by decide, by decide, by decide, by decide⟩
          (by decide) (by decide) ⟨by decide, by decide, by decide⟩
          (by decide) (by decide) (by decide)).mp exactly)
        (by decide)

end Machine

end WindowMachine
