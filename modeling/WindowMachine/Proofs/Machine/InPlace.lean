import WindowMachine.Machine.InPlace
import WindowMachine.Proofs.Machine.Effects

/-!
# Working in place comes to the same

An instruction that is worked in place checks and writes as it goes.  It comes
to what its effect comes to: it fails with the same failure and leaves the
machine as it found it, it breaks down on the same slot, or it leaves the
machine to which the effect was applied.  So a step in place is a step.
-/

namespace WindowMachine

namespace InPlace

variable {α β : Type} {m : Machine}

/-! ## Doing pieces of work -/

section Sequences

variable {n : Machine} {work : InPlace α} {next : α → InPlace β}

theorem on_bind_of_ok {value : α} (went : work.on m = .ok (.ok value, n)) :
    (work >>= next).on m = (next value).on n := by
  simp only [on] at went
  simp only [on, ExceptT.run_bind, StateT.run_bind, went]
  rfl

theorem on_bind_of_error {why : Failure}
    (failed : work.on m = .ok (.error why, n)) :
    (work >>= next).on m = .ok (.error why, n) := by
  simp only [on] at failed
  simp only [on, ExceptT.run_bind, StateT.run_bind, failed]
  rfl

theorem on_bind_of_broke {b : Breakdown} (broke : work.on m = .error b) :
    (work >>= next).on m = .error b := by
  simp only [on] at broke
  simp only [on, ExceptT.run_bind, StateT.run_bind, broke]
  rfl

theorem on_tryCatch_of_ok {handle : Failure → InPlace α} {value : α}
    (went : work.on m = .ok (.ok value, n)) :
    (tryCatch work handle).on m = .ok (.ok value, n) := by
  simp only [on] at went
  simp only [on, ExceptT.run_tryCatch, StateT.run_bind, went]
  rfl

theorem on_tryCatch_of_error {handle : Failure → InPlace α} {why : Failure}
    (failed : work.on m = .ok (.error why, n)) :
    (tryCatch work handle).on m = (handle why).on n := by
  simp only [on] at failed
  simp only [on, ExceptT.run_tryCatch, StateT.run_bind, failed]
  rfl

theorem on_tryCatch_of_broke {handle : Failure → InPlace α} {b : Breakdown}
    (broke : work.on m = .error b) :
    (tryCatch work handle).on m = .error b := by
  simp only [on] at broke
  simp only [on, ExceptT.run_tryCatch, StateT.run_bind, broke]
  rfl

end Sequences

section Pieces

variable (m : Machine)

theorem on_pure (value : α) :
    (pure value : InPlace α).on m = .ok (.ok value, m) :=
  rfl

theorem on_write (change : Machine → Machine) :
    (write change).on m = .ok (.ok (), change m) :=
  rfl

theorem on_read (look : Machine → α) :
    (read look).on m = .ok (.ok (look m), m) :=
  rfl

theorem on_read_bind (look : Machine → α) (next : α → InPlace β) :
    (read look >>= next).on m = (next (look m)).on m :=
  on_bind_of_ok (on_read m look)

theorem on_int_bind (place : Nat) (next : Int32 → InPlace β) :
    (int place >>= next).on m =
      (next (Slot.asInt (m.bitsAt place))).on m :=
  on_bind_of_ok rfl

end Pieces

/-! ## Instructions -/

/-- What working out an instruction comes to if it is worked in place. -/
def settled (m : Machine) :
    Except Failure Effect → Except Breakdown (Except Failure Unit × Machine)
  | .error cause => .ok (.error cause, m)
  | .ok e => (m.breakdown? e).elim (.ok (.ok (), m.apply e)) .error

section Settled

variable {e : Effect}

theorem settled_of_whole (whole : m.breakdown? e = none) :
    settled m (.ok e) = .ok (.ok (), m.apply e) := by
  rw [settled, whole]
  rfl

theorem settled_of_broke {b : Breakdown}
    (breaks : m.breakdown? e = some b) :
    settled m (.ok e) = .error b := by
  rw [settled, breaks]
  rfl

end Settled

theorem breakdown?_enter (m : Machine) (callee : Frame) :
    m.breakdown? (.enter callee) =
      if m.frame.top + 1 < 0 ∧ m.frame.top + 1 ≤ callee.top then
        some (.slot (m.frame.top + 1))
      else none :=
  rfl

/-- Whether work on a machine comes to what was worked out. -/
def Comes (m : Machine) (work : InPlace Unit)
    (worked : Except Failure Effect) : Prop :=
  work.on m = settled m worked

theorem comes_ofExcept {result : Except Failure α}
    {next : α → InPlace Unit} {later : α → Except Failure Effect}
    (each : ∀ value, Comes m (next value) (later value)) :
    Comes m (ofExcept result >>= next) (result >>= later) := by
  cases result with
  | error why =>
      rfl
  | ok value =>
      exact each value

/-- The same check comes before both. -/
theorem comes_check {look : Machine → Except Failure α}
    {next : α → InPlace Unit} {later : α → Except Failure Effect}
    (each : ∀ value, Comes m (next value) (later value)) :
    Comes m (check look >>= next) (look m >>= later) :=
  comes_ofExcept each

/-- The position of a register that was located is read later on. -/
theorem comes_readBits {r : UInt8} {next : Nat → InPlace Unit}
    {later : Slot → Except Failure Effect}
    (each : ∀ place, Comes m (next place) (later (m.bitsAt place))) :
    Comes m (reg r >>= next) (m.readBits r >>= later) := by
  rw [Machine.readBits, bind_assoc]
  exact comes_check each

/-! ## Calls -/

theorem on_storeAt_of_some {index : Int64} {place : Nat} (bits : Slot)
    (held : position? index m.stack.size = some place) :
    (storeAt index bits).on m = (store place bits).on m := by
  simp only [storeAt, on_read_bind, held]

theorem on_storeAt_of_none {index : Int64} (bits : Slot)
    (beyond : position? index m.stack.size = none) :
    (storeAt index bits).on m = .error (.slot index) := by
  simp only [storeAt, on_read_bind, beyond]
  rfl

/-- Slots that lie in the stack are zeroed one by one. -/
theorem on_zeroFrom {index : Int64} {start count : Nat}
    (stands : index.toInt = start) (below : start + count < 2 ^ 63)
    (inside : start + count ≤ m.stack.size) :
    (zeroFrom index count).on m =
      .ok (.ok (),
        { m with stack := Machine.cleared m.stack start count }) := by
  induction count generalizing m index start with
  | zero =>
      rfl
  | succ count inductionHypothesis =>
      have held : position? index m.stack.size = some start :=
        position?_eq_some_iff.mpr ⟨stands, by omega⟩
      have one : (1 : Int64).toInt = 1 := rfl
      have next : (index + 1).toInt = (start + 1 : Nat) := by
        rw [toInt_add_of_fits (by omega) (by omega), stands, one]
        rfl
      rw [zeroFrom, on_bind_of_ok (on_storeAt_of_some 0 held)]
      exact inductionHypothesis next (by omega)
        (by simp only [Array.size_setIfInBounds]; omega)

/-- A range that starts below the stack breaks the machine down, unless it is
empty. -/
theorem on_zero_of_below {first last : Int64} (below : first < 0)
    (reaches : first ≤ last) :
    (zero first last).on m = .error (.slot first) := by
  have count : (last.toInt + 1 - first.toInt).toNat =
      (last.toInt - first.toInt).toNat + 1 := by
    have := Int64.le_iff_toInt_le.mp reaches
    omega
  have beyond : position? first m.stack.size = none := by
    have := Int64.lt_iff_toInt_lt.mp below
    simp only [position?, ite_eq_right_iff, reduceCtorEq, imp_false]
    exact fun inside => absurd this (by simpa using inside.1)
  rw [zero, count, zeroFrom]
  exact on_bind_of_broke (on_storeAt_of_none 0 beyond)

theorem on_zero {first last : Int64} (sound : ¬ (first < 0 ∧ first ≤ last))
    (inside : last.toInt < m.stack.size) (below : last.toInt < 2 ^ 63 - 1) :
    (zero first last).on m =
      .ok (.ok (),
        { m with
          stack := Machine.cleared m.stack first.toInt.toNat
            (last.toInt + 1 - first.toInt).toNat }) := by
  rw [zero]
  by_cases reaches : first ≤ last
  · have natural : 0 ≤ first.toInt := by
      have : ¬ first < 0 := fun negative => sound ⟨negative, reaches⟩
      simpa [Int64.lt_iff_toInt_lt] using this
    have := Int64.le_iff_toInt_le.mp reaches
    exact on_zeroFrom (by omega) (by omega) (by omega)
  · have empty : (last.toInt + 1 - first.toInt).toNat = 0 := by
      rw [Int64.le_iff_toInt_le] at reaches
      omega
    rw [empty]
    rfl

theorem on_suspend_of_full (f : Frame)
    (full : m.callers.size = m.capacities.depth.toInt.toNat) :
    (suspend f).on m = .ok (.error (.depth m.callers.size), m) := by
  simp only [suspend, on_read_bind]
  rw [if_pos full]
  rfl

theorem on_suspend (f : Frame)
    (room : m.callers.size ≠ m.capacities.depth.toInt.toNat) :
    (suspend f).on m =
      .ok (.ok (), { m with callers := m.callers.push f }) := by
  simp only [suspend, on_read_bind]
  rw [if_neg room]
  rfl

/-- The last local of a call that has passed its checks lies in the stack, and
below the last number. -/
theorem top_bounds {size : Nat} {top : Int64}
    (fits : ¬ Int64.ofNat size ≤ top) :
    top.toInt < size ∧ top.toInt < 2 ^ 63 - 1 := by
  have limit := (Int64.ofNat size).toInt_lt
  have small : (Int64.ofNat size).toInt ≤ size := by
    have numbers : Int64.size = 2 ^ 64 := rfl
    rw [Int64.toInt_ofNat', Int.bmod_def, numbers]
    omega
  rw [Int64.le_iff_toInt_le] at fits
  omega

/-- Unless the first local lies below the stack, the locals that are zeroed in
place are those that are cleared. -/
theorem on_zero_locals {top last : Int64}
    (sound : ¬ (top + 1 < 0 ∧ top + 1 ≤ last))
    (fits : ¬ Int64.ofNat m.stack.size ≤ last) :
    (zero (top + 1) last).on m =
      .ok (.ok (),
        { m with
          stack := Machine.cleared m.stack (top.toInt + 1).toNat
            (last.toInt - top.toInt).toNat }) := by
  obtain ⟨inside, below⟩ := top_bounds fits
  have next : (top + 1).toInt = top.toInt + 1 := by
    have lower := top.le_toInt
    have upper := top.toInt_lt
    by_cases wraps : top.toInt + 1 < 2 ^ 63
    · exact toInt_add_of_fits (b := 1)
        (by change _ ≤ top.toInt + 1; omega) wraps
    · have wrapped : (top + 1).toInt = top.toInt + 1 - 2 ^ 64 :=
        toInt_add_of_beyond (b := 1) (by change _ ≤ top.toInt + 1; omega)
      have negative : top + 1 < 0 := by
        rw [Int64.lt_iff_toInt_lt, wrapped]
        change _ < (0 : Int)
        omega
      have least : top + 1 ≤ last := by
        have := last.le_toInt
        rw [Int64.le_iff_toInt_le, wrapped]
        omega
      exact absurd ⟨negative, least⟩ sound
  rw [on_zero sound inside below, next,
    show last.toInt + 1 - (top.toInt + 1) = last.toInt - top.toInt by omega]

/-- A call in place builds the frame of a call, or breaks down where its first
local lies below the stack. -/
theorem enter_comes (m : Machine) (method : Method) :
    Comes m (enter method)
      (m.calleeFrame method >>= fun callee => .ok (.enter callee)) := by
  simp only [Comes, enter, on_read_bind, Machine.calleeFrame]
  split
  · rfl
  · simp only [on_read_bind]
    split
    · rfl
    · rename_i fits
      by_cases full : m.callers.size = m.capacities.depth.toInt.toNat
      · rw [on_bind_of_error (on_suspend_of_full _ full), if_pos full]
        rfl
      · rw [on_bind_of_ok (on_suspend _ full), if_neg full]
        by_cases broken : m.frame.top + 1 < 0 ∧
            m.frame.top + 1 ≤ m.frame.top + method.locals
        · have breaks : m.breakdown? (.enter (m.callee method)) =
              some (.slot (m.frame.top + 1)) :=
            (breakdown?_enter m _).trans (if_pos broken)
          rw [on_bind_of_broke (on_zero_of_below broken.1 broken.2)]
          exact (settled_of_broke breaks).symm
        · have stands : m.breakdown? (.enter (m.callee method)) = none :=
            (breakdown?_enter m _).trans (if_neg broken)
          have zeroed := on_zero_locals
            (m := { m with callers := m.callers.push m.frame })
            broken fits
          rw [on_bind_of_ok zeroed]
          exact (settled_of_whole stands).symm

theorem call_comes (m : Machine) (index : Int64) :
    Comes m (call index) (m.callEffect index) := by
  simp only [Comes, call, on_read_bind, Machine.callEffect]
  cases m.method? index with
  | none =>
      rfl
  | some method =>
      exact enter_comes m method

theorem on_leave_of_none (recent : m.callers.back? = none) :
    leave.on m = .ok (.error (.plain .callStackUnderflow), m) := by
  simp only [leave, unsuspend, bind_assoc, on_read_bind, recent]
  rfl

theorem on_leave_of_some {f : Frame} (recent : m.callers.back? = some f) :
    leave.on m =
      .ok (.ok (), { m with callers := m.callers.pop, frame := f }) := by
  simp only [leave, unsuspend, bind_assoc, on_read_bind, recent]
  rfl

/-! ## Operations -/

section Operations

variable (m : Machine) (i : Instruction) (op : Operation)

theorem comes_fromTwo {work : Nat → Nat → Nat → InPlace Unit}
    {f : Slot → Slot → Except Failure Slot}
    (each : ∀ a b c, Comes m (work a b c)
      (f (m.bitsAt b) (m.bitsAt c) >>= fun bits => .ok (.store a bits))) :
    Comes m
      (reg i.a >>= fun a => reg i.b >>= fun b => reg i.c >>= work a b)
      (m.fromTwo i f) :=
  comes_check fun a => comes_readBits fun b => comes_readBits (each a b)

theorem comes_fromOne {work : Nat → Nat → InPlace Unit} {f : Slot → Slot}
    (each : ∀ a b, Comes m (work a b) (.ok (.store a (f (m.bitsAt b))))) :
    Comes m (reg i.a >>= fun a => reg i.b >>= work a) (m.fromOne i f) :=
  comes_check fun a => comes_readBits (each a)

theorem comes_update {work : Nat → InPlace Unit}
    {f : Slot → Except Failure Slot}
    (each : ∀ a, Comes m (work a)
      (f (m.bitsAt a) >>= fun bits => .ok (.store a bits))) :
    Comes m (reg i.a >>= work) (m.update i f) :=
  comes_check each

theorem comes_skipIf {holds : Int32 → Int32 → Bool}
    (agrees : ∀ a b, skips op a b = holds a b) :
    Comes m
      (do
        let a ← reg i.a
        let b ← reg i.b
        if skips op (← int a) (← int b) then
          jump 1)
      (m.skipIf i holds) := by
  apply comes_readBits
  intro a
  apply comes_readBits
  intro b
  simp only [Comes, on_int_bind, agrees]
  split
  · rfl
  · rfl

/-- Three registers, the last two of them read as integers. -/
theorem comes_intRegisters {f : Slot → Slot → Except Failure Slot}
    (agrees : ∀ a b, f a b =
      intOp op (Slot.asInt a) (Slot.asInt b) >>= fun v =>
        .ok (Slot.ofInt v)) :
    Comes m
      (do
        let a ← reg i.a
        let b ← reg i.b
        let c ← reg i.c
        let v ← ofExcept (intOp op (← int b) (← int c))
        store a (Slot.ofInt v))
      (m.fromTwo i f) := by
  apply comes_fromTwo
  intro a b c
  simp only [Comes, on_int_bind, agrees, bind_assoc]
  exact comes_ofExcept fun v => rfl

/-- A register read as an integer, and a number. -/
theorem comes_intNumber {f : Slot → Except Failure Slot}
    (agrees : ∀ a, f a =
      intOp op (Slot.asInt a) i.imm >>= fun v => .ok (Slot.ofInt v)) :
    Comes m
      (do
        let a ← reg i.a
        let v ← ofExcept (intOp op (← int a) i.imm)
        store a (Slot.ofInt v))
      (m.update i f) := by
  apply comes_update
  intro a
  simp only [Comes, on_int_bind, agrees, bind_assoc]
  exact comes_ofExcept fun v => rfl

theorem operate_comes :
    Comes m (operate i op) (m.operationEffect i op) := by
  cases op with
  | add | sub | mul | div | mod | exp =>
      exact comes_intRegisters m i _ fun _ _ => rfl
  | addImm | subImm | mulImm | divImm | modImm | expImm =>
      exact comes_intNumber m i _ fun _ => rfl
  | fadd | fsub | fmul | fdiv | fmod | fexp =>
      exact comes_fromTwo m i fun _ _ _ => rfl
  | sqrt | fsqrt | mov =>
      exact comes_fromOne m i fun _ _ => rfl
  | sqrtImm | moveImm | loadRet =>
      exact comes_check fun a => rfl
  | cmp | gt | gte =>
      exact comes_skipIf m i _ fun _ _ => rfl
  | push =>
      apply comes_readBits
      intro a
      simp only [Comes, on_read_bind]
      cases position? (m.frame.top + 1) m.stack.size with
      | none =>
          rfl
      | some place =>
          rfl
  | pop =>
      apply comes_check
      intro a
      simp only [Comes, on_read_bind]
      cases position? m.frame.top m.stack.size with
      | none =>
          rfl
      | some place =>
          rfl
  | loadGlobal =>
      exact comes_check fun a => comes_check fun g => rfl
  | setGlobal =>
      exact comes_readBits fun a => comes_check fun g => rfl
  | jumpIf =>
      apply comes_readBits
      intro a
      simp only [Comes, on_int_bind]
      by_cases zero : (Slot.asInt (m.bitsAt a) == 0) = true
      · simp only [bne, zero]
        rfl
      · simp only [bne, zero]
        rfl
  | jump | halt =>
      rfl
  | call =>
      exact call_comes m i.imm.toInt64
  | ret =>
      apply comes_readBits
      intro a
      simp only [Comes, on_int_bind]
      cases recent : m.callers.back? with
      | none =>
          rw [on_bind_of_error (on_leave_of_none recent)]
          rfl
      | some caller =>
          rw [on_bind_of_ok (on_leave_of_some recent)]
          rfl
  | print =>
      apply comes_readBits
      intro a
      simp only [Comes, print, on_read_bind]
      cases sink : m.sink with
      | keep =>
          change _ = Except.ok (Except.ok (), m.apply (.print _))
          simp only [on_int_bind, on_write, Machine.apply, sink]
      | drop =>
          change _ = Except.ok (Except.ok (), m.apply (.print _))
          simp only [on_pure, Machine.apply, sink]
      | refuse reason =>
          rfl

end Operations

/-- An instruction that is worked in place comes to its effect. -/
theorem exec_comes (m : Machine) (i : Instruction) :
    Comes m (exec i) (m.effect i) := by
  simp only [exec, Machine.effect]
  cases Operation.ofByte? i.opcode with
  | none =>
      rfl
  | some op =>
      exact operate_comes m i op

/-! ## Steps -/

/-- What a step comes to if it is taken in place. -/
def outcome : Machine × StepOutcome →
    Except Breakdown (Except Failure Bool × Machine)
  | (n, .running) => .ok (.ok false, n)
  | (n, .ended) => .ok (.ok true, n)
  | (n, .failed why) => .ok (.error why, n)
  | (_, .broke b) => .error b

/-- The writes of a fetch lead to the fetched machine. -/
theorem execute_on (m : Machine) (i : Instruction) :
    (execute i).on m = (attempt m.frame.pc i).on (m.fetched i) := by
  rw [execute, on_read_bind, on_bind_of_ok (on_write _ _), jump,
    on_bind_of_ok (on_write _ _), on_bind_of_ok (on_write _ _)]
  rfl

theorem execute_eq (m : Machine) (i : Instruction) :
    (execute i).on m = outcome (m.execute i) := by
  have comes : (exec i).on (m.fetched i) =
      settled (m.fetched i) ((m.fetched i).effect i) :=
    exec_comes _ _
  rw [execute_on, Machine.execute_eq]
  cases worked : (m.fetched i).effect i with
  | error cause =>
      rw [worked] at comes
      exact on_bind_of_error (on_tryCatch_of_error comes)
  | ok e =>
      rw [worked] at comes
      cases breaks : (m.fetched i).breakdown? e with
      | some b =>
          rw [settled_of_broke breaks] at comes
          rw [attempt, on_bind_of_broke (on_tryCatch_of_broke comes)]
          simp [Machine.perform, breaks, outcome]
      | none =>
          rw [settled_of_whole breaks] at comes
          rw [attempt, on_bind_of_ok (on_tryCatch_of_ok comes), on_read]
          cases halts : ((m.fetched i).apply e).halted with
          | true =>
              simp [Machine.perform, breaks, halts, outcome]
          | false =>
              simp [Machine.perform, breaks, halts, outcome]

/-- A step in place is a step. -/
theorem step_eq (m : Machine) : step.on m = outcome m.step := by
  rw [step, Machine.step, on_read_bind]
  by_cases closed : m.closed = true
  · rw [if_pos closed, if_pos closed]
    rfl
  · rw [if_neg closed, if_neg closed, on_read_bind]
    by_cases halted : m.halted = true
    · rw [if_pos halted, if_pos halted]
      rfl
    · rw [if_neg halted, if_neg halted, on_read_bind, on_read_bind]
      by_cases spent : m.spent = true
      · rw [if_pos spent, if_pos spent]
        rfl
      · rw [if_neg spent, if_neg spent, on_read_bind]
        cases m.wordAt? m.frame.pc with
        | none =>
            rfl
        | some w =>
            exact execute_eq m (Instruction.decode w)

end InPlace

end WindowMachine
