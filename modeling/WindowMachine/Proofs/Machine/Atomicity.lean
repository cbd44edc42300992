import WindowMachine.Proofs.Machine.Faults
import WindowMachine.Proofs.Machine.InPlace

/-!
# Failing steps leave the machine alone

A step is worked in place, check by check and write by write, and nothing that
it has written is taken back.  Still a failing instruction has written nothing,
for each one looks at the machine until it cannot fail any more, and only then
writes.  So only the fetch has left a mark: the next address, the step count
and the trace.  Without a fetch there is no mark at all, and so the same step
fails in the same way for ever.
-/

namespace WindowMachine

namespace InPlace

variable {α β : Type} {m n : Machine} {work : InPlace α}
  {next : α → InPlace β}

/-- Work in two parts either failed in the first one, or went on from where
that one left the machine. -/
theorem on_bind_cases {result : Except Failure β}
    (done : (work >>= next).on m = .ok (result, n)) :
    (∃ why, work.on m = .ok (.error why, n) ∧ result = .error why) ∨
      ∃ value k, work.on m = .ok (.ok value, k) ∧
        (next value).on k = .ok (result, n) := by
  cases first : work.on m with
  | error b =>
      rw [on_bind_of_broke first] at done
      cases done
  | ok left =>
      obtain ⟨_ | value, k⟩ := left
      · rw [on_bind_of_error first] at done
        cases done
        exact .inl ⟨_, rfl, rfl⟩
      · rw [on_bind_of_ok first] at done
        exact .inr ⟨value, k, rfl, done⟩

/-! ## Looking and writing -/

/-- Whether work only looks at the machine. -/
def Looks (work : InPlace α) : Prop :=
  ∀ m result n, work.on m = .ok (result, n) → n = m

/-- Whether work does not fail. -/
def Sure (work : InPlace α) : Prop :=
  ∀ m why n, work.on m ≠ .ok (.error why, n)

/-- Whether work has written nothing if it fails. -/
def Atomic (work : InPlace α) : Prop :=
  ∀ m why n, work.on m = .ok (.error why, n) → n = m

theorem Looks.atomic (looks : Looks work) : Atomic work :=
  fun m why n failed => looks m (.error why) n failed

theorem Sure.atomic (sure : Sure work) : Atomic work :=
  fun m why n failed => absurd failed (sure m why n)

/-- Checks may come before work that is atomic. -/
theorem Looks.bind_atomic (looks : Looks work)
    (later : ∀ value, Atomic (next value)) : Atomic (work >>= next) := by
  intro m why n failed
  rcases on_bind_cases failed with ⟨_, first, -⟩ | ⟨value, k, first, second⟩
  · exact looks m _ n first
  · rw [later value k why n second]
    exact looks m _ k first

/-- After work that is atomic nothing may fail any more. -/
theorem Atomic.bind_sure (atomic : Atomic work)
    (later : ∀ value, Sure (next value)) : Atomic (work >>= next) := by
  intro m why n failed
  rcases on_bind_cases failed with ⟨_, first, -⟩ | ⟨value, k, first, second⟩
  · exact atomic m _ n first
  · exact absurd second (later value k why n)

theorem Looks.bind (looks : Looks work)
    (later : ∀ value, Looks (next value)) : Looks (work >>= next) := by
  intro m result n done
  rcases on_bind_cases done with ⟨_, first, -⟩ | ⟨value, k, first, second⟩
  · exact looks m _ n first
  · rw [later value k result n second]
    exact looks m _ k first

theorem Sure.bind (sure : Sure work) (later : ∀ value, Sure (next value)) :
    Sure (work >>= next) := by
  intro m why n failed
  rcases on_bind_cases failed with ⟨_, first, -⟩ | ⟨value, k, first, second⟩
  · exact sure m _ n first
  · exact later value k why n second

theorem looks_read (look : Machine → α) : Looks (read look) := by
  rintro m result n ⟨⟩
  rfl

theorem looks_throw (why : Failure) : Looks (throw why : InPlace α) := by
  rintro m result n ⟨⟩
  rfl

theorem looks_pure (value : α) : Looks (pure value) := by
  rintro m result n ⟨⟩
  rfl

theorem looks_ofExcept (result : Except Failure α) :
    Looks (ofExcept result) := by
  cases result with
  | error why =>
      exact looks_throw why
  | ok value =>
      exact looks_pure value

theorem looks_check (look : Machine → Except Failure α) :
    Looks (check look) :=
  (looks_read id).bind fun m => looks_ofExcept (look m)

theorem looks_int (place : Nat) : Looks (int place) :=
  (looks_read _).bind fun _ => looks_pure _

theorem sure_pure (value : α) : Sure (pure value) := by
  rintro m why n ⟨⟩

theorem sure_read (look : Machine → α) : Sure (read look) := by
  rintro m why n ⟨⟩

theorem sure_write (change : Machine → Machine) : Sure (write change) := by
  rintro m why n ⟨⟩

theorem sure_breakDown (b : Breakdown) :
    Sure (breakDown b : InPlace α) := by
  rintro m why n ⟨⟩

/-- What would come after a failure does not matter. -/
theorem atomic_throw_bind (why : Failure) :
    Atomic (throw why >>= next) := by
  rintro m _ n ⟨⟩
  rfl

/-! ## Calls -/

theorem sure_storeAt (index : Int64) (bits : Slot) :
    Sure (storeAt index bits) := by
  apply (sure_read _).bind
  intro size
  split
  · exact sure_write _
  · exact sure_breakDown _

theorem sure_zeroFrom (index : Int64) (count : Nat) :
    Sure (zeroFrom index count) := by
  induction count generalizing index with
  | zero =>
      exact sure_pure ()
  | succ count inductionHypothesis =>
      exact (sure_storeAt index 0).bind fun _ =>
        inductionHypothesis (index + 1)

theorem suspend_atomic (f : Frame) : Atomic (suspend f) := by
  apply (looks_read _).bind_atomic
  intro depth
  apply (looks_read _).bind_atomic
  intro room
  split
  · exact atomic_throw_bind _
  · exact (sure_write _).atomic

/-- The depth is checked before the first local is zeroed. -/
theorem enter_atomic (method : Method) : Atomic (enter method) := by
  apply (looks_read _).bind_atomic
  intro caller
  dsimp only
  split
  · exact atomic_throw_bind _
  · apply (looks_read _).bind_atomic
    intro size
    split
    · exact atomic_throw_bind _
    · apply (suspend_atomic caller).bind_sure
      intro _
      apply (sure_zeroFrom _ _).bind
      intro _
      exact sure_write _

theorem call_atomic (index : Int64) : Atomic (call index) := by
  apply (looks_read _).bind_atomic
  intro found
  split
  · exact (looks_throw _).atomic
  · exact enter_atomic _

theorem leave_atomic : Atomic leave := by
  have unsuspends : Atomic unsuspend := by
    apply (looks_read _).bind_atomic
    intro recent
    split
    · exact (looks_throw _).atomic
    · exact ((sure_write _).bind fun _ => sure_pure _).atomic
  exact unsuspends.bind_sure fun f => sure_write _

theorem print_atomic (place : Nat) : Atomic (print place) := by
  apply (looks_read _).bind_atomic
  intro sink
  split
  · exact (looks_pure _).atomic
  · exact (looks_int _).bind_atomic fun _ => (sure_write _).atomic
  · exact (looks_throw _).atomic

/-! ## Instructions -/

theorem operate_atomic (i : Instruction) (op : Operation) :
    Atomic (operate i op) := by
  cases op with
  | add | sub | mul | div | mod | exp =>
      exact (looks_check _).bind_atomic fun a =>
        (looks_check _).bind_atomic fun b =>
          (looks_check _).bind_atomic fun c =>
            (looks_int b).bind_atomic fun x =>
              (looks_int c).bind_atomic fun y =>
                (looks_ofExcept _).bind_atomic fun v =>
                  (sure_write _).atomic
  | addImm | subImm | mulImm | divImm | modImm | expImm =>
      exact (looks_check _).bind_atomic fun a =>
        (looks_int a).bind_atomic fun x =>
          (looks_ofExcept _).bind_atomic fun v => (sure_write _).atomic
  | fadd | fsub | fmul | fdiv | fmod | fexp =>
      exact (looks_check _).bind_atomic fun a =>
        (looks_check _).bind_atomic fun b =>
          (looks_check _).bind_atomic fun c =>
            (looks_read _).bind_atomic fun x =>
              (looks_read _).bind_atomic fun y => (sure_write _).atomic
  | sqrt =>
      exact (looks_check _).bind_atomic fun a =>
        (looks_check _).bind_atomic fun b =>
          (looks_int b).bind_atomic fun x => (sure_write _).atomic
  | fsqrt | mov =>
      exact (looks_check _).bind_atomic fun a =>
        (looks_check _).bind_atomic fun b =>
          (looks_read _).bind_atomic fun x => (sure_write _).atomic
  | sqrtImm | moveImm =>
      exact (looks_check _).bind_atomic fun a => (sure_write _).atomic
  | loadRet =>
      exact (looks_check _).bind_atomic fun a =>
        (looks_read _).bind_atomic fun value => (sure_write _).atomic
  | push =>
      refine (looks_check _).bind_atomic fun a =>
        (looks_read _).bind_atomic fun top =>
          (looks_read _).bind_atomic fun size => ?_
      split
      · exact (looks_throw _).atomic
      · exact (looks_read _).bind_atomic fun bits =>
          ((sure_write _).bind fun _ => sure_write _).atomic
  | pop =>
      refine (looks_check _).bind_atomic fun a =>
        (looks_read _).bind_atomic fun top =>
          (looks_read _).bind_atomic fun size => ?_
      split
      · exact (looks_throw _).atomic
      · exact (looks_read _).bind_atomic fun bits =>
          ((sure_write _).bind fun _ => sure_write _).atomic
  | loadGlobal =>
      exact (looks_check _).bind_atomic fun a =>
        (looks_check _).bind_atomic fun g =>
          (looks_read _).bind_atomic fun value => (sure_write _).atomic
  | setGlobal =>
      exact (looks_check _).bind_atomic fun a =>
        (looks_check _).bind_atomic fun g =>
          (looks_int a).bind_atomic fun value => (sure_write _).atomic
  | cmp | gt | gte =>
      refine (looks_check _).bind_atomic fun a =>
        (looks_check _).bind_atomic fun b =>
          (looks_int a).bind_atomic fun x =>
            (looks_int b).bind_atomic fun y => ?_
      split
      · exact (sure_write _).atomic
      · exact (sure_pure _).atomic
  | jumpIf =>
      refine (looks_check _).bind_atomic fun a =>
        (looks_int a).bind_atomic fun x => ?_
      split
      · exact (sure_write _).atomic
      · exact (sure_pure _).atomic
  | jump | halt =>
      exact (sure_write _).atomic
  | call =>
      exact call_atomic _
  | ret =>
      -- The return register is written last, after the call stack was found
      -- not to be empty.
      exact (looks_check _).bind_atomic fun a =>
        (looks_int a).bind_atomic fun v =>
          leave_atomic.bind_sure fun _ => sure_write _
  | print =>
      exact (looks_check _).bind_atomic fun a => print_atomic a

theorem exec_atomic (i : Instruction) : Atomic (exec i) := by
  unfold exec
  split
  · exact operate_atomic i _
  · exact (looks_throw _).atomic

theorem exec_failed {i : Instruction} {cause : Failure}
    (failed : (exec i).on m = .ok (.error cause, n)) :
    n = m ∧ cause.ofInstruction = true := by
  refine ⟨exec_atomic i m cause n failed, ?_⟩
  have comes : (exec i).on m = settled m (m.effect i) := exec_comes m i
  rw [failed] at comes
  cases worked : m.effect i with
  | error other =>
      rw [worked] at comes
      cases comes
      exact Machine.effect_checks m i cause worked
  | ok e =>
      rw [worked] at comes
      cases breaks : m.breakdown? e with
      | some b =>
          rw [settled_of_broke breaks] at comes
          cases comes
      | none =>
          rw [settled_of_whole breaks] at comes
          cases comes

/-- The failure of a fetched instruction becomes a fault, and nothing is
written at that. -/
theorem attempt_failed {pc : Int64} {i : Instruction} {why : Failure}
    (failed : (attempt pc i).on m = .ok (.error why, n)) :
    n = m ∧ why.beforeFetch = false := by
  rcases on_bind_cases failed with ⟨_, first, same⟩ | ⟨_, k, _, second⟩
  · cases worked : (exec i).on m with
    | error b =>
        rw [on_tryCatch_of_broke worked] at first
        cases first
    | ok left =>
        obtain ⟨cause | value, k⟩ := left
        · obtain ⟨rfl, possible⟩ := exec_failed worked
          rw [on_tryCatch_of_error worked] at first
          cases first
          cases same
          exact ⟨rfl, Failure.beforeFetch_of_ofInstruction possible⟩
        · rw [on_tryCatch_of_ok worked] at first
          cases first
  · exact absurd second (sure_read _ k why n)

/-! ## Steps -/

/-- A step fails before its instruction, on a machine that it has not touched,
or with it. -/
theorem step_failed_cases {why : Failure} (opened : m.closed = false)
    (failed : step.on m = .ok (.error why, n)) :
    (why.beforeFetch = true ∧ n = m) ∨
      ∃ i, m.next? = some i ∧ why.beforeFetch = false ∧
        n = m.fetched i := by
  rw [step, on_read_bind, if_neg (by simp [opened]), on_read_bind] at failed
  by_cases halted : m.halted = true
  · rw [if_pos halted] at failed
    cases failed
  · rw [if_neg halted, on_read_bind, on_read_bind] at failed
    by_cases spent : m.spent = true
    · rw [if_pos spent] at failed
      cases failed
      exact .inl ⟨rfl, rfl⟩
    · rw [if_neg spent, on_read_bind] at failed
      cases word : m.wordAt? m.frame.pc with
      | none =>
          rw [word] at failed
          cases failed
          exact .inl ⟨rfl, rfl⟩
      | some w =>
          rw [word] at failed
          change (execute (Instruction.decode w)).on m = _ at failed
          rw [execute_on] at failed
          obtain ⟨left, during⟩ := attempt_failed failed
          have fetches : m.next? = some (Instruction.decode w) := by
            simp [Machine.next?, opened, halted, spent, word]
          exact .inr ⟨_, fetches, during, left⟩

theorem step_of_failed {why : Failure}
    (failed : step.on m = .ok (.error why, n)) :
    m.step = (n, .failed why) := by
  rw [step_eq] at failed
  rcases stepped : m.step with ⟨k, _ | _ | other | b⟩
  all_goals
    rw [stepped] at failed
    cases failed
  rfl

end InPlace

namespace Machine

variable {m n : Machine} {why : Failure}

/-- A machine that stands still stays where it is for good. -/
theorem afterSteps_of_still (still : m.step.1 = m) (count : Nat) :
    m.afterSteps count = m := by
  induction count with
  | zero =>
      rfl
  | succ count inductionHypothesis =>
      rw [afterSteps, still, inductionHypothesis]

/-- A failing step changes nothing but the next address, the step count and
the trace, although what it has written is not taken back.  If no instruction
was fetched it changes nothing at all, and so it is repeated for ever;
otherwise the other two have moved by one. -/
theorem failed_step_atomic (opened : m.closed = false)
    (failed : InPlace.step.on m = .ok (.error why, n)) :
    n = { m with
        steps := n.steps
        frame := { m.frame with pc := n.frame.pc }
        trace := n.trace } ∧
      (why.beforeFetch = true → n = m ∧
        ∀ count, InPlace.step.on (m.afterSteps count) =
          .ok (.error why, m)) ∧
      (why.beforeFetch = false → n.steps = m.steps + 1 ∧
        n.frame.pc = m.frame.pc + 1 ∧
          (m.code.size < 2 ^ 63 →
            n.frame.pc.toInt = m.frame.pc.toInt + 1)) ∧
      m.step = (n, .failed why) := by
  have stepped := InPlace.step_of_failed failed
  rcases InPlace.step_failed_cases opened failed with
    ⟨before, rfl⟩ | ⟨i, fetches, during, rfl⟩
  · refine ⟨rfl, ?_, ?_, stepped⟩
    · intro _
      refine ⟨rfl, ?_⟩
      intro count
      rw [afterSteps_of_still (by rw [stepped]), failed]
    · intro during
      rw [before] at during
      cases during
  · refine ⟨?_, ?_, ?_, stepped⟩
    · rw [fetched_steps, fetched_frame]
      exact fetched_eq m i
    · intro before
      rw [during] at before
      cases before
    · intro _
      rw [fetched_steps, fetched_frame]
      exact ⟨rfl, rfl, toInt_next_pc fetches⟩

/-- A machine with values above its top and one frame suspended already, about
to call a method with two locals, with a budget of some steps. -/
def fullCaller (budget : Int64) : Machine :=
  { blank
      { stack := 4, depth := 1, methods := 1, globals := 1, entryTop := 0 }
    with
    stack := #[7, 8, 9, 10]
    methods := #[some ⟨0, 1, 2⟩]
    callers := #[⟨0, 0, 1, 4⟩]
    code := #[0x20, 0x24]
    steps := 3
    budget := budget }

/-- The call fails for want of depth and leaves the slots of its locals alone;
with the budget used up it is not fetched, however often it is tried. -/
theorem fullCaller_failed :
    ((fullCaller 4).step.1.stack = #[7, 8, 9, 10] ∧
        (fullCaller 4).step.1.steps = 4 ∧
          (fullCaller 4).step.1.frame.pc = 1) ∧
      InPlace.step.on ((fullCaller 3).afterSteps 20) =
        .ok (.error (.fault 0 0x20 (.budget 3)), fullCaller 3) := by
  constructor
  · have failed : InPlace.step.on (fullCaller 4) =
        .ok (.error (.fault 0 0x20 (.depth 1)), (fullCaller 4).step.1) :=
      rfl
    obtain ⟨rest, -, moved, -⟩ := failed_step_atomic rfl failed
    obtain ⟨steps, pc, -⟩ := moved rfl
    exact ⟨by rw [rest]; rfl, steps, pc⟩
  · have failed : InPlace.step.on (fullCaller 3) =
        .ok (.error (.fault 0 0x20 (.budget 3)), fullCaller 3) :=
      rfl
    exact ((failed_step_atomic rfl failed).2.1 rfl).2 20

end Machine

end WindowMachine
