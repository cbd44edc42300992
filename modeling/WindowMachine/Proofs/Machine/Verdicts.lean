import WindowMachine.Proofs.Instruction.UnusedBytes
import WindowMachine.Proofs.Machine.Stops

/-!
# How runs come back

A run comes back because of its last step.  Either that step has executed a
halt instruction, and the machine is halted, or it has failed with a fault.
The fault names the address at which the machine stood and the opcode that it
found there, and behind it is one of seven conditions or a line that could not
be printed.  Nothing else makes a run come back, whatever the program, the
budget and the state of the machine.
-/

namespace WindowMachine

/-- The conditions behind the faults of a run. -/
def Condition.ofFaults : List Condition :=
  [.unknownOpcode, .outOfRange, .callStackOverflow, .callStackUnderflow,
   .divisionByZero, .unknownMethod, .budgetExhausted]

/-- Whether a run has come back, with or without a failure. -/
def Run.Returned (r : Run) : Prop :=
  r.ending = .done ∨ ∃ why, r.ending = .failed why

namespace Failure

variable {cause : Failure} {sink : Sink}

theorem condition?_of_ofOperation (possible : cause.ofOperation sink = true) :
    (∃ c ∈ Condition.ofFaults, cause.condition? = some c ∧
        c ≠ .unknownOpcode) ∨
      ∃ reason, cause = .output reason ∧ sink = .refuse reason := by
  cases cause with
  | output reason =>
      exact .inr ⟨reason, rfl, by simpa [ofOperation] using possible⟩
  | plain condition =>
      cases condition with
      | divisionByZero | callStackUnderflow =>
          exact .inl ⟨_, by decide, rfl, by decide⟩
      | _ =>
          cases possible
  | register | globalOperand | arguments | window | depth | push | pop
  | noMethod =>
      exact .inl ⟨_, by decide, rfl, by decide⟩
  | _ =>
      cases possible

theorem code_of_condition? {c : Condition}
    (stands : cause.condition? = some c) (member : c ∈ Condition.ofFaults) :
    3 ≤ cause.code ∧ cause.code ≤ 9 := by
  have codes : ∀ c ∈ Condition.ofFaults, 3 ≤ c.code ∧ c.code ≤ 9 := by
    decide
  simpa [code, stands] using codes c member

end Failure

namespace Machine

variable {m n : Machine} {outcome : StepOutcome} {r : Run} {count : Nat}
  {code : Array Word} {entry : Int64} {i : Instruction} {cause : Failure}

/-! ## What steps leave alone -/

@[simp]
theorem apply_sink (m : Machine) (e : Effect) : (m.apply e).sink = m.sink := by
  rw [apply_eq]

theorem step_keeps (m : Machine) :
    m.step.1.code = m.code ∧ m.step.1.sink = m.sink := by
  rcases stepped : m.step with ⟨n, outcome⟩
  cases step_case stepped with
  | closed | finished | spent | unfetched =>
      exact ⟨rfl, rfl⟩
  | faulted | broke =>
      simp
  | went | ended =>
      simp

theorem afterSteps_keeps (m : Machine) (count : Nat) :
    (m.afterSteps count).code = m.code ∧
      (m.afterSteps count).sink = m.sink := by
  induction count with
  | zero =>
      exact ⟨rfl, rfl⟩
  | succ count inductionHypothesis =>
      obtain ⟨code, sink⟩ := step_keeps (m.afterSteps count)
      rw [afterSteps_succ, code, sink]
      exact inductionHypothesis

theorem RunsOn.open_running (runs : m.RunsOn count)
    (opened : m.closed = false) (running : m.halted = false) :
    (m.afterSteps count).closed = false ∧
      (m.afterSteps count).halted = false := by
  induction count with
  | zero =>
      exact ⟨opened, running⟩
  | succ count inductionHypothesis =>
      obtain ⟨earlier, -⟩ := inductionHypothesis (runs.le (by omega))
      obtain ⟨-, closed, halted, -⟩ := step_running (runs count (by omega))
      rw [afterSteps_succ]
      exact ⟨closed.trans earlier, halted⟩

/-! ## Instructions that are fetched -/

/-- How many of the first steps of a machine fetch an instruction. -/
def fetchCount (m : Machine) (count : Nat) : Nat :=
  (List.range count).countP fun k => (m.afterSteps k).next?.isSome

theorem next?_eq_some_iff (opened : m.closed = false)
    (running : m.halted = false) :
    m.next? = some i ↔
      m.spent = false ∧
        ∃ w, m.wordAt? m.frame.pc = some w ∧ Instruction.decode w = i := by
  by_cases spent : m.spent = true
  · simp [next?, spent]
  · simp [next?, opened, running, spent]

theorem isSome_next?_of_running (goes : m.step.2 = .running) :
    m.next?.isSome = true := by
  rcases stepped : m.step with ⟨n, outcome⟩
  rw [stepped] at goes
  cases step_case stepped with
  | went fetches =>
      rw [fetches]
      rfl
  | closed | finished | spent | unfetched | faulted | broke | ended =>
      cases goes

theorem RunsOn.fetchCount (runs : m.RunsOn count) :
    m.fetchCount count = count := by
  have all : ∀ k ∈ List.range count,
      (m.afterSteps k).next?.isSome = true := by
    intro k member
    exact isSome_next?_of_running (runs k (List.mem_range.mp member))
  rw [Machine.fetchCount, List.countP_eq_length.mpr all, List.length_range]

theorem RunsOn.fetchCount_succ (runs : m.RunsOn count) :
    m.fetchCount (count + 1) =
      count + if (m.afterSteps count).next?.isSome then 1 else 0 := by
  have earlier := runs.fetchCount
  simp only [Machine.fetchCount, List.range_succ, List.countP_append]
    at earlier ⊢
  rw [earlier, List.countP_singleton]

/-! ## The opcode at an address -/

/-- Whether an opcode is the one at the address of a machine: the low byte of
the word there, or the byte for none. -/
structure FoundThere (m : Machine) (opcode : UInt8) : Prop where
  inside (place : Nat) (w : Word) :
    m.frame.pc.toInt = (place : Int) → m.code[place]? = some w →
      opcode = w.toUInt8
  outside :
    m.frame.pc.toInt < 0 ∨ (m.code.size : Int) ≤ m.frame.pc.toInt →
      opcode = noOpcode

theorem wordAt?_eq_some_iff {pc : Int64} {w : Word} :
    m.wordAt? pc = some w ↔
      ∃ place : Nat, pc.toInt = (place : Int) ∧ m.code[place]? = some w := by
  simp only [wordAt?, Option.bind_eq_bind, Option.bind_eq_some_iff]
  constructor
  · rintro ⟨place, held, found⟩
    exact ⟨place, (position?_eq_some_iff.mp held).1, found⟩
  · rintro ⟨place, index, found⟩
    have inside := (Array.getElem?_eq_some_iff.mp found).1
    exact ⟨place, position?_eq_some_iff.mpr ⟨index, inside⟩, found⟩

theorem opcodeAt_foundThere (m : Machine) :
    m.FoundThere (m.opcodeAt m.frame.pc) where
  inside place w index found := by
    have word : m.wordAt? m.frame.pc = some w :=
      wordAt?_eq_some_iff.mpr ⟨place, index, found⟩
    simp [opcodeAt, word, Instruction.decode_opcode]
  outside beyond := by
    cases word : m.wordAt? m.frame.pc with
    | none =>
        simp [opcodeAt, word]
    | some w =>
        obtain ⟨place, index, found⟩ := wordAt?_eq_some_iff.mp word
        have inside := (Array.getElem?_eq_some_iff.mp found).1
        omega

theorem opcodeAt_of_next? (opened : m.closed = false)
    (running : m.halted = false) (fetches : m.next? = some i) :
    m.opcodeAt m.frame.pc = i.opcode := by
  obtain ⟨-, w, word, rfl⟩ := (next?_eq_some_iff opened running).mp fetches
  simp [opcodeAt, word]

/-! ## The last step -/

/-- What a failure says of the machine whose step has failed. -/
structure Diagnosed (m : Machine) (why : Failure) : Prop where
  fault : ∃ opcode cause,
    why = .fault m.frame.pc opcode cause ∧ m.FoundThere opcode
  /-- Behind the failure is one condition with a status code from 3 to 9, or a
  line that the machine could not print. -/
  condition :
    (∃ c ∈ Condition.ofFaults,
        why.condition? = some c ∧ 3 ≤ why.code ∧ why.code ≤ 9) ∨
      ∃ opcode reason,
        why = .fault m.frame.pc opcode (.output reason) ∧
          m.sink = .refuse reason ∧
            why.condition? = none ∧ why.code = 99
  unknownOpcode_iff :
    why.condition? = some .unknownOpcode ↔
      ∃ i, m.next? = some i ∧ Operation.ofByte? i.opcode = none
  /-- Nothing was fetched if the budget was used up or the address lay outside
  of the program, and in no other case. -/
  unfetched_iff : m.next? = none ↔ why.beforeFetch = true

theorem diagnosed_of_spent (spent : m.spent = true) :
    m.Diagnosed (.fault m.frame.pc (m.opcodeAt m.frame.pc)
      (.budget m.steps)) where
  fault := ⟨_, _, rfl, m.opcodeAt_foundThere⟩
  condition := .inl ⟨.budgetExhausted, by decide, rfl,
    Failure.code_of_condition? rfl (by decide)⟩
  unknownOpcode_iff := by
    simp [Failure.condition?, next?, spent]
  unfetched_iff := by
    simp [Failure.beforeFetch, next?, spent]

theorem diagnosed_of_unfetched (word : m.wordAt? m.frame.pc = none) :
    m.Diagnosed (.fault m.frame.pc noOpcode
      (.fetch m.frame.pc m.code.size)) := by
  have nothing : m.next? = none := by
    simp [next?, word]
  have opcode : m.opcodeAt m.frame.pc = noOpcode := by
    simp [opcodeAt, word]
  refine ⟨⟨_, _, rfl, ?_⟩, .inl ⟨.outOfRange, by decide, rfl,
    Failure.code_of_condition? rfl (by decide)⟩, ?_, ?_⟩
  · rw [← opcode]
    exact m.opcodeAt_foundThere
  · simp [Failure.condition?, nothing]
  · simp [Failure.beforeFetch, nothing]

theorem diagnosed_of_faulted (opened : m.closed = false)
    (running : m.halted = false) (fetches : m.next? = some i)
    (failed : (m.fetched i).effect i = .error cause) :
    m.Diagnosed (.fault m.frame.pc i.opcode cause) := by
  have found : m.FoundThere i.opcode := by
    rw [← opcodeAt_of_next? opened running fetches]
    exact m.opcodeAt_foundThere
  have fetched : m.next? = none ↔
      (Failure.fault m.frame.pc i.opcode cause).beforeFetch = true := by
    have during :
        (Failure.fault m.frame.pc i.opcode cause).beforeFetch = false :=
      Failure.beforeFetch_of_ofInstruction (effect_checks _ _ _ failed)
    simp [fetches, during]
  rcases effect_error_cases failed with
    ⟨unknown, rfl⟩ | ⟨op, known, possible⟩
  · refine ⟨⟨_, _, rfl, found⟩, .inl ⟨.unknownOpcode, by decide, rfl,
      Failure.code_of_condition? rfl (by decide)⟩, ?_, fetched⟩
    simp [Failure.condition?, fetches, unknown]
  · rw [fetched_sink] at possible
    have notUnknown :
        ¬ ∃ j, m.next? = some j ∧ Operation.ofByte? j.opcode = none := by
      rintro ⟨j, same, unknown⟩
      obtain rfl := Option.some.inj (fetches.symm.trans same)
      rw [known] at unknown
      cases unknown
    rcases Failure.condition?_of_ofOperation possible with
      ⟨c, member, stands, other⟩ | ⟨reason, rfl, refuses⟩
    · refine ⟨⟨_, _, rfl, found⟩, .inl ⟨c, member, stands,
        Failure.code_of_condition? stands member⟩, ?_, fetched⟩
      simp [Failure.condition?, stands, other, notUnknown]
    · refine ⟨⟨_, _, rfl, found⟩,
        .inr ⟨_, reason, rfl, refuses, rfl, rfl⟩, ?_, fetched⟩
      simp [Failure.condition?, notUnknown]

/-- Only a halt instruction halts a machine. -/
theorem halt_of_ended (fetches : m.next? = some i) {e : Effect}
    (worked : (m.fetched i).effect i = .ok e)
    (halts : ((m.fetched i).apply e).halted = true) :
    Operation.ofByte? i.opcode = some .halt := by
  have running := halted_of_next? fetches
  obtain ⟨op, known, admits⟩ := effect_admits worked
  cases admits with
  | halt =>
      exact known
  | print =>
      rw [apply_print] at halts
      simp [running] at halts
  | idle | store | push | pop | setGlobal | skip | jump | jumpIf | enter
  | leave =>
      simp [apply, running] at halts

/-! ## The whole run -/

/-- How a run has come back, by the step that stopped it after a number of
others. -/
structure BroughtBack (start : Machine) (r : Run) (count : Nat) : Prop where
  stops : start.StopsAfter count
  fetched : r.count = start.fetchCount (count + 1)
  code : (start.afterSteps count).code = start.code
  sink : (start.afterSteps count).sink = start.sink
  /-- There is no failure if and only if the machine is halted. -/
  halted_iff : r.ending.failure? = none ↔ r.machine.halted = true
  done : r.ending = .done → ∃ place : Nat, ∃ w : Word,
    (start.afterSteps count).frame.pc.toInt = (place : Int) ∧
      start.code[place]? = some w ∧ w.toUInt8 = Operation.halt.byte
  failed (why : Failure) : r.ending = .failed why →
    (start.afterSteps count).Diagnosed why

theorem loop_one_failed {why : Failure} (stepped : m.step = (n, .failed why)) :
    loop 1 m = ⟨n.note (.aborted why), n.steps, .failed why⟩ := by
  rw [loop, stepped]

theorem loop_one_ended (stepped : m.step = (n, .ended)) :
    loop 1 m = ⟨n, n.steps, .done⟩ := by
  rw [loop, stepped]

theorem loop_one_broke {b : Breakdown} (stepped : m.step = (n, .broke b)) :
    loop 1 m = ⟨n, n.steps, .broken b⟩ := by
  rw [loop, stepped]

theorem note_halted (m : Machine) (line : TraceLine) :
    (m.note line).halted = m.halted := by
  unfold note
  split <;> rfl

/-- The last step of a machine decides its run. -/
theorem loop_one_cases (opened : m.closed = false)
    (running : m.halted = false) (stops : m.step.2 ≠ .running)
    (returned : (loop 1 m).Returned) :
    ((loop 1 m).ending = .done ∧ (loop 1 m).machine.halted = true ∧
        (loop 1 m).count = m.steps + 1 ∧
          ∃ i, m.next? = some i ∧ Operation.ofByte? i.opcode = some .halt) ∨
      ∃ why, (loop 1 m).ending = .failed why ∧
        (loop 1 m).machine.halted = false ∧
          (loop 1 m).count =
            m.steps + (if m.next?.isSome then 1 else 0) ∧
            m.Diagnosed why := by
  rcases stepped : m.step with ⟨n, outcome⟩
  rw [stepped] at stops
  cases step_case stepped with
  | closed shut =>
      rw [opened] at shut
      cases shut
  | finished _ halted =>
      rw [running] at halted
      cases halted
  | went =>
      exact absurd rfl stops
  | broke =>
      rw [loop_one_broke stepped] at returned
      rcases returned with done | ⟨why, failed⟩
      · cases done
      · cases failed
  | spent _ _ spent =>
      have nothing : m.next? = none := by
        simp [next?, spent]
      rw [loop_one_failed stepped]
      exact .inr ⟨_, rfl, (note_halted _ _).trans running, by simp [nothing],
        diagnosed_of_spent spent⟩
  | unfetched _ _ _ word =>
      have nothing : m.next? = none := by
        simp [next?, word]
      rw [loop_one_failed stepped]
      exact .inr ⟨_, rfl, (note_halted _ _).trans running, by simp [nothing],
        diagnosed_of_unfetched word⟩
  | @faulted i cause fetches failed =>
      rw [loop_one_failed stepped]
      refine .inr ⟨_, rfl, ?_, by simp [fetches],
        diagnosed_of_faulted opened running fetches failed⟩
      rw [note_halted, fetched_halted, running]
  | ended fetches worked _ halts =>
      rw [loop_one_ended stepped]
      exact .inl ⟨rfl, halts, by simp, _, fetches,
        halt_of_ended fetches worked halts⟩

theorem StopsAfter.broughtBack (stops : m.StopsAfter count)
    (opened : m.closed = false) (running : m.halted = false)
    (fresh : m.steps = 0)
    (returned : (Machine.loop 1 (m.afterSteps count)).Returned) :
    m.BroughtBack (Machine.loop 1 (m.afterSteps count)) count := by
  obtain ⟨code, sink⟩ := afterSteps_keeps m count
  obtain ⟨stillOpen, stillRunning⟩ :=
    stops.runs.open_running opened running
  have steps := stops.runs.steps
  have fetches := stops.runs.fetchCount_succ
  rw [fresh, Nat.zero_add] at steps
  rcases loop_one_cases stillOpen stillRunning stops.stops returned with
    ⟨ending, halted, counted, i, fetched, halts⟩ |
      ⟨why, ending, notHalted, counted, diagnosed⟩
  · obtain ⟨-, w, word, rfl⟩ :=
      (next?_eq_some_iff stillOpen stillRunning).mp fetched
    obtain ⟨place, index, found⟩ := wordAt?_eq_some_iff.mp word
    rw [code] at found
    rw [Instruction.decode_opcode] at halts
    exact {
      stops := stops
      fetched := by
        rw [counted, fetches, steps, fetched]
        rfl
      code := code
      sink := sink
      halted_iff := by
        simp [ending, halted, Ending.failure?]
      done := fun _ =>
        ⟨place, w, index, found, (Operation.byte_of_ofByte? halts).symm⟩
      failed := by
        intro why failed
        rw [ending] at failed
        cases failed }
  · exact {
      stops := stops
      fetched := by rw [counted, fetches, steps]
      code := code
      sink := sink
      halted_iff := by
        simp [ending, notHalted, Ending.failure?]
      done := by
        intro done
        rw [ending] at done
        cases done
      failed := by
        intro other failed
        rw [ending] at failed
        cases failed
        exact diagnosed }

/-- A run is a loop of steps with some patience.  With whatever patience it
comes back, the step that stopped it was a halt instruction, and the machine
is halted, or a fault that is diagnosed, and the run reports as many
instructions as were fetched. -/
theorem returned_run_diagnosed (opened : m.closed = false)
    (nonempty : code ≠ #[]) :
    m.run code entry = loop m.patience (m.load code entry) ∧
      ∀ patience, (loop patience (m.load code entry)).Returned →
        ∃ count, (m.load code entry).BroughtBack
          (loop patience (m.load code entry)) count := by
  refine ⟨by simp [run, opened, nonempty], ?_⟩
  intro patience returned
  rcases stopsAfter_or_runsOn (m.load code entry) patience with
    ⟨count, below, stops⟩ | runs
  · rw [stops.loop below] at returned ⊢
    exact ⟨count, stops.broughtBack opened rfl rfl returned⟩
  · -- The patience is used up, so the run has not come back.
    have left := runs.loop 0
    rw [Nat.add_zero] at left
    rw [left] at returned
    rcases returned with done | ⟨why, failed⟩
    · cases done
    · cases failed

/-- A machine that refuses to print, with a budget of three instructions. -/
def refuser : Machine :=
  { blank
      { stack := 4, depth := 1, methods := 1, globals := 1, budget := 3 }
    with
    sink := .refuse "disk full" }

/-- One run is over with the halt instruction, one with a line that is not
printed, one with the budget and one behind the end of the program. -/
theorem refuser_diagnosed :
    (refuser.run #[0x24] 0 = loop 4 (refuser.load #[0x24] 0) ∧
        ∃ count, (refuser.load #[0x24] 0).BroughtBack
          (loop 4 (refuser.load #[0x24] 0)) count) ∧
      (∃ count, (refuser.load #[0x23] 0).BroughtBack
          (loop 4 (refuser.load #[0x23] 0)) count) ∧
        (∃ count, (refuser.load #[0x7FFFFF1F] 0).BroughtBack
            (loop 4 (refuser.load #[0x7FFFFF1F] 0)) count) ∧
          ∃ count, (refuser.load #[0x2011A] 0).BroughtBack
            (loop 4 (refuser.load #[0x2011A] 0)) count := by
  refine ⟨⟨?_, ?_⟩, ?_, ?_, ?_⟩
  · exact (returned_run_diagnosed rfl (by decide)).1
  · exact (returned_run_diagnosed rfl (by decide)).2 4 (.inl (by decide))
  · exact (returned_run_diagnosed rfl (by decide)).2 4
      (.inr ⟨.fault 0 0x23 (.output "disk full"), by decide⟩)
  · exact (returned_run_diagnosed rfl (by decide)).2 4
      (.inr ⟨.fault 0 0x1F (.budget 3), by decide⟩)
  · exact (returned_run_diagnosed rfl (by decide)).2 4
      (.inr ⟨.fault 1 noOpcode (.fetch 1 1), by decide⟩)

end Machine

end WindowMachine
