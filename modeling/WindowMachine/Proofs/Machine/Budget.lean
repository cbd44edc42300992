import WindowMachine.Proofs.Machine.Stops
import WindowMachine.Proofs.Machine.Views

/-!
# Runs with a budget

A budget does not change what a step does, only whether it is taken.  So a run
with a budget goes along with the run without one for as many steps as it has,
and either both stop or the budget stops it there.

A machine that breaks down returns from no run, whatever its budget.  The main
result says that this is the only exception.
-/

namespace WindowMachine

/-- A machine with another budget. -/
def Machine.withBudget (m : Machine) (budget : Int64) : Machine :=
  { m with budget := budget }

/-- A run that leaves its machine with another budget. -/
def Run.withBudget (r : Run) (budget : Int64) : Run :=
  { r with machine := r.machine.withBudget budget }

/-- Whether a run without a budget returns within a number of instructions.
In front of an address outside of the program it stops only if one more could
be executed. -/
def Run.Within (r : Run) (limit : Nat) : Prop :=
  match r.ending with
  | .done => r.count ≤ limit
  | .failed why =>
    if why.beforeFetch then r.count < limit else r.count ≤ limit
  | .broken _ | .unsettled => False

/-- Whether a run was stopped by its budget. -/
def Run.Exhausted (r : Run) : Prop :=
  ∃ why, r.ending = .failed why ∧
    why.condition? = some .budgetExhausted

namespace Machine

variable {m u : Machine} {r s : Run} {k : Int64} {count : Nat}

/-! ## Steps with a budget -/

/-- A machine on which nothing but its program ends a run. -/
structure Unlimited (m : Machine) : Prop where
  opened : m.closed = false
  running : m.halted = false
  budget : m.budget = 0

theorem Unlimited.unspent (free : m.Unlimited) : m.spent = false := by
  simp [spent, free.budget]

theorem Unlimited.afterSteps (free : m.Unlimited)
    (runs : m.RunsOn count) : (m.afterSteps count).Unlimited := by
  induction count with
  | zero =>
      exact free
  | succ count inductionHypothesis =>
      have before := inductionHypothesis (runs.le (by omega))
      obtain ⟨-, closed, halted, budget⟩ :=
        step_running (runs count (by omega))
      rw [afterSteps_succ]
      exact ⟨closed.trans before.opened, halted,
        budget.trans before.budget⟩

theorem spent_withBudget_iff (positive : 0 < k.toInt) :
    (m.withBudget k).spent = true ↔ k.toInt ≤ m.steps := by
  have given : (0 : Int64) < k := Int64.lt_iff_toInt_lt.mpr positive
  change (decide (0 < k) && decide (k.toInt ≤ m.steps)) = true ↔ _
  rw [decide_eq_true given, Bool.true_and, decide_eq_true_iff]

theorem resembles_withBudget (m : Machine) (k : Int64) :
    m.Resembles (m.withBudget k) :=
  ⟨rfl, rfl, rfl, rfl, rfl, rfl, rfl, rfl, fun _ _ => rfl⟩

theorem note_withBudget (m : Machine) (k : Int64) (line : TraceLine) :
    (m.withBudget k).note line = (m.note line).withBudget k := by
  by_cases tracing : m.tracing = true
  · simp [note, withBudget, tracing]
  · simp [note, withBudget, tracing]

theorem fetched_withBudget (m : Machine) (k : Int64) (i : Instruction) :
    (m.withBudget k).fetched i = (m.fetched i).withBudget k :=
  note_withBudget m.advance k _

theorem apply_withBudget (m : Machine) (k : Int64) (e : Effect) :
    (m.withBudget k).apply e = (m.apply e).withBudget k := by
  cases e with
  | print value =>
      simp only [apply, withBudget]
      split <;> rfl
  | _ =>
      rfl

/-- As long as neither budget is used up, a step is the same under both. -/
theorem step_withBudget (unspent : m.spent = false)
    (alsoUnspent : (m.withBudget k).spent = false) :
    (m.withBudget k).step = (m.step.1.withBudget k, m.step.2) := by
  have fetching : (m.withBudget k).next? = m.next? := by
    simp only [next?, unspent, alsoUnspent]
    rfl
  cases fetches : m.next? with
  | none =>
      rw [fetches] at fetching
      rw [step_of_next?_none fetches, step_of_next?_none fetching]
      simp only [unexecuted, unspent, alsoUnspent]
      rfl
  | some i =>
      rw [fetches] at fetching
      have alike : (m.fetched i).Resembles ((m.withBudget k).fetched i) := by
        rw [fetched_withBudget]
        exact resembles_withBudget _ k
      obtain ⟨outcome, ⟨stops, alsoStops⟩ | ⟨e, -, goes, alsoGoes⟩⟩ :=
        step_alongside fetches fetching alike rfl fun op _ => .refl op i
      · rw [stops, ← fetched_withBudget]
        exact Prod.ext alsoStops outcome
      · rw [goes, ← apply_withBudget, ← fetched_withBudget]
        exact Prod.ext alsoGoes outcome

/-! ## Runs with a budget -/

theorem Unlimited.step_withBudget (free : m.Unlimited)
    (left : (m.steps : Int) < k.toInt) :
    (m.withBudget k).step = (m.step.1.withBudget k, m.step.2) := by
  have unspent : ¬ (m.withBudget k).spent = true := by
    rw [spent_withBudget_iff (by omega)]
    omega
  exact Machine.step_withBudget free.unspent (by simpa using unspent)

theorem Unlimited.afterSteps_withBudget (free : m.Unlimited)
    (runs : m.RunsOn count) (left : (m.steps + count : Int) ≤ k.toInt) :
    (m.withBudget k).RunsOn count ∧
      (m.withBudget k).afterSteps count =
        (m.afterSteps count).withBudget k := by
  induction count with
  | zero =>
      exact ⟨fun k below => absurd below (by omega), rfl⟩
  | succ count inductionHypothesis =>
      have earlier := runs.le (show count ≤ count + 1 by omega)
      obtain ⟨goesOn, same⟩ := inductionHypothesis earlier (by omega)
      have steps := earlier.steps
      have stepped := (free.afterSteps earlier).step_withBudget (k := k)
        (by omega)
      rw [← same] at stepped
      refine ⟨?_, ?_⟩
      · intro place below
        rcases Nat.lt_succ_iff_lt_or_eq.mp below with before | rfl
        · exact goesOn place before
        · rw [stepped]
          exact runs place (by omega)
      · rw [afterSteps_succ, afterSteps_succ, stepped]

theorem Unlimited.loop_one_withBudget (free : m.Unlimited)
    (left : (m.steps : Int) < k.toInt) :
    loop 1 (m.withBudget k) = (loop 1 m).withBudget k := by
  simp only [loop, free.step_withBudget left]
  rcases m.step with ⟨n, outcome⟩
  cases outcome with
  | failed why =>
      simp only [note_withBudget]
      rfl
  | running | ended | broke =>
      rfl

/-- A run that stops while its budget lasts is the run without the budget. -/
theorem Unlimited.loop_inTime (free : m.Unlimited)
    (stops : m.StopsAfter count) (left : (m.steps + count : Int) < k.toInt)
    {fuel : Nat} (enough : count < fuel) :
    loop fuel (m.withBudget k) =
      (loop 1 (m.afterSteps count)).withBudget k := by
  obtain ⟨runs, same⟩ :=
    free.afterSteps_withBudget stops.runs (k := k) (by omega)
  have last := free.afterSteps stops.runs
  have lastLeft : ((m.afterSteps count).steps : Int) < k.toInt := by
    rw [stops.runs.steps]
    omega
  have stopped : (m.withBudget k).StopsAfter count := by
    refine ⟨runs, ?_⟩
    rw [same, last.step_withBudget lastLeft]
    exact stops.stops
  rw [stopped.loop enough, same, last.loop_one_withBudget lastLeft]

/-- The failure of a machine whose budget is used up. -/
def exhaustion (m : Machine) : Failure :=
  .fault m.frame.pc (m.opcodeAt m.frame.pc) (.budget m.steps)

/-- The run that a budget cuts off at a machine. -/
def cutOff (m : Machine) (k : Int64) : Run :=
  ⟨(m.withBudget k).note (.aborted m.exhaustion), m.steps,
    .failed m.exhaustion⟩

/-- A run that goes on for as long as its budget lasts is cut off there. -/
theorem Unlimited.loop_late (free : m.Unlimited)
    (runs : m.RunsOn count) (spends : (m.steps + count : Int) = k.toInt)
    (positive : 0 < k.toInt) {fuel : Nat} (enough : count < fuel) :
    loop fuel (m.withBudget k) = (m.afterSteps count).cutOff k := by
  obtain ⟨goesOn, same⟩ := free.afterSteps_withBudget runs (k := k) (by omega)
  have last := free.afterSteps runs
  have spent : ((m.afterSteps count).withBudget k).spent = true := by
    rw [spent_withBudget_iff positive, runs.steps]
    omega
  have stepped : ((m.afterSteps count).withBudget k).step =
      ((m.afterSteps count).withBudget k,
        .failed (m.afterSteps count).exhaustion) := by
    have opened : ((m.afterSteps count).withBudget k).closed = false :=
      last.opened
    have running : ((m.afterSteps count).withBudget k).halted = false :=
      last.running
    simp only [step, opened, running, spent]
    rfl
  have stopped : (m.withBudget k).StopsAfter count := by
    refine ⟨goesOn, ?_⟩
    rw [same, stepped]
    simp
  rw [stopped.loop enough, same, Machine.loop, stepped]
  rfl

/-! ## The last step -/

/-- The ways in which a machine without a budget stops: how many instructions
it has counted by then, and how its run comes out. -/
inductive LastStep (m : Machine) : Prop
  | done :
      (loop 1 m).ending = .done →
      (loop 1 m).count = m.steps + 1 →
      LastStep m
  | faulted {why : Failure} :
      (loop 1 m).ending = .failed why →
      why.beforeFetch = false →
      why.condition? ≠ some .budgetExhausted →
      (loop 1 m).count = m.steps + 1 →
      LastStep m
  | unfetched {why : Failure} :
      (loop 1 m).ending = .failed why →
      why.beforeFetch = true →
      why.condition? ≠ some .budgetExhausted →
      (loop 1 m).count = m.steps →
      LastStep m
  | broke {b : Breakdown} :
      (loop 1 m).ending = .broken b →
      (loop 1 m).count = m.steps + 1 →
      LastStep m

theorem condition?_of_ofInstruction {cause : Failure}
    (possible : cause.ofInstruction = true) :
    cause.condition? ≠ some .budgetExhausted := by
  cases cause with
  | plain condition =>
      cases condition with
      | budgetExhausted =>
          cases possible
      | _ =>
          simp [Failure.condition?]
  | inMethod | fault | inFile =>
      cases possible
  | _ =>
      simp_all [Failure.condition?, Failure.ofInstruction]

theorem Unlimited.lastStep (free : m.Unlimited)
    (stops : m.step.2 ≠ .running) : m.LastStep := by
  rcases stepped : m.step with ⟨n, outcome⟩
  rw [stepped] at stops
  cases step_case stepped with
  | closed shut =>
      rw [free.opened] at shut
      cases shut
  | finished _ halted =>
      rw [free.running] at halted
      cases halted
  | spent _ _ spent =>
      rw [free.unspent] at spent
      cases spent
  | went =>
      exact absurd rfl stops
  | unfetched =>
      exact .unfetched (by rw [loop, stepped]) rfl
        (by simp [Failure.condition?]) (by rw [loop, stepped])
  | @faulted i cause fetches failed =>
      have possible := effect_checks (m.fetched i) i cause failed
      have other := condition?_of_ofInstruction possible
      exact .faulted (by rw [loop, stepped])
        (Failure.beforeFetch_of_ofInstruction possible) other
        (by rw [loop, stepped]; simp)
  | broke =>
      exact .broke (by rw [loop, stepped]) (by rw [loop, stepped]; simp)
  | ended =>
      exact .done (by rw [loop, stepped]) (by rw [loop, stepped]; simp)

/-- A run returns in time if it stops in time and does not break down. -/
theorem LastStep.within_iff (last : m.LastStep) (limit : Nat) :
    (loop 1 m).Within limit ↔
      m.steps < limit ∧ ∀ b, (loop 1 m).ending ≠ .broken b := by
  cases last with
  | done ending counted =>
      simp only [Run.Within, ending, counted, Nat.add_one_le_iff]
      simp
  | faulted ending before _ counted =>
      simp only [Run.Within, ending, before, counted, Nat.add_one_le_iff]
      simp
  | unfetched ending before _ counted =>
      simp only [Run.Within, ending, before, counted]
      simp
  | broke ending =>
      simp [Run.Within, ending]

/-! ## Runs of programs -/

section Programs

variable {code : Array Word} {entry : Int64}

/-- A machine without a budget at the start of a program. -/
def start (m : Machine) (code : Array Word) (entry : Int64) : Machine :=
  (m.withBudget 0).load code entry

/-- A run of a program with a budget. -/
def runWithin (m : Machine) (code : Array Word) (entry k : Int64) : Run :=
  (m.withBudget k).run code entry

/-- What a budget makes of the run of a program: a prefix of the run without
a budget. -/
structure CutsOff (m : Machine) (code : Array Word) (entry k : Int64) :
    Prop where
  returns : (m.runWithin code entry k).ending = .done ∨
    ∃ why, (m.runWithin code entry k).ending = .failed why
  count_le : ((m.runWithin code entry k).count : Int) ≤ k.toInt
  /-- A run that returns in time is not changed. -/
  inTime (s : Run) :
    (m.start code entry).ComesTo s →
    s.Within k.toInt.toNat →
    m.runWithin code entry k = s.withBudget k
  /-- Every other run is cut off after as many instructions as there are in
  the budget. -/
  late :
    (∀ s, (m.start code entry).ComesTo s → ¬ s.Within k.toInt.toNat) →
    (m.start code entry).RunsOn k.toInt.toNat ∧
      m.runWithin code entry k =
        ((m.start code entry).afterSteps k.toInt.toNat).cutOff k ∧
      (m.runWithin code entry k).Exhausted ∧
      (m.runWithin code entry k).count = k.toInt
  /-- A run that is not cut off is the same with every larger budget and
  without one. -/
  larger :
    ¬ (m.runWithin code entry k).Exhausted →
    ∃ s, (m.start code entry).ComesTo s ∧
      (∀ more : Int64, k.toInt ≤ more.toInt →
        m.runWithin code entry more = s.withBudget more) ∧
      (s.count < 2 ^ 62 → m.runWithin code entry 0 = s)

theorem start_unlimited (opened : m.closed = false) :
    (m.start code entry).Unlimited :=
  ⟨opened, rfl, rfl⟩

theorem runWithin_eq (opened : m.closed = false) (nonempty : code ≠ #[])
    (k : Int64) :
    m.runWithin code entry k =
      loop (m.withBudget k).patience
        ((m.start code entry).withBudget k) := by
  have closed : (m.withBudget k).closed = false := opened
  simp only [runWithin, run, closed, Array.isEmpty_iff, nonempty]
  rfl

theorem patience_withBudget (positive : 0 < k.toInt) :
    (m.withBudget k).patience = k.toInt.toNat + 1 := by
  have given : (0 : Int64) < k := Int64.lt_iff_toInt_lt.mpr positive
  exact if_pos given

section Started

variable (opened : m.closed = false) (nonempty : code ≠ #[])

include opened nonempty

theorem runWithin_inTime (stops : (m.start code entry).StopsAfter count)
    (left : count < k.toInt) :
    m.runWithin code entry k =
      (loop 1 ((m.start code entry).afterSteps count)).withBudget k := by
  rw [runWithin_eq opened nonempty, patience_withBudget (by omega)]
  have zero : (m.start code entry).steps = 0 := rfl
  exact (start_unlimited opened).loop_inTime stops (by omega) (by omega)

theorem runWithin_late (positive : 0 < k.toInt)
    (runs : (m.start code entry).RunsOn k.toInt.toNat) :
    m.runWithin code entry k =
      ((m.start code entry).afterSteps k.toInt.toNat).cutOff k := by
  rw [runWithin_eq opened nonempty, patience_withBudget positive]
  have zero : (m.start code entry).steps = 0 := rfl
  exact (start_unlimited opened).loop_late runs (by omega) positive
    (by omega)

theorem runWithin_zero (stops : (m.start code entry).StopsAfter count)
    (settles : count < 2 ^ 62) :
    m.runWithin code entry 0 =
      loop 1 ((m.start code entry).afterSteps count) := by
  rw [runWithin_eq opened nonempty]
  exact stops.loop settles

end Started

theorem StopsAfter.lastStep (opened : m.closed = false)
    (stops : (m.start code entry).StopsAfter count) :
    ((m.start code entry).afterSteps count).LastStep ∧
      ((m.start code entry).afterSteps count).steps = count := by
  refine ⟨?_, ?_⟩
  · exact ((start_unlimited opened).afterSteps stops.runs).lastStep
      stops.stops
  · rw [stops.runs.steps]
    exact Nat.zero_add count

/-- A run that stops in time and does not break down is not changed by its
budget. -/
theorem cutsOff_of_stops (opened : m.closed = false)
    (nonempty : code ≠ #[]) (left : (count : Int) < k.toInt)
    (stops : (m.start code entry).StopsAfter count)
    (stands : ∀ b, (loop 1 ((m.start code entry).afterSteps count)).ending ≠
      .broken b) :
    m.CutsOff code entry k := by
  obtain ⟨last, steps⟩ := stops.lastStep opened
  have same := runWithin_inTime opened nonempty stops left
  have returned :
      (loop 1 ((m.start code entry).afterSteps count)).Within
        k.toInt.toNat :=
    (last.within_iff _).mpr ⟨by omega, stands⟩
  exact {
    returns := by
      rw [same]
      cases last with
      | done ending =>
          exact .inl ending
      | faulted ending | unfetched ending =>
          exact .inr ⟨_, ending⟩
      | broke ending =>
          exact absurd ending (stands _)
    count_le := by
      rw [same]
      change ((loop 1 _).count : Int) ≤ _
      cases last with
      | done _ counted | faulted _ _ _ counted | unfetched _ _ _ counted
      | broke _ counted =>
          omega
    inTime := by
      intro s comes _
      rw [same, comes.unique stops.comesTo]
    late := fun never => absurd returned (never _ stops.comesTo)
    larger := by
      intro _
      refine ⟨_, stops.comesTo, ?_, ?_⟩
      · intro more above
        exact runWithin_inTime opened nonempty stops (by omega)
      · intro settles
        apply runWithin_zero opened nonempty stops
        cases last with
        | done _ counted | faulted _ _ _ counted | unfetched _ _ _ counted
        | broke _ counted =>
            omega }

/-- A run that goes on beyond its budget is cut off there. -/
theorem cutsOff_of_runsOn (opened : m.closed = false)
    (nonempty : code ≠ #[]) (positive : 0 < k.toInt)
    (runs : (m.start code entry).RunsOn k.toInt.toNat) :
    m.CutsOff code entry k := by
  have same := runWithin_late opened nonempty positive runs
  have counted :
      ((m.start code entry).afterSteps k.toInt.toNat).steps =
        k.toInt.toNat := by
    rw [runs.steps]
    exact Nat.zero_add _
  have count : ((m.runWithin code entry k).count : Int) = k.toInt := by
    rw [same]
    change (((m.start code entry).afterSteps _).steps : Int) = _
    omega
  have exhausted : (m.runWithin code entry k).Exhausted := by
    rw [same]
    exact ⟨_, rfl, rfl⟩
  exact {
    returns := by
      rw [same]
      exact .inr ⟨_, rfl⟩
    count_le := by omega
    inTime := by
      intro s comes returned
      obtain ⟨place, stops⟩ := comes.stopsAfter
      obtain ⟨last, steps⟩ := stops.lastStep opened
      rw [comes.unique stops.comesTo] at returned
      have early := ((last.within_iff _).mp returned).1
      exact absurd runs (stops.not_runsOn (by omega))
    late := fun _ => ⟨runs, same, exhausted, count⟩
    larger := fun unchanged => absurd exhausted unchanged }

/-- A budget cuts a run off and does nothing else to it, unless the machine
breaks down while the budget lasts. -/
theorem cutsOff_iff (opened : m.closed = false) (nonempty : code ≠ #[])
    (positive : 0 < k.toInt) :
    m.CutsOff code entry k ↔
      ∀ s b, (m.start code entry).ComesTo s → s.ending = .broken b →
        k.toInt < s.count := by
  constructor
  · intro exactly s b comes broken
    obtain ⟨count, stops⟩ := comes.stopsAfter
    obtain ⟨last, steps⟩ := stops.lastStep opened
    obtain rfl := comes.unique stops.comesTo
    cases last with
    | done ending | faulted ending | unfetched ending =>
        rw [ending] at broken
        cases broken
    | broke _ counted =>
        apply Int.not_le.mp
        intro early
        -- The budget lasts, so the run with it breaks down as well.
        have same := runWithin_inTime opened nonempty stops
          (show (count : Int) < k.toInt by omega)
        have returns := exactly.returns
        rw [same] at returns
        simp [Run.withBudget, broken] at returns
  · intro stands
    rcases stopsAfter_or_runsOn (m.start code entry) k.toInt.toNat with
      ⟨count, below, stops⟩ | runs
    · obtain ⟨last, steps⟩ := stops.lastStep opened
      apply cutsOff_of_stops opened nonempty (by omega) stops
      intro b broken
      have beyond := stands _ b stops.comesTo broken
      cases last with
      | done ending | faulted ending | unfetched ending =>
          rw [ending] at broken
          cases broken
      | broke _ counted =>
          omega
    · exact cutsOff_of_runsOn opened nonempty positive runs

/-- A machine with a method whose locals do not fit, though the check of their
sum lets it through, and with another one to be called from there. -/
def wrappingCaller : Machine :=
  { blank
      { stack := 16, depth := 2, methods := 2, globals := 1, entryTop := 3 }
    with
    methods := #[some ⟨1, 0, Int64.maxValue⟩, some ⟨2, 10, 1⟩] }

/-- With a budget of one the run is cut off in front of the second call.  With
one of two the machine breaks down on that call, and the run does not
return. -/
theorem wrappingCaller_cutsOff :
    wrappingCaller.CutsOff #[0x20, 0x10020, 0x24] 0 1 ∧
      ¬ wrappingCaller.CutsOff #[0x20, 0x10020, 0x24] 0 2 := by
  have settled :
      (loop 2 (wrappingCaller.start #[0x20, 0x10020, 0x24] 0)).ending =
          .broken (.slot (-9223372036854775805)) ∧
        (loop 2 (wrappingCaller.start #[0x20, 0x10020, 0x24] 0)).count =
          2 := by
    decide
  have comes :=
    comesTo_loop (show (loop 2 (wrappingCaller.start _ 0)).ending ≠ _ by
      rw [settled.1]
      simp)
  constructor
  · apply (cutsOff_iff (by decide) (by decide) (by decide)).mpr
    intro s b other broken
    rw [other.unique comes, settled.2]
    decide
  · intro exactly
    have beyond := (cutsOff_iff (by decide) (by decide) (by decide)).mp
      exactly _ _ comes settled.1
    rw [settled.2] at beyond
    exact absurd beyond (by decide)

end Programs

end Machine

end WindowMachine
