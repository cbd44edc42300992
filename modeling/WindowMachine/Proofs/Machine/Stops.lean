import WindowMachine.Proofs.Machine.Faults

/-!
# Where runs stop

A run goes on for a number of steps and then stops with one that no other step
follows, or it goes on for ever.  In the first case all fuel beyond that step
is left over, and so the run comes out the same however much there is of it.
-/

namespace WindowMachine

namespace Machine

variable {m n : Machine} {r s : Run} {count : Nat}

/-! ## What steps keep -/

section Applied

variable (m : Machine) (e : Effect)

/-- An effect changes the regions, the frames, the results and the output. -/
theorem apply_eq :
    m.apply e =
      { m with
        stack := (m.apply e).stack
        globals := (m.apply e).globals
        frame := (m.apply e).frame
        callers := (m.apply e).callers
        result := (m.apply e).result
        halted := (m.apply e).halted
        output := (m.apply e).output } := by
  cases e with
  | print value =>
      simp only [apply]
      split <;> rfl
  | _ =>
      rfl

@[simp]
theorem apply_steps : (m.apply e).steps = m.steps := by
  rw [apply_eq]

@[simp]
theorem apply_closed : (m.apply e).closed = m.closed := by
  rw [apply_eq]

@[simp]
theorem apply_budget : (m.apply e).budget = m.budget := by
  rw [apply_eq]

end Applied

/-- A step that is followed by another one has counted an instruction. -/
theorem step_running (goes : m.step.2 = .running) :
    m.step.1.steps = m.steps + 1 ∧ m.step.1.closed = m.closed ∧
      m.step.1.halted = false ∧ m.step.1.budget = m.budget := by
  rcases stepped : m.step with ⟨n, outcome⟩
  rw [stepped] at goes
  cases step_case stepped with
  | closed | finished | spent | unfetched | faulted | broke | ended =>
      cases goes
  | went fetches worked stands runs =>
      simp [runs]

theorem afterSteps_succ (m : Machine) (count : Nat) :
    m.afterSteps (count + 1) = (m.afterSteps count).step.1 := by
  induction count generalizing m with
  | zero =>
      rfl
  | succ count inductionHypothesis =>
      exact inductionHypothesis m.step.1

/-! ## Going on and stopping -/

/-- Whether a machine goes on for a number of steps. -/
def RunsOn (m : Machine) (count : Nat) : Prop :=
  ∀ k < count, (m.afterSteps k).step.2 = .running

/-- Whether a machine goes on for a number of steps and stops with the next
one. -/
structure StopsAfter (m : Machine) (count : Nat) : Prop where
  runs : m.RunsOn count
  stops : (m.afterSteps count).step.2 ≠ .running

theorem RunsOn.le {more : Nat} (runs : m.RunsOn more)
    (fewer : count ≤ more) : m.RunsOn count :=
  fun k below => runs k (by omega)

theorem RunsOn.snoc (runs : m.RunsOn count)
    (goes : (m.afterSteps count).step.2 = .running) :
    m.RunsOn (count + 1) := by
  intro k below
  rcases Nat.lt_succ_iff_lt_or_eq.mp below with earlier | rfl
  · exact runs k earlier
  · exact goes

theorem StopsAfter.not_runsOn {more : Nat} (stops : m.StopsAfter count)
    (beyond : count < more) : ¬ m.RunsOn more :=
  fun runs => stops.stops (runs count beyond)

theorem StopsAfter.runsOn_le {fewer : Nat} (stops : m.StopsAfter count)
    (runs : m.RunsOn fewer) : fewer ≤ count := by
  by_cases within : fewer ≤ count
  · exact within
  · exact absurd runs (stops.not_runsOn (by omega))

theorem StopsAfter.unique {other : Nat} (one : m.StopsAfter count)
    (alsoOther : m.StopsAfter other) : count = other :=
  Nat.le_antisymm (alsoOther.runsOn_le one.runs) (one.runsOn_le alsoOther.runs)

theorem stopsAfter_or_runsOn (m : Machine) (limit : Nat) :
    (∃ count < limit, m.StopsAfter count) ∨ m.RunsOn limit := by
  induction limit with
  | zero =>
      exact .inr fun k below => absurd below (by omega)
  | succ limit inductionHypothesis =>
      rcases inductionHypothesis with ⟨count, below, stops⟩ | runs
      · exact .inl ⟨count, by omega, stops⟩
      · by_cases goes : (m.afterSteps limit).step.2 = .running
        · exact .inr (runs.snoc goes)
        · exact .inl ⟨limit, by omega, runs, goes⟩

theorem RunsOn.steps (runs : m.RunsOn count) :
    (m.afterSteps count).steps = m.steps + count := by
  induction count with
  | zero =>
      rfl
  | succ count inductionHypothesis =>
      have earlier := inductionHypothesis (runs.le (by omega))
      obtain ⟨counted, -⟩ := step_running (runs count (by omega))
      rw [afterSteps_succ, counted, earlier]
      rfl

theorem RunsOn.budget (runs : m.RunsOn count) :
    (m.afterSteps count).budget = m.budget := by
  induction count with
  | zero =>
      rfl
  | succ count inductionHypothesis =>
      obtain ⟨-, -, -, same⟩ := step_running (runs count (by omega))
      rw [afterSteps_succ, same]
      exact inductionHypothesis (runs.le (by omega))

theorem not_spent_of_running (goes : m.step.2 = .running) :
    m.spent = false := by
  rcases stepped : m.step with ⟨n, outcome⟩
  rw [stepped] at goes
  cases step_case stepped with
  | closed | finished | spent | unfetched | faulted | broke | ended =>
      cases goes
  | went fetches =>
      cases used : m.spent with
      | false =>
          rfl
      | true =>
          simp [next?, used] at fetches

/-- A machine goes on for no more instructions than its budget has. -/
theorem RunsOn.le_budget (runs : m.RunsOn count) (limited : 0 < m.budget) :
    (count : Int) ≤ m.budget.toInt := by
  have positive := Int64.lt_iff_toInt_lt.mp limited
  cases count with
  | zero =>
      exact Int.le_of_lt positive
  | succ last =>
      have unspent := not_spent_of_running (runs last (by omega))
      have earlier : m.RunsOn last := runs.le (by omega)
      simp only [spent, earlier.budget, earlier.steps, limited, decide_true,
        Bool.true_and, decide_eq_false_iff_not] at unspent
      omega

/-! ## Fuel -/

/-- Fuel for the steps that go on, and fuel for the rest. -/
theorem RunsOn.loop (runs : m.RunsOn count) (fuel : Nat) :
    loop (count + fuel) m = loop fuel (m.afterSteps count) := by
  induction count generalizing m with
  | zero =>
      rw [Nat.zero_add]
      rfl
  | succ count inductionHypothesis =>
      have goes : m.step.2 = .running := runs 0 (by omega)
      have later : m.step.1.RunsOn count :=
        fun k below => runs (k + 1) (by omega)
      rw [afterSteps, ← inductionHypothesis later, Nat.succ_add,
        Machine.loop]
      rcases stepped : m.step with ⟨n, outcome⟩
      rw [stepped] at goes
      obtain rfl : outcome = .running := goes
      rfl

theorem loop_of_stops (stops : m.step.2 ≠ .running) (fuel : Nat) :
    loop (fuel + 1) m = loop 1 m := by
  simp only [loop]
  rcases stepped : m.step with ⟨n, outcome⟩
  rw [stepped] at stops
  cases outcome with
  | running =>
      exact absurd rfl stops
  | ended | failed | broke =>
      rfl

theorem steps_le_loop_one (m : Machine) : m.steps ≤ (loop 1 m).count := by
  have grows : m.steps ≤ m.step.1.steps := by
    rcases stepped : m.step with ⟨n, outcome⟩
    cases step_case stepped with
    | closed | finished | spent | unfetched =>
        exact Nat.le_refl _
    | faulted | broke | went | ended =>
        simp
  rcases stepped : m.step with ⟨n, outcome⟩
  rw [stepped] at grows
  cases outcome with
  | running | ended | failed | broke =>
      simpa only [loop, stepped] using grows

/-- The step that stops a run decides how it comes out. -/
theorem StopsAfter.loop (stops : m.StopsAfter count) {fuel : Nat}
    (enough : count < fuel) :
    loop fuel m = Machine.loop 1 (m.afterSteps count) := by
  obtain ⟨rest, rfl⟩ : ∃ rest, fuel = count + (rest + 1) :=
    ⟨fuel - count - 1, by omega⟩
  rw [stops.runs.loop, loop_of_stops stops.stops]

/-- Whether runs of a machine come out in one way, if they have fuel
enough. -/
def ComesTo (m : Machine) (r : Run) : Prop :=
  ∃ enough, ∀ fuel, enough ≤ fuel → loop fuel m = r

theorem StopsAfter.comesTo (stops : m.StopsAfter count) :
    m.ComesTo (Machine.loop 1 (m.afterSteps count)) :=
  ⟨count + 1, fun _ enough => stops.loop enough⟩

theorem ComesTo.unique (one : m.ComesTo r) (other : m.ComesTo s) :
    r = s := by
  obtain ⟨enough, one⟩ := one
  obtain ⟨alsoEnough, other⟩ := other
  rw [← one (max enough alsoEnough) (by omega),
    other (max enough alsoEnough) (by omega)]

/-- A run that comes out somehow stops, for the count of one that goes on
grows with the fuel. -/
theorem ComesTo.stopsAfter (comes : m.ComesTo r) :
    ∃ count, m.StopsAfter count := by
  obtain ⟨enough, comes⟩ := comes
  rcases stopsAfter_or_runsOn m (enough + 1) with ⟨count, -, stops⟩ | runs
  · exact ⟨count, stops⟩
  · have shorter : m.RunsOn enough := runs.le (by omega)
    have sooner := shorter.loop 0
    have later := runs.loop 0
    rw [comes _ (by omega)] at sooner later
    have counts := congrArg Run.count (sooner.symm.trans later)
    simp only [Machine.loop, runs.steps, shorter.steps] at counts
    omega

/-- Fuel that was enough once shows how all runs come out. -/
theorem comesTo_loop {fuel : Nat}
    (settled : (loop fuel m).ending ≠ .unsettled) :
    m.ComesTo (loop fuel m) := by
  rcases stopsAfter_or_runsOn m fuel with ⟨count, below, stops⟩ | runs
  · rw [stops.loop below]
    exact stops.comesTo
  · have left := runs.loop 0
    rw [Nat.add_zero] at left
    rw [left] at settled
    exact absurd rfl settled

end Machine

end WindowMachine
