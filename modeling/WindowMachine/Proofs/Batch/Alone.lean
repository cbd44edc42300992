import WindowMachine.Batch.Schedule
import WindowMachine.Proofs.Machine.Reachable
import WindowMachine.Proofs.Machine.Switches
import WindowMachine.Proofs.Machine.Verdicts

/-!
# Jobs on their own

A job that is run alone, on a fresh machine, comes to a result, breaks its
machine down, or goes on for ever.  Which of these it is depends on the image
and on the capacities alone, and so does the result.  What running alone means
is said here without the moves of a batch: the image is applied to a fresh
machine and run with some fuel.  The stage at which a worker begins a job is
then the beginning of just that run.

The result is that of `Batch.runJob`, unless that gives up on the job for the
number of its instructions.
-/

namespace WindowMachine

/-- Whether a run ended because its machine broke down. -/
def Run.Broke (r : Run) : Prop := ∃ breakdown, r.ending = .broken breakdown

/-- Runs a program from an address with some fuel. -/
def Machine.runFor (m : Machine) (fuel : Nat) (code : Array Word)
    (entry : Int64) : Run :=
  if m.closed then Run.refused m (.plain .closed)
  else if code.isEmpty then Run.refused m (.plain .noProgram)
  else loop fuel (m.load code entry)

/-- Applies an image and runs it with some fuel. -/
def Image.runOnFor (image : Image) (fuel : Nat) (m : Machine) : Run :=
  match image.applyTo m with
  | (n, some why) => Run.refused n why
  | (n, none) => n.runFor fuel image.words image.entry

theorem Image.runOn_eq_runOnFor (image : Image) (m : Machine) :
    image.runOn m = image.runOnFor (image.applyTo m).1.patience m := by
  unfold runOn runOnFor
  rcases image.applyTo m with ⟨n, _ | why⟩
  · rfl
  · rfl

namespace Batch

open Machine

variable {b : Batch} {job : Job} {result other : JobResult}
  {m fresh : Machine} {r : Run} {why : Failure}

/-! ## Results and runs -/

/-- Whether a result says of the run of a job all that there is to say. -/
structure Reports (job : Job) (r : Run) (result : JobResult) : Prop where
  name : result.name = job.name
  output : result.output = r.machine.output
  steps : result.steps = r.count
  value : result.result = r.machine.result
  frame : result.frame = r.machine.frame
  failure : result.failure = r.ending.failure?

/-- Whether a result carries nothing but the name of a job and a failure. -/
structure Marks (job : Job) (why : Failure) (result : JobResult) : Prop where
  name : result.name = job.name
  output : result.output = ""
  steps : result.steps = 0
  value : result.result = 0
  frame : result.frame = ⟨0, 0, 0, 0⟩
  failure : result.failure = some why

theorem reports_iff : Reports job r result ↔ result = job.outcome r := by
  constructor
  · rintro ⟨name, output, steps, value, frame, failure⟩
    cases result
    simp_all [Job.outcome]
  · rintro rfl
    exact ⟨rfl, rfl, rfl, rfl, rfl, rfl⟩

theorem marks_iff : Marks job why result ↔ result = job.refused why := by
  constructor
  · rintro ⟨name, output, steps, value, frame, failure⟩
    cases result
    simp_all [Job.refused]
  · rintro rfl
    exact ⟨rfl, rfl, rfl, rfl, rfl, rfl⟩

/-- Whether a job comes to a result if it is run alone: no machine of these
capacities can be made for it, or its image comes back from a run on a fresh
one, however long that takes. -/
inductive Gives (b : Batch) (job : Job) (result : JobResult) : Prop
  | refused {why : Failure} :
      Machine.new b.capacities = .error why →
      (∀ breakdown, why ≠ .broken breakdown) →
      Marks job why result →
      Gives b job result
  | ran {fresh : Machine} {fuel : Nat} :
      Machine.new b.capacities = .ok fresh →
      (job.image.runOnFor fuel
        { fresh with tracing := b.tracing }).Returned →
      Reports job
        (job.image.runOnFor fuel { fresh with tracing := b.tracing })
        result →
      Gives b job result

/-- Whether a job breaks down the machine on which it is run alone, or the
making of it. -/
inductive BreaksDown (b : Batch) (job : Job) : Prop
  | unmade {breakdown : Breakdown} :
      Machine.new b.capacities = .error (.broken breakdown) →
      BreaksDown b job
  | ran {fresh : Machine} {fuel : Nat} :
      Machine.new b.capacities = .ok fresh →
      (job.image.runOnFor fuel
        { fresh with tracing := b.tracing }).Broke →
      BreaksDown b job

/-- Whether a job stops within some number of instructions, if it is run
alone. -/
def EndsWithin (b : Batch) (job : Job) (limit : Nat) : Prop :=
  ∀ m, b.begun job = .running m → ∃ count < limit, m.StopsAfter count

/-! ## The beginning of a job -/

theorem applyTo_budget (image : Image) (m : Machine) :
    (image.applyTo m).1.budget = m.budget := by
  have same : (m.obey (.seed image)).switches = m.switches :=
    obey_switches nofun
  exact congrArg Prod.fst same

/-- How the stage at which a worker begins a job is the beginning of its run
alone, whatever fuel that run has. -/
inductive Beginning (b : Batch) (job : Job) : Stage → Prop
  | unmade {breakdown : Breakdown} :
      Machine.new b.capacities = .error (.broken breakdown) →
      Beginning b job .crashed
  | refused {why : Failure} :
      Machine.new b.capacities = .error why →
      (∀ breakdown, why ≠ .broken breakdown) →
      Beginning b job (.settled (job.refused why))
  | returned {fresh : Machine} {r : Run} :
      Machine.new b.capacities = .ok fresh →
      (∀ fuel, job.image.runOnFor fuel
        { fresh with tracing := b.tracing } = r) →
      r.Returned →
      Beginning b job (.settled (job.outcome r))
  | running {fresh m : Machine} :
      Machine.new b.capacities = .ok fresh →
      (∀ fuel, job.image.runOnFor fuel
        { fresh with tracing := b.tracing } = loop fuel m) →
      m.steps = 0 →
      m.budget = b.capacities.budget →
      Beginning b job (.running m)

theorem begun_beginning (b : Batch) (job : Job) :
    b.Beginning job (b.begun job) := by
  cases made : Machine.new b.capacities with
  | error why =>
      cases why with
      | broken breakdown =>
          simp only [begun, made]
          exact .unmade made
      | _ =>
          simp only [begun, made]
          exact .refused made (by simp)
  | ok fresh =>
      obtain ⟨-, -, rfl⟩ := new_eq_ok_iff.mp made
      have budget := applyTo_budget job.image
        { blank b.capacities with tracing := b.tracing }
      rcases applied : job.image.applyTo
        { blank b.capacities with tracing := b.tracing } with ⟨n, refusal⟩
      rw [applied] at budget
      cases refusal with
      | some why =>
          simp only [begun, made, applied]
          exact .returned made
            (fun fuel => by simp only [Image.runOnFor, applied])
            (.inr ⟨why, rfl⟩)
      | none =>
          by_cases closed : n.closed = true
          · simp only [begun, made, applied, if_pos closed]
            exact .returned made
              (fun fuel => by
                simp only [Image.runOnFor, applied, runFor, if_pos closed])
              (.inr ⟨_, rfl⟩)
          · by_cases empty : job.image.words.isEmpty = true
            · simp only [begun, made, applied, if_neg closed, if_pos empty]
              exact .returned made
                (fun fuel => by
                  simp only [Image.runOnFor, applied, runFor, if_neg closed,
                    if_pos empty])
                (.inr ⟨_, rfl⟩)
            · simp only [begun, made, applied, if_neg closed, if_neg empty]
              exact .running made
                (fun fuel => by
                  simp only [Image.runOnFor, applied, runFor, if_neg closed,
                    if_neg empty])
                rfl budget

theorem begun_cases (b : Batch) (job : Job) :
    b.begun job = .crashed ∨ (∃ result, b.begun job = .settled result) ∨
      ∃ m, b.begun job = .running m := by
  have beginning := begun_beginning b job
  generalize b.begun job = stage at beginning
  cases beginning with
  | unmade =>
      exact .inl rfl
  | refused | returned =>
      exact .inr (.inl ⟨_, rfl⟩)
  | running =>
      exact .inr (.inr ⟨_, rfl⟩)

theorem begun_running (begins : b.begun job = .running m) :
    m.steps = 0 ∧ m.budget = b.capacities.budget := by
  have beginning := begun_beginning b job
  rw [begins] at beginning
  cases beginning with
  | running made runs fresh budget =>
      exact ⟨fresh, budget⟩

theorem patience_congr {n : Machine} (same : m.budget = n.budget) :
    m.patience = n.patience := by
  rw [patience, patience, same]

/-- A job that is run is run by `runJob` on the same machine. -/
theorem runJob_of_running (begins : b.begun job = .running m) :
    b.runJob job = job.outcome (loop m.patience m) := by
  have beginning := begun_beginning b job
  rw [begins] at beginning
  cases beginning with
  | running made runs fresh budget =>
      obtain ⟨-, -, rfl⟩ := new_eq_ok_iff.mp made
      have same : (job.image.applyTo
          { blank b.capacities with tracing := b.tracing }).1.patience =
            m.patience :=
        patience_congr ((applyTo_budget job.image _).trans budget.symm)
      simp only [runJob, made, Image.runOn_eq_runOnFor, runs, same]

/-- A job that has a result at once has it from `runJob`, too. -/
theorem runJob_of_settled (begins : b.begun job = .settled result) :
    b.runJob job = result := by
  have beginning := begun_beginning b job
  rw [begins] at beginning
  cases beginning with
  | refused made sound =>
      simp only [runJob, made]
  | returned made runs =>
      simp only [runJob, made, Image.runOn_eq_runOnFor, runs]

/-! ## Runs and what they come to -/

theorem not_broke_of_returned (returned : r.Returned) : ¬ r.Broke := by
  rintro ⟨breakdown, broken⟩
  rcases returned with done | ⟨why, failed⟩
  · rw [broken] at done
    cases done
  · rw [broken] at failed
    cases failed

theorem comesTo_of_returned {fuel : Nat}
    (returned : (loop fuel m).Returned) : m.ComesTo (loop fuel m) := by
  apply comesTo_loop
  rcases returned with done | ⟨why, failed⟩
  · simp [done]
  · simp [failed]

theorem comesTo_of_broke {fuel : Nat} (broke : (loop fuel m).Broke) :
    m.ComesTo (loop fuel m) := by
  obtain ⟨breakdown, broken⟩ := broke
  exact comesTo_loop (by simp [broken])

/-! What is said of a job alone, if the making of its machine is known. -/

theorem Gives.of_unmade (gives : b.Gives job result)
    (unmade : Machine.new b.capacities = .error why) :
    (∀ breakdown, why ≠ .broken breakdown) ∧ Marks job why result := by
  cases gives with
  | refused alsoUnmade sound marks =>
      rw [unmade] at alsoUnmade
      cases alsoUnmade
      exact ⟨sound, marks⟩
  | ran made =>
      rw [unmade] at made
      cases made

theorem Gives.of_made (gives : b.Gives job result)
    (made : Machine.new b.capacities = .ok fresh) :
    ∃ fuel,
      (job.image.runOnFor fuel
        { fresh with tracing := b.tracing }).Returned ∧
      Reports job
        (job.image.runOnFor fuel { fresh with tracing := b.tracing })
        result := by
  cases gives with
  | refused unmade =>
      rw [made] at unmade
      cases unmade
  | ran alsoMade returned reports =>
      rw [made] at alsoMade
      cases alsoMade
      exact ⟨_, returned, reports⟩

theorem BreaksDown.of_unmade (breaks : b.BreaksDown job)
    (unmade : Machine.new b.capacities = .error why) :
    ∃ breakdown, why = .broken breakdown := by
  cases breaks with
  | unmade alsoUnmade =>
      rw [unmade] at alsoUnmade
      cases alsoUnmade
      exact ⟨_, rfl⟩
  | ran made =>
      rw [unmade] at made
      cases made

theorem BreaksDown.of_made (breaks : b.BreaksDown job)
    (made : Machine.new b.capacities = .ok fresh) :
    ∃ fuel,
      (job.image.runOnFor fuel { fresh with tracing := b.tracing }).Broke := by
  cases breaks with
  | unmade unmade =>
      rw [made] at unmade
      cases unmade
  | ran alsoMade broke =>
      rw [made] at alsoMade
      cases alsoMade
      exact ⟨_, broke⟩

/-- A job comes to a result alone if its worker has one at once, or if the
machine on which it begins comes to a run that comes back. -/
theorem gives_iff :
    b.Gives job result ↔
      b.begun job = .settled result ∨
        ∃ m r, b.begun job = .running m ∧ m.ComesTo r ∧ r.Returned ∧
          result = job.outcome r := by
  have beginning := begun_beginning b job
  generalize b.begun job = stage at beginning ⊢
  constructor
  · intro gives
    cases beginning with
    | unmade unmade =>
        exact absurd rfl ((gives.of_unmade unmade).1 _)
    | refused unmade =>
        have same := marks_iff.mp (gives.of_unmade unmade).2
        exact .inl (congrArg Stage.settled same.symm)
    | returned made runs =>
        obtain ⟨fuel, -, reports⟩ := gives.of_made made
        rw [runs] at reports
        exact .inl (congrArg Stage.settled (reports_iff.mp reports).symm)
    | running made runs =>
        obtain ⟨fuel, returned, reports⟩ := gives.of_made made
        rw [runs] at returned reports
        exact .inr ⟨_, _, rfl, comesTo_of_returned returned, returned,
          reports_iff.mp reports⟩
  · rintro (rfl | ⟨m, r, rfl, ⟨enough, comes⟩, returned, rfl⟩)
    · cases beginning with
      | refused unmade sound =>
          exact .refused unmade sound (marks_iff.mpr rfl)
      | returned made runs returned =>
          have final := runs 0
          exact .ran made (by rwa [final])
            (by rw [final]; exact reports_iff.mpr rfl)
    · cases beginning with
      | running made runs =>
          have final := (runs enough).trans (comes enough (Nat.le_refl _))
          exact .ran made (by rwa [final])
            (by rw [final]; exact reports_iff.mpr rfl)

theorem breaksDown_iff :
    b.BreaksDown job ↔
      b.begun job = .crashed ∨
        ∃ m r, b.begun job = .running m ∧ m.ComesTo r ∧ r.Broke := by
  have beginning := begun_beginning b job
  generalize b.begun job = stage at beginning ⊢
  constructor
  · intro breaks
    cases beginning with
    | unmade =>
        exact .inl rfl
    | refused unmade sound =>
        obtain ⟨breakdown, same⟩ := breaks.of_unmade unmade
        exact absurd same (sound breakdown)
    | returned made runs returned =>
        obtain ⟨fuel, broke⟩ := breaks.of_made made
        rw [runs] at broke
        exact absurd broke (not_broke_of_returned returned)
    | running made runs =>
        obtain ⟨fuel, broke⟩ := breaks.of_made made
        rw [runs] at broke
        exact .inr ⟨_, _, rfl, comesTo_of_broke broke, broke⟩
  · rintro (rfl | ⟨m, r, rfl, ⟨enough, comes⟩, broke⟩)
    · cases beginning with
      | unmade unmade =>
          exact .unmade unmade
    · cases beginning with
      | running made runs =>
          have final := (runs enough).trans (comes enough (Nat.le_refl _))
          exact .ran made (by rwa [final])

/-! ## One result -/

theorem Gives.unique (one : b.Gives job result)
    (alsoOther : b.Gives job other) : result = other := by
  rcases gives_iff.mp one with settled | ⟨m, r, begins, comes, -, rfl⟩
  · rcases gives_iff.mp alsoOther with alsoSettled | ⟨m, r, begins, -⟩
    · rw [settled] at alsoSettled
      cases alsoSettled
      rfl
    · rw [settled] at begins
      cases begins
  · rcases gives_iff.mp alsoOther with
      settled | ⟨n, s, alsoBegins, alsoComes, -, rfl⟩
    · rw [begins] at settled
      cases settled
    · rw [begins] at alsoBegins
      cases alsoBegins
      rw [comes.unique alsoComes]

theorem Gives.not_breaksDown (gives : b.Gives job result) :
    ¬ b.BreaksDown job := by
  intro breaks
  rcases gives_iff.mp gives with settled | ⟨m, r, begins, comes, returned, -⟩
  · rcases breaksDown_iff.mp breaks with crashed | ⟨m, r, begins, -⟩
    · rw [settled] at crashed
      cases crashed
    · rw [settled] at begins
      cases begins
  · rcases breaksDown_iff.mp breaks with
      crashed | ⟨n, s, alsoBegins, alsoComes, broke⟩
    · rw [begins] at crashed
      cases crashed
    · rw [begins] at alsoBegins
      cases alsoBegins
      rw [comes.unique alsoComes] at returned
      exact not_broke_of_returned returned broke

theorem Gives.name (gives : b.Gives job result) : result.name = job.name := by
  cases gives with
  | refused made sound marks =>
      exact marks.name
  | ran made returned reports =>
      exact reports.name

/-! ## The stage after an instruction -/

theorem worked_cases (job : Job) (m : Machine) :
    (m.step.2 = .running ∧ worked job m = .running m.step.1) ∨
      (m.step.2 ≠ .running ∧ (loop 1 m).Returned ∧
        worked job m = .settled (job.outcome (loop 1 m))) ∨
      (m.step.2 ≠ .running ∧ (loop 1 m).Broke ∧
        worked job m = .crashed) := by
  rcases stepped : m.step with ⟨n, outcome⟩
  cases outcome with
  | running =>
      exact .inl ⟨rfl, by simp [worked, stepped]⟩
  | ended =>
      refine .inr (.inl ⟨by simp, .inl ?_, by simp [worked, loop, stepped]⟩)
      simp [loop, stepped]
  | failed why =>
      refine .inr (.inl
        ⟨by simp, .inr ⟨why, ?_⟩, by simp [worked, loop, stepped]⟩)
      simp [loop, stepped]
  | broke breakdown =>
      refine .inr (.inr ⟨by simp, ⟨breakdown, ?_⟩, by simp [worked, stepped]⟩)
      simp [loop, stepped]

/-! ## Jobs that stop -/

theorem StopsAfter.lt_patience {count : Nat} (stops : m.StopsAfter count)
    (soon : count < 2 ^ 62) : count < m.patience := by
  unfold patience
  split
  · rename_i limited
    have within := stops.runs.le_budget limited
    omega
  · simpa using soon

/-- What a job comes to alone, `runJob` says, unless it takes longer than
anyone waits. -/
theorem Gives.runJob (gives : b.Gives job result)
    (soon : result.steps < 2 ^ 62) : b.runJob job = result := by
  rcases gives_iff.mp gives with settled | ⟨m, r, begins, comes, -, rfl⟩
  · exact runJob_of_settled settled
  · obtain ⟨fresh, -⟩ := begun_running begins
    obtain ⟨count, stops⟩ := comes.stopsAfter
    obtain rfl := comes.unique stops.comesTo
    have counted : count ≤ (loop 1 (m.afterSteps count)).count := by
      have reported := steps_le_loop_one (m.afterSteps count)
      rw [stops.runs.steps] at reported
      omega
    have within : count < m.patience :=
      StopsAfter.lt_patience stops (Nat.lt_of_le_of_lt counted soon)
    rw [runJob_of_running begins, stops.loop within]

end Batch

end WindowMachine
