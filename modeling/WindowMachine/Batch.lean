import WindowMachine.Image

/-!
Batches: several programs, each on a machine of its own, with their results in the order of
the programs.
-/

namespace WindowMachine

/-- A program to run. -/
structure Job where
  name : String
  image : Image
  deriving DecidableEq, Repr

/-- What a job came to. A failure is the program's own; the other jobs run all the same. -/
structure JobResult where
  name : String
  output : String := ""
  steps : Nat := 0
  result : Int32 := 0
  frame : Frame := ⟨0, 0, 0, 0⟩
  failure : Option Failure := none
  deriving DecidableEq, Repr

/-- The result of a job that came to no run, for a reason. -/
def Job.refused (job : Job) (why : Failure) : JobResult :=
  { name := job.name, failure := some why }

/-- The result of a job by its run. -/
def Job.outcome (job : Job) (r : Run) : JobResult where
  name := job.name
  output := r.machine.output
  steps := r.count
  result := r.machine.result
  frame := r.machine.frame
  failure := r.ending.failure?

/-- Runs jobs on machines of the same capacities, a bounded number at a time. -/
structure Batch where
  capacities : Capacities
  workers : Int64
  tracing : Bool := false
  deriving DecidableEq, Repr

namespace Batch

/-- A batch with at least one worker. -/
def ofWorkers (c : Capacities) (workers : Int64) : Batch :=
  { capacities := c, workers := if workers < 1 then 1 else workers }

/-- Runs a job on a fresh machine. A job that breaks its machine down has no result, and neither
has its batch: what is said here of such a job means nothing. -/
def runJob (b : Batch) (job : Job) : JobResult :=
  match Machine.new b.capacities with
  | .error why => job.refused why
  | .ok m => job.outcome (job.image.runOn { m with tracing := b.tracing })

/-- The result of a job that was never started. -/
def skipped (job : Job) : JobResult := job.refused (.plain .cancelled)

/-- The results of all jobs, and the failure of the batch itself, which is only that it was
cancelled before it began. -/
def run (b : Batch) (cancelled : Bool) (jobs : List Job) : List JobResult × Option Failure :=
  if cancelled then (jobs.map skipped, some (.plain .cancelled))
  else (jobs.map b.runJob, none)

/-- The results that hold a failure. -/
def failed (results : List JobResult) : List JobResult :=
  results.filter fun r => r.failure.isSome

end Batch

end WindowMachine
