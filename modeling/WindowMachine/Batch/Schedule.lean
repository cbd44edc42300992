import WindowMachine.Batch

/-!
Schedules: the moves by which a batch is worked off, in whatever order they happen.

The batch comes to its jobs in turn. A job is admitted unless the batch has been cancelled,
waits until a worker is free and is taken by that worker, which looks once more whether the
batch has been cancelled before it begins. From then on the worker executes one instruction of
the job after the other, on a machine that no other job has, until the result stands. The batch
does not come to the next job while one is waiting for a worker. A cancellation may happen at
any moment. A machine that breaks down takes the whole batch with it.
-/

namespace WindowMachine.Batch

/-- How far a job has come. -/
inductive Stage where
  /-- The batch has not come to it. -/
  | ahead
  /-- It waits for a free worker. -/
  | admitted
  /-- A worker has it and has not begun. -/
  | taken
  /-- A worker is running it on a machine. -/
  | running (m : Machine)
  /-- Its result stands. -/
  | settled (result : JobResult)
  /-- Its machine has broken down. -/
  | crashed
  deriving DecidableEq, Repr

namespace Stage

/-- Whether a job at a stage keeps a worker busy. -/
def isBusy : Stage → Bool
  | .taken | .running _ => true
  | _ => false

/-- Whether a job at a stage is being run. -/
def isRunning : Stage → Bool
  | .running _ => true
  | _ => false

/-- The result of a job at a stage, if it stands. -/
def result? : Stage → Option JobResult
  | .settled result => some result
  | _ => none

end Stage

/-- The stage of a job whose worker has begun: a fresh machine is made, set up with the image
and loaded, unless one of these is refused. -/
def begun (b : Batch) (job : Job) : Stage :=
  match Machine.new b.capacities with
  | .error (.broken _) => .crashed
  | .error why => .settled (job.refused why)
  | .ok fresh =>
    match job.image.applyTo { fresh with tracing := b.tracing } with
    | (m, some why) => .settled (job.outcome (Run.refused m why))
    | (m, none) =>
      if m.closed then .settled (job.outcome (Run.refused m (.plain .closed)))
      else if job.image.words.isEmpty then
        .settled (job.outcome (Run.refused m (.plain .noProgram)))
      else .running (m.load job.image.words job.image.entry)

/-- The stage of a job after one more instruction on its machine. -/
def worked (job : Job) (m : Machine) : Stage :=
  match m.step with
  | (n, .running) => .running n
  | (n, .ended) => .settled (job.outcome ⟨n, n.steps, .done⟩)
  | (n, .failed why) => .settled (job.outcome ⟨n.note (.aborted why), n.steps, .failed why⟩)
  | (_, .broke _) => .crashed

/-- What can happen to a batch next. -/
inductive Move where
  /-- The batch is cancelled. -/
  | cancel
  /-- The batch comes to its next job. -/
  | reach
  /-- A free worker takes the job that waits for one. -/
  | take
  /-- The worker of a job begins. -/
  | start (job : Nat)
  /-- The worker of a job executes an instruction. -/
  | work (job : Nat)
  deriving DecidableEq, Repr

/-- A batch that is being worked off. -/
structure Progress where
  /-- How many jobs the batch has come to. -/
  seen : Nat := 0
  /-- The stages of the jobs, in their order. -/
  stages : List Stage
  cancelled : Bool := false
  deriving DecidableEq, Repr

namespace Progress

/-- How many workers are busy. -/
def busy (p : Progress) : Nat :=
  p.stages.countP Stage.isBusy

/-- How many jobs are being run. -/
def running (p : Progress) : Nat :=
  p.stages.countP Stage.isRunning

/-- Moves a job to a stage. -/
def move (p : Progress) (job : Nat) (stage : Stage) : Progress :=
  { p with stages := p.stages.set job stage }

/-- The result of a job that was cancelled, or the stage at which it goes on. -/
def unlessCancelled (p : Progress) (job : Job) (stage : Stage) : Stage :=
  if p.cancelled then .settled (skipped job) else stage

/-- The outcome of a batch whose results all stand: the results, and the failure that it was
cancelled. -/
def outcome? (p : Progress) : Option (List JobResult × Option Failure) :=
  (p.stages.mapM Stage.result?).map fun results =>
    (results, if p.cancelled then some (.plain .cancelled) else none)

end Progress

/-- Makes a move, if it can be made. -/
def advance? (b : Batch) (jobs : List Job) (p : Progress) (next : Move) : Option Progress :=
  if p.stages.contains .crashed then none
  else
    match next with
    | .cancel => some { p with cancelled := true }
    | .reach =>
      if p.stages.contains .admitted then none
      else
        jobs[p.seen]?.map fun job =>
          { p.move p.seen (p.unlessCancelled job .admitted) with seen := p.seen + 1 }
    | .take =>
      if (p.busy : Int) < b.workers.toInt ∧ p.stages.contains .admitted then
        some (p.move (p.stages.idxOf .admitted) .taken)
      else none
    | .start i =>
      match jobs[i]?, p.stages[i]? with
      | some job, some .taken => some (p.move i (p.unlessCancelled job (b.begun job)))
      | _, _ => none
    | .work i =>
      match jobs[i]?, p.stages[i]? with
      | some job, some (.running m) => some (p.move i (worked job m))
      | _, _ => none

end WindowMachine.Batch
