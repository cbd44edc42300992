import Mathlib.Algebra.GroupWithZero.Nat
import Mathlib.Algebra.Order.BigOperators.Group.List
import WindowMachine.Proofs.Batch.Alone

/-!
# Moves of a batch

The moves of a batch may come in any order.  Each of them but a cancellation
takes one job from one stage to the next, and the machine of a job is moved on
by its own worker alone.  So whatever the order, a job is at each moment
somewhere on its own way.

What is upheld by every move is stated once, for the batch as a whole, and
carried over a list of moves by induction.
-/

namespace WindowMachine

namespace Batch

open Machine

/-! ## Stages and moves -/

/-- How many moves of the batch a job has behind it at least, apart from its
instructions. -/
def Stage.rank : Stage → Nat
  | .ahead => 0
  | .admitted => 1
  | .taken => 2
  | .running _ | .settled _ | .crashed => 3

/-- Whether a move brings a job forward without executing an instruction. -/
def Move.schedules : Move → Bool
  | .reach | .take | .start _ => true
  | .cancel | .work _ => false

variable {b : Batch} {jobs : List Job} {job : Job} {p q : Progress}
  {next : Move} {moves : List Move} {old new stage : Stage}
  {i count seen : Nat} {cancelled : Bool}

theorem rank_le (stage : Stage) : stage.rank ≤ 3 := by
  cases stage with
  | ahead | admitted | taken | running | settled | crashed =>
      simp [Stage.rank]

theorem rank_le_unlessCancelled (p : Progress) (job : Job) (stage : Stage) :
    stage.rank ≤ (p.unlessCancelled job stage).rank := by
  unfold Progress.unlessCancelled
  split
  · exact rank_le stage
  · exact Nat.le_refl _

theorem begun_rank (b : Batch) (job : Job) : (b.begun job).rank = 3 := by
  rcases begun_cases b job with crashed | ⟨result, settled⟩ | ⟨m, runs⟩
  · rw [crashed]
    rfl
  · rw [settled]
    rfl
  · rw [runs]
    rfl

theorem worked_rank (job : Job) (m : Machine) : (worked job m).rank = 3 := by
  rcases worked_cases job m with ⟨-, runs⟩ | ⟨-, -, settled⟩ | ⟨-, -, crashed⟩
  · rw [runs]
    rfl
  · rw [settled]
    rfl
  · rw [crashed]
    rfl

/-- The moves that take a job from one stage to another, each with the number
of jobs that the batch has come to by then. -/
inductive Shift (b : Batch) (p : Progress) (job : Job) (i : Nat) :
    Move → Stage → Stage → Nat → Prop
  | reach :
      i = p.seen →
      Shift b p job i .reach .ahead
        (p.unlessCancelled job .admitted) (p.seen + 1)
  | take :
      (p.busy : Int) < b.workers.toInt →
      Shift b p job i .take .admitted .taken p.seen
  | start :
      Shift b p job i (.start i) .taken
        (p.unlessCancelled job (b.begun job)) p.seen
  | work {m : Machine} :
      Shift b p job i (.work i) (.running m) (worked job m) p.seen

namespace Shift

variable (shift : b.Shift p job i next old new seen)

include shift

theorem rank :
    old.rank + (if next.schedules then 1 else 0) ≤ new.rank := by
  cases shift with
  | reach =>
      exact rank_le_unlessCancelled p job .admitted
  | take =>
      exact Nat.le_refl _
  | start =>
      have begins := rank_le_unlessCancelled p job (b.begun job)
      rw [begun_rank] at begins
      exact begins
  | work =>
      rw [worked_rank]
      exact Nat.le_refl _

/-- A worker becomes busy only if one was free. -/
theorem busy : new.isBusy = true →
    old.isBusy = true ∨ (p.busy : Int) < b.workers.toInt := by
  intro busy
  cases shift with
  | reach =>
      unfold Progress.unlessCancelled at busy
      split at busy <;> cases busy
  | take free =>
      exact .inr free
  | start | work =>
      exact .inl rfl

/-- A job that was ahead and no longer is has been seen. -/
theorem seen_iff (ahead : old = .ahead ↔ p.seen ≤ i) :
    i < seen ∧ ∀ j, j ≠ i → (p.seen ≤ j ↔ seen ≤ j) := by
  cases shift with
  | reach here =>
      refine ⟨by omega, fun j other => by omega⟩
  | take | start | work =>
      have below : ¬ p.seen ≤ i := by
        rw [← ahead]
        simp
      exact ⟨by omega, fun j _ => Iff.rfl⟩

theorem not_ahead : new ≠ .ahead := by
  intro same
  have grown := shift.rank
  rw [same] at grown
  cases shift with
  | reach | take | start | work =>
      simp [Stage.rank, Move.schedules] at grown

end Shift

/-! ## What a job has come to -/

/-- Whether a job can be at a stage after its worker has executed some number
of instructions: all that has happened to it happens to it alone, unless it
was cancelled before its worker began. -/
inductive Accounted (b : Batch) (job : Job) (cancelled : Bool) :
    Nat → Stage → Prop
  | ahead : Accounted b job cancelled 0 .ahead
  | admitted : Accounted b job cancelled 0 .admitted
  | taken : Accounted b job cancelled 0 .taken
  | running {m : Machine} {count : Nat} :
      b.begun job = .running m →
      m.RunsOn count →
      Accounted b job cancelled count (.running (m.afterSteps count))
  | skipped :
      cancelled = true →
      Accounted b job cancelled 0 (.settled (skipped job))
  | gave {result : JobResult} {count : Nat} :
      b.Gives job result →
      (∀ limit, b.EndsWithin job limit → count ≤ limit) →
      Accounted b job cancelled count (.settled result)
  | crashed {count : Nat} :
      b.BreaksDown job →
      (∀ limit, b.EndsWithin job limit → count ≤ limit) →
      Accounted b job cancelled count .crashed

namespace Accounted

theorem mono (accounted : b.Accounted job cancelled count stage) :
    b.Accounted job true count stage := by
  cases accounted with
  | ahead =>
      exact .ahead
  | admitted =>
      exact .admitted
  | taken =>
      exact .taken
  | running begins runs =>
      exact .running begins runs
  | skipped =>
      exact .skipped rfl
  | gave gives within =>
      exact .gave gives within
  | crashed breaks within =>
      exact .crashed breaks within

theorem begun (b : Batch) (job : Job) (cancelled : Bool) :
    b.Accounted job cancelled 0 (b.begun job) := by
  rcases begun_cases b job with crashed | ⟨result, settled⟩ | ⟨m, runs⟩
  · rw [crashed]
    have breaks := breaksDown_iff.mpr (.inl crashed)
    exact .crashed breaks fun limit _ => Nat.zero_le limit
  · rw [settled]
    have gives := gives_iff.mpr (.inl settled)
    exact .gave gives fun limit _ => Nat.zero_le limit
  · rw [runs]
    exact .running runs fun k below => absurd below (by omega)

/-- One more instruction of a job brings it to what it comes to alone. -/
theorem worked {m : Machine} (begins : b.begun job = .running m)
    (runs : m.RunsOn count) :
    b.Accounted job cancelled (count + 1)
      (worked job (m.afterSteps count)) := by
  have last (stops : (m.afterSteps count).step.2 ≠ .running) (limit : Nat)
      (ends : b.EndsWithin job limit) : count + 1 ≤ limit := by
    obtain ⟨final, below, alsoStops⟩ := ends m begins
    have same := StopsAfter.unique ⟨runs, stops⟩ alsoStops
    omega
  rcases worked_cases job (m.afterSteps count) with
    ⟨goes, stage⟩ | ⟨stops, returned, stage⟩ | ⟨stops, broke, stage⟩
  · rw [stage, ← afterSteps_succ]
    exact .running begins (runs.snoc goes)
  · rw [stage]
    have comes := StopsAfter.comesTo ⟨runs, stops⟩
    have gives := gives_iff.mpr
      (.inr ⟨m, _, begins, comes, returned, rfl⟩)
    exact .gave gives (last stops)
  · rw [stage]
    have comes := StopsAfter.comesTo ⟨runs, stops⟩
    have breaks := breaksDown_iff.mpr (.inr ⟨m, _, begins, comes, broke⟩)
    exact .crashed breaks (last stops)

theorem within (accounted : b.Accounted job cancelled count stage)
    {limit : Nat} (ends : b.EndsWithin job limit) : count ≤ limit := by
  cases accounted with
  | ahead | admitted | taken | skipped =>
      exact Nat.zero_le limit
  | running begins runs =>
      obtain ⟨final, below, stops⟩ := ends _ begins
      have reached := stops.runsOn_le runs
      omega
  | gave gives within | crashed breaks within =>
      exact within limit ends

theorem of_settled {result : JobResult}
    (accounted : b.Accounted job cancelled count (.settled result)) :
    result.name = job.name ∧
      (b.Gives job result ∨ result = Batch.skipped job ∧ cancelled = true) := by
  cases accounted with
  | skipped happened =>
      exact ⟨rfl, .inr ⟨rfl, happened⟩⟩
  | gave gives =>
      exact ⟨gives.name, .inl gives⟩

theorem of_crashed (accounted : b.Accounted job cancelled count .crashed) :
    b.BreaksDown job := by
  cases accounted with
  | crashed breaks =>
      exact breaks

/-- A job stays accounted for when a move takes it to another stage. -/
theorem shift (accounted : b.Accounted job p.cancelled count old)
    (shift : b.Shift p job i next old new seen) :
    b.Accounted job p.cancelled
      (count + if next = .work i then 1 else 0) new := by
  have skip {stage : Stage} (goesOn : b.Accounted job p.cancelled 0 stage) :
      b.Accounted job p.cancelled 0 (p.unlessCancelled job stage) := by
    unfold Progress.unlessCancelled
    split
    · exact .skipped ‹_›
    · exact goesOn
  cases shift with
  | reach =>
      cases accounted
      exact skip .admitted
  | take =>
      cases accounted
      exact .taken
  | start =>
      cases accounted
      exact skip (.begun b job _)
  | work =>
      rw [if_pos rfl]
      cases accounted with
      | running begins runs =>
          exact .worked begins runs

end Accounted

/-! ## One job is moved -/

section Move

variable (there : p.stages[i]? = some old)

include there

theorem move_cases {j : Nat}
    (now : (p.move i new).stages[j]? = some stage) :
    j = i ∧ stage = new ∨ j ≠ i ∧ p.stages[j]? = some stage := by
  have inside := (List.getElem?_eq_some_iff.mp there).1
  rw [Progress.move, List.getElem?_set] at now
  by_cases same : i = j
  · rw [if_pos same, if_pos inside] at now
    exact .inl ⟨same.symm, (Option.some.inj now).symm⟩
  · rw [if_neg same] at now
    exact .inr ⟨fun other => same other.symm, now⟩

theorem busy_move (new : Stage) :
    (p.move i new).busy + (if old.isBusy then 1 else 0) =
      p.busy + if new.isBusy then 1 else 0 := by
  obtain ⟨inside, known⟩ := List.getElem?_eq_some_iff.mp there
  have counted : old.isBusy = true → 0 < p.busy := fun busy =>
    List.countP_pos_iff.mpr ⟨old, List.mem_of_getElem? there, busy⟩
  change List.countP Stage.isBusy (p.stages.set i new) + _ = _
  rw [List.countP_set inside, known]
  change p.busy - _ + _ + _ = _
  split
  · rename_i busy
    have occupied := counted busy
    omega
  · omega

theorem rank_move (new : Stage) :
    ((p.move i new).stages.map Stage.rank).sum + old.rank =
      (p.stages.map Stage.rank).sum + new.rank := by
  change ((p.stages.set i new).map Stage.rank).sum + _ = _
  generalize p.stages = stages at there
  induction stages generalizing i with
  | nil =>
      cases there
  | cons first rest inductionHypothesis =>
      cases i with
      | zero =>
          cases there
          simp only [List.set_cons_zero, List.map_cons, List.sum_cons]
          omega
      | succ i =>
          have later := inductionHypothesis
            (show rest[i]? = some old by simpa using there)
          simp only [List.set_cons_succ, List.map_cons, List.sum_cons]
          omega

end Move

/-! ## What every move upholds -/

/-- What the moves made so far have made of a batch. -/
structure Upheld (b : Batch) (jobs : List Job) (moves : List Move)
    (p : Progress) : Prop where
  length : p.stages.length = jobs.length
  cancelled : p.cancelled = moves.contains .cancel
  ahead_iff (i : Nat) (stage : Stage) :
    p.stages[i]? = some stage → (stage = .ahead ↔ p.seen ≤ i)
  accounted (i : Nat) (job : Job) (stage : Stage) :
    jobs[i]? = some job → p.stages[i]? = some stage →
      b.Accounted job p.cancelled (moves.count (.work i)) stage
  busy : (p.busy : Int) ≤ b.workers.toInt
  scheduled :
    moves.countP Move.schedules ≤ (p.stages.map Stage.rank).sum
  inside (i : Nat) : .work i ∈ moves → i < jobs.length

/-- A move that can be made is a cancellation, or it takes one job from the
stage at which it is to another one. -/
theorem advance?_cases (upheld : b.Upheld jobs moves p)
    (made : b.advance? jobs p next = some q) :
    (next = .cancel ∧ q = { p with cancelled := true }) ∨
      ∃ i job old new, jobs[i]? = some job ∧ p.stages[i]? = some old ∧
        b.Shift p job i next old new q.seen ∧
          q = { p.move i new with seen := q.seen } := by
  unfold advance? at made
  split at made
  · cases made
  · cases next with
    | cancel =>
        cases made
        exact .inl ⟨rfl, rfl⟩
    | reach =>
        dsimp only at made
        split at made
        · cases made
        · obtain ⟨job, found, rfl⟩ := Option.map_eq_some_iff.mp made
          have inside : p.seen < p.stages.length := by
            rw [upheld.length]
            exact (List.getElem?_eq_some_iff.mp found).1
          have there := List.getElem?_eq_getElem inside
          have ahead := (upheld.ahead_iff _ _ there).mpr (Nat.le_refl _)
          rw [ahead] at there
          exact .inr ⟨p.seen, job, _, _, found, there, .reach rfl, rfl⟩
    | take =>
        dsimp only at made
        split at made
        · rename_i free
          obtain ⟨free, waits⟩ := free
          cases made
          have there := List.getElem?_idxOf (List.contains_iff_mem.mp waits)
          have inside := (List.getElem?_eq_some_iff.mp there).1
          rw [upheld.length] at inside
          exact .inr ⟨_, _, _, _, List.getElem?_eq_getElem inside, there,
            .take free, rfl⟩
        · cases made
    | start i =>
        dsimp only at made
        split at made
        · rename_i job found there
          cases made
          exact .inr ⟨i, job, _, _, found, there, .start, rfl⟩
        · cases made
    | work i =>
        dsimp only at made
        split at made
        · rename_i job m found there
          cases made
          exact .inr ⟨i, job, _, _, found, there, .work, rfl⟩
        · cases made

namespace Upheld

variable (upheld : b.Upheld jobs moves p)

include upheld

theorem cancel :
    b.Upheld jobs (moves ++ [.cancel]) { p with cancelled := true } where
  length := upheld.length
  cancelled := by simp
  ahead_iff := upheld.ahead_iff
  accounted i job stage found there := by
    have before := upheld.accounted i job stage found there
    simpa [List.count_append] using before.mono
  busy := upheld.busy
  scheduled := by simpa [Move.schedules] using upheld.scheduled
  inside i member := upheld.inside i (by simpa using member)

theorem shift (found : jobs[i]? = some job)
    (there : p.stages[i]? = some old)
    (shift : b.Shift p job i next old new seen) :
    b.Upheld jobs (moves ++ [next]) { p.move i new with seen := seen } := by
  obtain ⟨seenNow, seenElsewhere⟩ :=
    shift.seen_iff (upheld.ahead_iff i old there)
  exact {
    length := by
      simpa [Progress.move] using upheld.length
    cancelled := by
      have kept : next ≠ .cancel := by
        cases shift <;> simp
      simpa [Progress.move, kept.symm] using upheld.cancelled
    ahead_iff := by
      intro j stage now
      rcases move_cases there now with ⟨rfl, rfl⟩ | ⟨other, before⟩
      · have notAhead := shift.not_ahead
        simp only [notAhead, false_iff]
        omega
      · rw [upheld.ahead_iff j stage before]
        exact seenElsewhere j other
    accounted := by
      intro j alsoJob stage alsoFound now
      rw [List.count_append, List.count_singleton]
      change b.Accounted alsoJob p.cancelled _ stage
      rcases move_cases there now with ⟨rfl, rfl⟩ | ⟨other, before⟩
      · rw [found] at alsoFound
        cases alsoFound
        simpa using (upheld.accounted j job old found there).shift shift
      · have notHere : next ≠ .work j := by
          rintro rfl
          cases shift
          exact other rfl
        simpa [notHere] using upheld.accounted j alsoJob stage alsoFound before
    busy := by
      have before := upheld.busy
      have moved := busy_move there new
      have raised := shift.busy
      change ((p.move i new).busy : Int) ≤ _
      cases wasBusy : old.isBusy with
      | true =>
          rw [wasBusy, if_pos rfl] at moved
          split at moved <;> omega
      | false =>
          rw [wasBusy, if_neg Bool.false_ne_true] at moved
          split at moved
          · rename_i isBusy
            have free := (raised isBusy).resolve_left (by simp [wasBusy])
            omega
          · omega
    scheduled := by
      have before := upheld.scheduled
      have grown := shift.rank
      have moved := rank_move there new
      change _ ≤ ((p.move i new).stages.map Stage.rank).sum
      rw [List.countP_append, List.countP_singleton]
      omega
    inside := by
      intro j member
      rcases List.mem_append.mp member with earlier | now
      · exact upheld.inside j earlier
      · rw [List.mem_singleton] at now
        subst now
        cases shift
        exact (List.getElem?_eq_some_iff.mp found).1 }

/-- Whatever move comes next, what has been made of the batch stays
accounted for. -/
theorem advance (made : b.advance? jobs p next = some q) :
    b.Upheld jobs (moves ++ [next]) q := by
  rcases advance?_cases upheld made with
    ⟨rfl, rfl⟩ | ⟨i, job, old, new, found, there, shift, same⟩
  · exact upheld.cancel
  · rw [same]
    exact upheld.shift found there shift

end Upheld

end Batch

end WindowMachine
