import Mathlib.Algebra.BigOperators.Group.Finset.Piecewise
import Mathlib.Algebra.Order.BigOperators.Group.Finset
import WindowMachine.Proofs.Batch.Deliveries

/-!
# Schedules of a batch

A batch whose results do not all stand can always make another move, unless a
machine has broken down, and only so many moves can be made if the jobs that
were begun come to a result.  So it comes to its outcome, whatever moves are
made; a budget is enough for that.  A job that goes on for ever keeps its
batch from an outcome, and so does one that breaks down.
-/

namespace WindowMachine

namespace Batch

open Machine

variable {b : Batch} {jobs : List Job} {job : Job} {p q : Progress}
  {next : Move} {moves others : List Move} {i : Nat} {limits : Nat → Nat}

/-! ## Going on -/

namespace Upheld

variable (upheld : b.Upheld jobs moves p)

include upheld

theorem keeps {result : JobResult}
    (made : b.advance? jobs p next = some q)
    (settled : p.stages[i]? = some (.settled result)) :
    q.stages[i]? = some (.settled result) := by
  rcases advance?_cases upheld made with
    ⟨-, rfl⟩ | ⟨j, job, old, new, found, there, shift, same⟩
  · exact settled
  · -- No move begins at a stage where the result stands.
    have other : j ≠ i := by
      rintro rfl
      rw [settled] at there
      cases there
      cases shift
    rw [same]
    simpa [Progress.move, List.getElem?_set, other] using settled

end Upheld

/-! ## How many moves there are -/

/-- Whether a job at a stage was begun and has no result. -/
def Stage.isUnfinished : Stage → Bool
  | .running _ | .crashed => true
  | _ => false

/-- Whether each job that was begun and has no result, or that may still be
begun, comes to a result alone. -/
def AllGive (b : Batch) (jobs : List Job) (p : Progress) : Prop :=
  ∀ (i : Nat) (job : Job) (stage : Stage),
    jobs[i]? = some job → p.stages[i]? = some stage →
      p.cancelled = false ∨ stage.isUnfinished = true →
        ∃ result, b.Gives job result

/-- A move begins a job only in a batch that is not cancelled. -/
theorem AllGive.advance (give : b.AllGive jobs p)
    (upheld : b.Upheld jobs moves p)
    (made : b.advance? jobs p next = some q) : b.AllGive jobs q := by
  rcases advance?_cases upheld made with
    ⟨-, rfl⟩ | ⟨i, job, old, new, found, there, shift, same⟩
  · intro i job stage found there unfinished
    exact give i job stage found there
      (.inr (unfinished.resolve_left nofun))
  · rw [same]
    intro j other stage alsoFound now unfinished
    rcases move_cases there now with ⟨rfl, rfl⟩ | ⟨-, before⟩
    · rw [found] at alsoFound
      cases alsoFound
      apply give j job old found there
      by_cases cancelled : p.cancelled = false
      · exact .inl cancelled
      · right
        have unfinished := unfinished.resolve_left cancelled
        rw [Bool.not_eq_false] at cancelled
        generalize q.seen = seen at shift
        cases shift with
        | reach | start =>
            simp [Progress.unlessCancelled, cancelled, Stage.isUnfinished]
              at unfinished
        | take =>
            cases unfinished
        | work =>
            rfl
    · exact give j other stage alsoFound before unfinished

theorem AllGive.sound (give : b.AllGive jobs p)
    (upheld : b.Upheld jobs moves p) : .crashed ∉ p.stages := by
  intro crashed
  obtain ⟨i, there⟩ := List.mem_iff_getElem?.mp crashed
  have inside := (List.getElem?_eq_some_iff.mp there).1
  rw [upheld.length] at inside
  have found := List.getElem?_eq_getElem inside
  obtain ⟨result, gives⟩ := give i _ _ found there (.inr rfl)
  exact gives.not_breaksDown (upheld.accounted i _ _ found there).of_crashed

/-- A job has executed no more instructions than it stops within. -/
theorem Upheld.count_le (upheld : b.Upheld jobs moves p)
    (give : b.AllGive jobs p)
    (ends : ∀ (i : Nat) (job : Job) (result : JobResult),
      jobs[i]? = some job → b.Gives job result →
        b.EndsWithin job (limits i))
    (inside : i < jobs.length) : moves.count (.work i) ≤ limits i := by
  have found := List.getElem?_eq_getElem inside
  have alsoInside : i < p.stages.length := by
    rwa [upheld.length]
  have there := List.getElem?_eq_getElem alsoInside
  have accounted := upheld.accounted i _ _ found there
  by_cases gives : ∃ result, b.Gives jobs[i] result
  · obtain ⟨result, gives⟩ := gives
    exact accounted.within (ends i _ result found gives)
  · -- Then the job was not begun, so that it has executed none.
    generalize p.stages[i] = stage at there accounted
    generalize moves.count (.work i) = count at accounted ⊢
    cases accounted with
    | ahead | admitted | taken | skipped =>
        exact Nat.zero_le _
    | running | crashed =>
        exact absurd (give i _ _ found there (.inr rfl)) gives
    | gave alsoGives =>
        exact absurd ⟨_, alsoGives⟩ gives

/-- Whether a machine without a budget stands at a jump to where it is. -/
structure Spins (m : Machine) : Prop where
  opened : m.closed = false
  running : m.halted = false
  unlimited : ¬ 0 < m.budget
  stands : ∃ w, m.wordAt? m.frame.pc = some w ∧
    Operation.ofByte? (Instruction.decode w).opcode = some .jump ∧
      (Instruction.decode w).imm.toInt64 = -1

theorem Spins.step {m : Machine} (spins : Spins m) :
    m.step.2 = .running ∧ Spins m.step.1 := by
  obtain ⟨w, found, jumps, back⟩ := spins.stands
  have takes : m.TakesJump .jump (Instruction.decode w) := {
    opened := spins.opened
    running := spins.running
    unspent := by simp [spent, spins.unlimited]
    condition := .inl rfl }
  obtain ⟨goes, pc⟩ := takes.step (takes.next? found) jumps (.inr rfl)
  obtain ⟨-, closed, halted, budget⟩ := step_running goes
  have same : m.step.1.frame.pc = m.frame.pc := by
    have cancels : (1 : Int64) + -1 = 0 := by decide
    rw [pc, back, Int64.add_assoc, cancels, Int64.add_zero]
  refine ⟨goes, closed.trans spins.opened, halted, ?_, w, ?_, jumps, back⟩
  · rw [budget]
    exact spins.unlimited
  · rw [same, wordAt?, (step_keeps m).1]
    exact found

end Batch

end WindowMachine
