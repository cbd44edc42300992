import WindowMachine.Proofs.Batch.Moves
import WindowMachine.Proofs.Checks

/-!
# What a batch delivers

When all results stand, each job has the one to which it comes alone, unless
the batch was cancelled before its worker began; then it has nothing but its
name and the cancellation.  In whatever order the moves came, a batch that was
not cancelled delivers what `Batch.run` says, and so does one that was
cancelled at once.
-/

namespace WindowMachine

namespace Batch

open Machine

variable {b : Batch} {jobs : List Job} {job : Job} {p q : Progress}
  {next : Move} {moves others : List Move} {i : Nat}
  {results : List JobResult} {error : Option Failure}

/-! ## Outcomes -/

theorem outcome?_eq_some_iff {results : List JobResult}
    {error : Option Failure} :
    p.outcome? = some (results, error) ↔
      p.stages = results.map .settled ∧
        error = if p.cancelled then some (.plain .cancelled) else none := by
  have settled : p.stages.map Stage.result? = results.map some ↔
      p.stages = results.map .settled := by
    induction p.stages generalizing results with
    | nil =>
        cases results <;> simp
    | cons stage rest inductionHypothesis =>
        cases results with
        | nil =>
            simp
        | cons result results =>
            simp only [List.map_cons, List.cons.injEq, inductionHypothesis]
            cases stage <;> simp [Stage.result?]
  rw [Progress.outcome?, Option.map_eq_some_iff]
  constructor
  · rintro ⟨found, passed, same⟩
    cases same
    exact ⟨settled.mp (mapM_eq_some_iff.mp passed), rfl⟩
  · rintro ⟨stages, rfl⟩
    exact ⟨results, mapM_eq_some_iff.mpr (settled.mpr stages), rfl⟩

/-- What a batch delivers: as many results as it has jobs, each under the name
of its job, and each either what the job comes to alone or the mark of a
cancellation.  What the job comes to alone is what `runJob` says, if it does
not take longer than that waits. -/
structure Delivers (b : Batch) (jobs : List Job) (cancelled : Prop)
    (results : List JobResult) (error : Option Failure) : Prop where
  length : results.length = jobs.length
  each (i : Nat) (job : Job) :
    jobs[i]? = some job →
      ∃ result, results[i]? = some result ∧ result.name = job.name ∧
        (b.Gives job result ∧
            (result.steps < 2 ^ 62 → result = b.runJob job) ∨
          Marks job (.plain .cancelled) result ∧ cancelled)
  error_iff : error ≠ none ↔ cancelled
  cancellation : error ≠ none → error = some (.plain .cancelled)

namespace Delivers

variable {cancelled alsoCancelled : Prop} {otherResults : List JobResult}
  {otherError : Option Failure}

/-- Without a cancellation every job delivers what it comes to alone. -/
theorem undisturbed (delivers : b.Delivers jobs cancelled results error)
    (never : ¬ cancelled) :
    error = none ∧
      ∀ (i : Nat) (job : Job), jobs[i]? = some job →
        ∃ result, results[i]? = some result ∧ b.Gives job result := by
  constructor
  · by_cases fine : error = none
    · exact fine
    · exact absurd (delivers.error_iff.mp fine) never
  · intro i job found
    obtain ⟨result, there, -, ⟨gives, -⟩ | ⟨-, happened⟩⟩ :=
      delivers.each i job found
    · exact ⟨result, there, gives⟩
    · exact absurd happened never

/-- Without a cancellation there is only one thing to deliver. -/
theorem unique (delivers : b.Delivers jobs cancelled results error)
    (also : b.Delivers jobs alsoCancelled otherResults otherError)
    (never : ¬ cancelled) (alsoNever : ¬ alsoCancelled) :
    results = otherResults ∧ error = otherError := by
  obtain ⟨fine, alone⟩ := delivers.undisturbed never
  obtain ⟨alsoFine, alsoAlone⟩ := also.undisturbed alsoNever
  refine ⟨?_, fine.trans alsoFine.symm⟩
  apply List.ext_getElem? fun i => ?_
  by_cases inside : i < jobs.length
  · have found := List.getElem?_eq_getElem inside
    obtain ⟨result, there, gives⟩ := alone i _ found
    obtain ⟨other, alsoThere, alsoGives⟩ := alsoAlone i _ found
    rw [there, alsoThere, gives.unique alsoGives]
  · have length := delivers.length
    have alsoLength := also.length
    rw [List.getElem?_eq_none (by omega), List.getElem?_eq_none (by omega)]

end Delivers

namespace Upheld

variable (upheld : b.Upheld jobs moves p)

include upheld

theorem delivers (finished : p.outcome? = some (results, error)) :
    b.Delivers jobs (.cancel ∈ moves) results error := by
  obtain ⟨stages, rfl⟩ := outcome?_eq_some_iff.mp finished
  have length : results.length = jobs.length := by
    rw [← upheld.length, stages, List.length_map]
  have cancelled : p.cancelled = true ↔ .cancel ∈ moves := by
    rw [upheld.cancelled, List.contains_iff_mem]
  refine ⟨length, ?_, ?_, ?_⟩
  · intro i job found
    have inside : i < results.length := by
      rw [length]
      exact (List.getElem?_eq_some_iff.mp found).1
    have there := List.getElem?_eq_getElem inside
    have settled : p.stages[i]? = some (.settled results[i]) := by
      rw [stages, List.getElem?_map, there, Option.map_some]
    obtain ⟨name, gives | ⟨skips, happened⟩⟩ :=
      (upheld.accounted i job _ found settled).of_settled
    · exact ⟨_, there, name,
        .inl ⟨gives, fun soon => (gives.runJob soon).symm⟩⟩
    · exact ⟨_, there, name,
        .inr ⟨marks_iff.mpr skips, cancelled.mp happened⟩⟩
  · rw [← cancelled]
    cases p.cancelled <;> simp
  · cases p.cancelled <;> simp

end Upheld

/-! ## Cancelled at once -/

/-- Whether a batch skips whatever job it comes to. -/
structure Skipping (jobs : List Job) (p : Progress) : Prop where
  cancelled : p.cancelled = true
  each (i : Nat) (job : Job) (stage : Stage) :
    jobs[i]? = some job → p.stages[i]? = some stage →
      stage = .ahead ∨ stage = .settled (skipped job)

theorem Skipping.advance (skipping : Skipping jobs p)
    (upheld : b.Upheld jobs moves p)
    (made : b.advance? jobs p next = some q) : Skipping jobs q := by
  rcases advance?_cases upheld made with
    ⟨-, rfl⟩ | ⟨i, job, old, new, found, there, shift, same⟩
  · exact ⟨rfl, skipping.each⟩
  · have skips : new = .settled (skipped job) := by
      generalize q.seen = seen at shift
      rcases skipping.each i job old found there with rfl | rfl
      · cases shift
        simp [Progress.unlessCancelled, skipping.cancelled]
      · cases shift
    rw [same]
    refine ⟨skipping.cancelled, fun j other stage alsoFound now => ?_⟩
    rcases move_cases there now with ⟨rfl, rfl⟩ | ⟨-, before⟩
    · rw [found] at alsoFound
      cases alsoFound
      exact .inr skips
    · exact skipping.each j other stage alsoFound before

end Batch

end WindowMachine
