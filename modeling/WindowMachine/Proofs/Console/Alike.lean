import WindowMachine.Proofs.Console.Sessions
import WindowMachine.Proofs.Machine.MissingMethods
import WindowMachine.Proofs.Machine.Verdicts

/-!
# Alike machines

What a program finds when it is resumed is the stack with its top, the
globals, the return register, the sizes and the switches of a machine, and the
methods.  Machines that are alike in all but the methods take the same seeds
and come out alike from the same program, up to the calls of methods that the
one has and the other one has not.
-/

namespace WindowMachine

namespace Machine

variable {m : Machine} {k : Int64}

/-! ## Alike machines -/

/-- Whether two machines have the same to offer to a program that is resumed
on them, methods apart. -/
structure Alike (m n : Machine) : Prop where
  capacities : n.capacities = m.capacities
  stack : n.stack = m.stack
  globals : n.globals = m.globals
  methods : n.methods.size = m.methods.size
  top : n.frame.top = m.frame.top
  result : n.result = m.result
  closed : n.closed = m.closed
  budget : n.budget = m.budget
  tracing : n.tracing = m.tracing
  sink : n.sink = m.sink

/-- Whether a setter has done the same to two machines. -/
inductive BothSet : Except Failure Machine → Except Failure Machine → Prop
  | accepted {m n : Machine} (alike : m.Alike n) : BothSet (.ok m) (.ok n)
  | refused (why : Failure) : BothSet (.error why) (.error why)

structure BothSeeded (r s : Machine × Option Failure) : Prop where
  alike : r.1.Alike s.1
  refusal : s.2 = r.2

/-- Seeds that come after others, unless one of those was refused. -/
def seededNext (next : Machine → Machine × Option Failure) :
    Machine × Option Failure → Machine × Option Failure
  | (m, some why) => (m, some why)
  | (m, none) => next m

theorem BothSeeded.next {next : Machine → Machine × Option Failure}
    {r s : Machine × Option Failure} (both : BothSeeded r s)
    (later : ∀ {m n : Machine}, m.Alike n → BothSeeded (next m) (next n)) :
    BothSeeded (seededNext next r) (seededNext next s) := by
  obtain ⟨m, refusal⟩ := r
  obtain ⟨n, other⟩ := s
  obtain ⟨alike, same⟩ := both
  obtain rfl : other = refusal := same
  cases other with
  | some why =>
      exact ⟨alike, rfl⟩
  | none =>
      exact later alike

namespace Alike

variable {n : Machine} (alike : m.Alike n)

include alike

theorem setMethod (index : Int64) (method : Method) :
    BothSet (m.setMethod index method) (n.setMethod index method) := by
  simp only [Machine.setMethod, alike.closed, alike.methods]
  split
  · exact .refused _
  · split
    · exact .refused _
    · split
      · exact .refused _
      · exact .accepted { alike with
          closed := rfl
          methods := by simp [alike.methods] }

theorem setGlobal (index : Int64) (value : Int32) :
    BothSet (m.setGlobal index value) (n.setGlobal index value) := by
  simp only [Machine.setGlobal, alike.closed, alike.globals]
  split
  · exact .refused _
  · split
    · exact .refused _
    · exact .accepted { alike with closed := rfl, globals := rfl }

theorem setSlot (index : Int64) (bits : Slot) :
    BothSet (m.setSlot index bits) (n.setSlot index bits) := by
  simp only [Machine.setSlot, alike.closed, alike.stack]
  split
  · exact .refused _
  · split
    · exact .refused _
    · exact .accepted { alike with closed := rfl, stack := rfl }

theorem seedMethod (entry : NamedMethod) :
    BothSet (Image.seedMethod m entry) (Image.seedMethod n entry) := by
  have both := alike.setMethod entry.index entry.method
  simp only [Image.seedMethod]
  generalize m.setMethod entry.index entry.method = one at both
  generalize n.setMethod entry.index entry.method = other at both
  cases both with
  | accepted alike =>
      exact .accepted alike
  | refused why =>
      exact .refused _

theorem seedAll {α : Type} {set : Machine → α → Except Failure Machine}
    (each : ∀ {m n : Machine}, m.Alike n → ∀ entry,
      BothSet (set m entry) (set n entry))
    (entries : List α) :
    BothSeeded (Image.seedAll set m entries) (Image.seedAll set n entries) := by
  induction entries generalizing m n with
  | nil =>
      exact ⟨alike, rfl⟩
  | cons first rest inductionHypothesis =>
      have both := each alike first
      simp only [Image.seedAll]
      generalize set m first = one at both
      generalize set n first = other at both
      cases both with
      | accepted alike =>
          exact inductionHypothesis alike
      | refused why =>
          exact ⟨alike, rfl⟩

theorem applyTo (img : Image) :
    BothSeeded (img.applyTo m) (img.applyTo n) := by
  have methods := alike.seedAll (fun alike => alike.seedMethod)
    img.methods.toList
  have globals {m n : Machine} (alike : m.Alike n) := alike.seedAll
    (fun alike (g : GlobalSeed) => alike.setGlobal g.index g.value)
    img.globals.toList
  have slots {m n : Machine} (alike : m.Alike n) := alike.seedAll
    (fun alike (s : StackSeed) => alike.setSlot s.index s.bits)
    img.stack.toList
  exact methods.next fun alike => (globals alike).next slots

theorem reset : m.reset.Alike n.reset := by
  simp only [Machine.reset, alike.closed, alike.stack, alike.globals,
    entryFrame, alike.capacities]
  split
  · exact alike
  · exact
      { alike with
        capacities := rfl
        stack := rfl
        globals := rfl
        top := rfl
        result := rfl
        closed := rfl }

theorem stackText : n.stackText = m.stackText := by
  simp only [Machine.stackText, shownStack, alike.stack, alike.top]

theorem quiet : (Console.quiet m).Alike (Console.quiet n) :=
  { alike with }

/-- On alike machines a program begins in the same way, methods apart. -/
theorem resume (code : Array Word) (entry : Int64) :
    (Console.quiet n).resume code entry =
      ((Console.quiet m).resume code entry).withMethods n.methods := by
  simp only [Machine.resume, load, entryFrame, Console.quiet,
    alike.capacities, alike.stack, alike.globals, alike.top, alike.result,
    alike.closed, alike.budget, alike.tracing, alike.sink]
  by_cases inside :
      -1 ≤ m.frame.top ∧ m.frame.top < Int64.ofNat m.stack.size
  · simp only [inside, and_self, if_true]
    rfl
  · simp only [inside, if_false]
    rfl

end Alike

theorem alike_withMethods {table : Array (Option Method)}
    (size : table.size = m.methods.size) : m.Alike (m.withMethods table) where
  capacities := rfl
  stack := rfl
  globals := rfl
  methods := size
  top := rfl
  result := rfl
  closed := rfl
  budget := rfl
  tracing := rfl
  sink := rfl

/-! ## Alike runs -/

/-- Whether two runs have come out the same on alike machines. -/
structure AlikeRuns (r s : Run) : Prop where
  alike : r.machine.Alike s.machine
  ending : s.ending = r.ending
  output : s.machine.output = r.machine.output

theorem AlikeRuns.concluded {r s : Run} (alike : AlikeRuns r s)
    (text : String) :
    (Console.concluded text r).1.Alike (Console.concluded text s).1 ∧
      (Console.concluded text s).2 = (Console.concluded text r).2 := by
  simp only [Console.concluded, alike.ending, alike.output,
    alike.alike.stackText]
  split
  · exact ⟨alike.alike.reset, rfl⟩
  · exact ⟨alike.alike, rfl⟩

/-- Whether a program calls a method of an index when it is resumed on a
machine that has shown nothing. -/
def ProgramCalls (m : Machine) (img : Image) (k : Int64) : Prop :=
  ((Console.quiet m).resume img.words img.entry).RunCalls
    (Console.quiet m).patience k

theorem next?_of_no_code (empty : m.code = #[]) : m.next? = none := by
  have noWord : m.wordAt? m.frame.pc = none := by
    simp only [wordAt?, empty]
    cases position? m.frame.pc (#[] : Array Word).size with
    | none | some place =>
        rfl
  simp [next?, noWord]

theorem resume_code (code : Array Word) (entry : Int64) :
    (m.resume code entry).code = code := by
  simp only [resume]
  split <;> rfl

theorem not_runCalls_of_next?_none {fuel : Nat} (nothing : m.next? = none) :
    ¬ m.RunCalls fuel k := by
  rintro ⟨count, -, runs, i, fetches, -⟩
  cases count with
  | zero =>
      exact absurd (nothing.symm.trans fetches) (by simp)
  | succ count =>
      have some := isSome_next?_of_running (runs 0 (Nat.succ_pos count))
      rw [show m.afterSteps 0 = m from rfl, nothing] at some
      cases some

theorem proceed_eq_loop {code : Array Word} (opened : m.closed = false)
    (nonempty : code.isEmpty = false) (entry : Int64) :
    m.proceed code entry = loop m.patience (m.resume code entry) := by
  simp only [proceed, opened, nonempty, Bool.false_eq_true, if_false]

theorem ProgramCalls.nonempty {img : Image} (calls : m.ProgramCalls img k) :
    img.words.isEmpty = false := by
  refine Bool.eq_false_iff.mpr fun empty => ?_
  refine not_runCalls_of_next?_none (next?_of_no_code ?_) calls
  rw [resume_code]
  simpa using empty

/-- A program that calls a method that is missing fails for want of it. -/
theorem ProgramCalls.ending_of_missing {img : Image}
    (calls : m.ProgramCalls img k) (opened : m.closed = false)
    (missing : m.method? k = none) :
    ∃ pc op, ((Console.quiet m).proceed img.words img.entry).ending =
      .failed (.fault pc op (.noMethod k)) := by
  have stays : (Console.quiet m).closed = false := opened
  rw [proceed_eq_loop stays calls.nonempty]
  refine loop_of_missing calls ?_
  rw [method?_congr (resume_methods _ _)]
  exact missing

section Runs

variable {n : Machine} (alike : m.Alike n) {img : Image}

theorem agrees_resume_iff (code : Array Word) (entry : Int64) :
    ((Console.quiet m).resume code entry).Agrees n.methods k ↔
      n.method? k = m.method? k := by
  have own : ((Console.quiet m).resume code entry).method? k = m.method? k :=
    method?_congr (resume_methods code entry)
  have other : (((Console.quiet m).resume code entry).withMethods
      n.methods).method? k = n.method? k :=
    method?_congr rfl
  rw [Agrees, own, other]

include alike

theorem Alike.patience :
    (Console.quiet n).patience = (Console.quiet m).patience := by
  simp only [Machine.patience, alike.quiet.budget]

theorem Alike.proceed
    (agree : ∀ k, m.ProgramCalls img k → n.method? k = m.method? k) :
    AlikeRuns ((Console.quiet m).proceed img.words img.entry)
      ((Console.quiet n).proceed img.words img.entry) := by
  simp only [Machine.proceed, alike.quiet.closed, alike.patience]
  split
  · exact ⟨alike.quiet, rfl, rfl⟩
  · split
    · exact ⟨alike.quiet, rfl, rfl⟩
    · rw [alike.resume, loop_withMethods]
      · refine ⟨alike_withMethods ?_, rfl, rfl⟩
        rw [loop_methods, resume_methods]
        exact alike.methods
      · intro k calls
        exact (agrees_resume_iff img.words img.entry).mpr (agree k calls)

/-- On a machine that has fewer methods a program comes out the same just in
case it calls none of those that are missing. -/
theorem Alike.proceed_ending_iff (opened : m.closed = false)
    (lacks : ∀ k, n.method? k = m.method? k ∨ n.method? k = none) :
    ((Console.quiet n).proceed img.words img.entry).ending =
        ((Console.quiet m).proceed img.words img.entry).ending ↔
      ∀ k, m.ProgramCalls img k → n.method? k = m.method? k := by
  refine ⟨fun same k calls => ?_, fun agree => (alike.proceed agree).ending⟩
  have stays : (Console.quiet m).closed = false := opened
  have alsoStays : (Console.quiet n).closed = false :=
    alike.closed.trans opened
  rw [proceed_eq_loop stays calls.nonempty,
    proceed_eq_loop alsoStays calls.nonempty, alike.resume,
    alike.patience] at same
  refine (agrees_resume_iff img.words img.entry).mp ?_
  refine (loop_ending_eq_iff ?_).mp same k calls
  intro k
  exact (lacks k).imp (agrees_resume_iff img.words img.entry).mpr
    fun missing => (method?_congr rfl).trans missing

end Runs

end Machine

end WindowMachine
