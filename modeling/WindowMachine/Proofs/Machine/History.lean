import WindowMachine.Image
import WindowMachine.Proofs.Machine.Effects

/-!
# Histories

A history is a list of the things that a machine can be told to do.  A command
that the machine refuses leaves it as it was.  Of each setter it is said what
it accepts and what it makes of the machine.  The inductions of this module
say what a loop of steps, a list of seeds and a whole history keep, given what
one step, one seed and one command keep.
-/

namespace WindowMachine

/-- What a machine can be told to do. -/
inductive Command where
  | setMethod (index : Int64) (method : Method)
  | setStack (index : Int64) (value : Int32)
  | setSlot (index : Int64) (bits : Slot)
  | setGlobal (index : Int64) (value : Int32)
  /-- Methods, globals and stack values of an image. -/
  | seed (image : Image)
  | load (code : Array Word) (entry : Int64)
  | step
  | run (code : Array Word) (entry : Int64)
  /-- A run on top of the values that the one before left. -/
  | proceed (code : Array Word) (entry : Int64)
  | reset
  | close
  /-- A new budget, with tracing on or off and a new place for output. -/
  | adjust (budget : Int64) (tracing : Bool) (sink : Sink)
  deriving DecidableEq, Repr

namespace Machine

/-- The machine that a setter made, or the old one if it refused. -/
def orKeep (m : Machine) : Except Failure Machine → Machine
  | .ok n => n
  | .error _ => m

/-- A machine after one command. -/
def obey (m : Machine) : Command → Machine
  | .setMethod index method => m.orKeep (m.setMethod index method)
  | .setStack index value => m.orKeep (m.setStack index value)
  | .setSlot index bits => m.orKeep (m.setSlot index bits)
  | .setGlobal index value => m.orKeep (m.setGlobal index value)
  | .seed image => (image.applyTo m).1
  | .load code entry => m.load code entry
  | .step => m.step.1
  | .run code entry => (m.run code entry).machine
  | .proceed code entry => (m.proceed code entry).machine
  | .reset => m.reset
  | .close => m.close
  | .adjust budget tracing sink =>
    { m with budget := budget, tracing := tracing, sink := sink }

/-- A machine after a history. -/
def after (m : Machine) (history : List Command) : Machine :=
  history.foldl obey m

/-! ## Setters -/

section Setters

variable {m n : Machine} {index : Int64}

theorem setMethod_eq_ok_iff {method : Method} :
    m.setMethod index method = .ok n ↔
      m.closed = false ∧
        (¬ method.entry < 0 ∧ ¬ method.args < 0 ∧ ¬ method.locals < 0) ∧
          ∃ place, position? index m.methods.size = some place ∧
            n = { m with
              methods := m.methods.setIfInBounds place (some method) } := by
  cases closed : m.closed with
  | true =>
      simp [setMethod, closed]
  | false =>
      simp only [setMethod, closed, Bool.false_eq_true, if_false, true_and]
      cases place : position? index m.methods.size with
      | none =>
          simp
      | some found =>
          by_cases negative :
              method.entry < 0 ∨ method.args < 0 ∨ method.locals < 0
          · simp only [negative, if_true, reduceCtorEq, false_iff]
            rintro ⟨⟨noEntry, noArgs, noLocals⟩, -⟩
            simp [noEntry, noArgs, noLocals] at negative
          · simp only [negative, if_false, Except.ok.injEq,
              Option.some.injEq, exists_eq_left', eq_comm]
            simp only [not_or] at negative
            simp [negative]

theorem setSlot_eq_ok_iff {bits : Slot} :
    m.setSlot index bits = .ok n ↔
      m.closed = false ∧
        ∃ place, position? index m.stack.size = some place ∧
          n = { m with stack := m.stack.setIfInBounds place bits } := by
  cases closed : m.closed with
  | true =>
      simp [setSlot, closed]
  | false =>
      cases place : position? index m.stack.size with
      | none | some found =>
          simp [setSlot, closed, place, eq_comm]

theorem setGlobal_eq_ok_iff {value : Int32} :
    m.setGlobal index value = .ok n ↔
      m.closed = false ∧
        ∃ place, position? index m.globals.size = some place ∧
          n = { m with globals := m.globals.setIfInBounds place value } := by
  cases closed : m.closed with
  | true =>
      simp [setGlobal, closed]
  | false =>
      cases place : position? index m.globals.size with
      | none | some found =>
          simp [setGlobal, closed, place, eq_comm]

end Setters

/-! ## Inductions -/

variable {Kept : Machine → Prop} {m : Machine}

theorem orKeep_keeps {result : Except Failure Machine}
    (start : Kept m) (kept : ∀ n, result = .ok n → Kept n) :
    Kept (m.orKeep result) := by
  cases result with
  | error why =>
      exact start
  | ok n =>
      exact kept n rfl

theorem seedAll_keeps {α : Type}
    {set : Machine → α → Except Failure Machine} (entries : List α)
    (kept : ∀ entry ∈ entries, ∀ m n,
      Kept m → set m entry = .ok n → Kept n)
    (start : Kept m) :
    Kept (Image.seedAll set m entries).1 := by
  induction entries generalizing m with
  | nil =>
      exact start
  | cons entry rest inductionHypothesis =>
      simp only [Image.seedAll]
      cases attempt : set m entry with
      | error why =>
          exact start
      | ok n =>
          exact inductionHypothesis
            (fun other member => kept other (List.mem_cons_of_mem _ member))
            (kept entry List.mem_cons_self m n start attempt)

/-- What every setter keeps, the seeds of an image keep. -/
theorem applyTo_keeps {image : Image}
    (method : ∀ entry ∈ image.methods, ∀ m n,
      Kept m → m.setMethod entry.index entry.method = .ok n → Kept n)
    (global : ∀ index value m n,
      Kept m → m.setGlobal index value = .ok n → Kept n)
    (slot : ∀ index bits m n,
      Kept m → m.setSlot index bits = .ok n → Kept n)
    (start : Kept m) :
    Kept (image.applyTo m).1 := by
  have methods :
      Kept (Image.seedAll Image.seedMethod m image.methods.toList).1 := by
    apply seedAll_keeps image.methods.toList _ start
    intro entry member before n keptBefore seeded
    simp only [Image.seedMethod] at seeded
    split at seeded
    · cases seeded
      exact method entry (by simpa using member) before _ keptBefore ‹_›
    · cases seeded
  simp only [Image.applyTo]
  split
  · rename_i seeded
    rwa [seeded] at methods
  · rename_i seeded
    rw [seeded] at methods
    have globals := seedAll_keeps image.globals.toList
      (fun g _ before n => global g.index g.value before n) methods
    split
    · rename_i seeded
      rwa [seeded] at globals
    · rename_i seeded
      rw [seeded] at globals
      exact seedAll_keeps image.stack.toList
        (fun s _ before n => slot s.index s.bits before n) globals

/-- What every step keeps, a loop of them keeps. -/
theorem loop_keeps
    (step : ∀ m, Kept m → Kept m.step.1)
    (note : ∀ m line, Kept m → Kept (m.note line))
    (fuel : Nat) (start : Kept m) :
    Kept (loop fuel m).machine := by
  induction fuel generalizing m with
  | zero =>
      exact start
  | succ fuel inductionHypothesis =>
      have kept := step m start
      rw [loop]
      split
      · rename_i stepped
        rw [stepped] at kept
        exact note _ _ kept
      · rename_i stepped
        rwa [stepped] at kept
      · rename_i stepped
        rwa [stepped] at kept
      · rename_i stepped
        rw [stepped] at kept
        exact inductionHypothesis kept

theorem after_keeps {Allowed : Command → Prop} {history : List Command}
    (command : ∀ m command, Allowed command → Kept m → Kept (m.obey command))
    (allowed : ∀ command ∈ history, Allowed command)
    (start : Kept m) :
    Kept (m.after history) := by
  induction history generalizing m with
  | nil =>
      exact start
  | cons first rest inductionHypothesis =>
      exact inductionHypothesis
        (fun later member => allowed later (List.mem_cons_of_mem _ member))
        (command m first (allowed first List.mem_cons_self) start)

end Machine

end WindowMachine
