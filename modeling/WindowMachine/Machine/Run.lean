import WindowMachine.Machine.Step

/-!
Runs: steps until the program ends or fails. A run without a budget need not come to an end,
so stepping is bounded by fuel, and running out of it is an ending of its own.
-/

namespace WindowMachine

/-- How a run came out. -/
inductive Ending where
  /-- The program ended. -/
  | done
  /-- The program, or what came before it, failed. -/
  | failed (why : Failure)
  /-- The machine broke down, so that there is nothing to report to. -/
  | broken (breakdown : Breakdown)
  /-- The fuel did not reach to either. -/
  | unsettled
  deriving DecidableEq, Repr

/-- The failure in which a run ended. -/
def Ending.failure? : Ending → Option Failure
  | .failed why => some why
  | .broken b => some (.broken b)
  | .done | .unsettled => none

/-- A machine after a run, with the number of instructions the run reports. -/
structure Run where
  machine : Machine
  count : Nat
  ending : Ending
  deriving DecidableEq, Repr

/-- A run that was refused before its first instruction. -/
def Run.refused (m : Machine) (why : Failure) : Run := ⟨m, 0, .failed why⟩

namespace Machine

/-- Steps until the program ends or fails, at most `fuel` times. -/
def loop : Nat → Machine → Run
  | 0, m => ⟨m, m.steps, .unsettled⟩
  | fuel + 1, m =>
    match m.step with
    | (n, .failed why) => ⟨n.note (.aborted why), n.steps, .failed why⟩
    | (n, .broke b) => ⟨n, n.steps, .broken b⟩
    | (n, .ended) => ⟨n, n.steps, .done⟩
    | (n, .running) => loop fuel n

/-- How many steps settle a run of a machine with a budget, or how many are tried without. -/
def patience (m : Machine) : Nat :=
  if 0 < m.budget then m.budget.toInt.toNat + 1 else 1 <<< 62

/-- Runs a program from an address. -/
def run (m : Machine) (code : Array Word) (entry : Int64) : Run :=
  if m.closed then Run.refused m (.plain .closed)
  else if code.isEmpty then Run.refused m (.plain .noProgram)
  else loop m.patience (m.load code entry)

/-- Installs a program but keeps the top of the stack, if it lies within the stack. -/
def resume (m : Machine) (code : Array Word) (entry : Int64) : Machine :=
  let top := m.frame.top
  let n := m.load code entry
  if -1 ≤ top ∧ top < Int64.ofNat n.stack.size then
    { n with frame := { n.frame with top := top } }
  else n

/-- Runs a program on top of the values that the one before left on the stack. -/
def proceed (m : Machine) (code : Array Word) (entry : Int64) : Run :=
  if m.closed then Run.refused m (.plain .closed)
  else if code.isEmpty then Run.refused m (.plain .noProgram)
  else loop m.patience (m.resume code entry)

/-- Steps at most `limit` times, as long as the program goes on: how many steps were taken, and
how the last one came out. -/
def stepMany : Nat → Nat → Machine → Machine × Nat × StepOutcome
  | 0, taken, m => (m, taken, .running)
  | limit + 1, taken, m =>
    match m.step with
    | (n, .running) => stepMany limit (taken + 1) n
    | (n, outcome) => (n, taken + 1, outcome)

end Machine

end WindowMachine
