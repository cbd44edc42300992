import Mathlib.Algebra.Group.Int.Defs
import Mathlib.Algebra.Group.Nat.Defs
import WindowMachine.Machine.Basic

/-!
# Checks and what has passed them

Instructions and directives are worked out by chains of checks.  This module
takes such a chain apart from its result, and it does the arithmetic of the
64-bit indexes that the checks are about: sums and differences are exact as
long as they stay inside the range, and wrap around once outside of it.
-/

namespace WindowMachine

/-! ## Chains of checks -/

section Chains

variable {ε α β : Type}

theorem bind_eq_ok_iff
    {first : Except ε α} {next : α → Except ε β} {result : β} :
    first >>= next = .ok result ↔
      ∃ value, first = .ok value ∧ next value = .ok result := by
  cases first with
  | error why =>
      simp [bind, Except.bind]
  | ok value =>
      simp [bind, Except.bind]

theorem map_eq_ok_iff
    {first : Except ε α} {f : α → β} {result : β} :
    first.map f = .ok result ↔
      ∃ value, first = .ok value ∧ f value = result := by
  cases first with
  | error why =>
      simp [Except.map]
  | ok value =>
      simp [Except.map]

@[simp]
theorem pure_eq_ok_iff {value result : α} :
    (pure value : Except ε α) = .ok result ↔ value = result := by
  simp [pure, Except.pure]

/-- Whether a chain fails in allowed ways only. -/
def FailsOnly (allowed : ε → Prop) (result : Except ε α) : Prop :=
  ∀ why, result = .error why → allowed why

section Allowed

variable {allowed : ε → Prop}

theorem failsOnly_ok (value : α) :
    FailsOnly allowed (.ok value : Except ε α) := by
  rintro why ⟨⟩

theorem failsOnly_error {why : ε} (fine : allowed why) :
    FailsOnly allowed (.error why : Except ε α) := by
  rintro why ⟨⟩
  exact fine

/-- The second check has to fail in allowed ways only for what has passed the
first one. -/
theorem FailsOnly.bind_ok
    {first : Except ε α} {next : α → Except ε β}
    (before : FailsOnly allowed first)
    (after : ∀ value, first = .ok value → FailsOnly allowed (next value)) :
    FailsOnly allowed (first >>= next) := by
  cases first with
  | error why =>
      exact failsOnly_error (before why rfl)
  | ok value =>
      exact after value rfl

theorem FailsOnly.bind
    {first : Except ε α} {next : α → Except ε β}
    (before : FailsOnly allowed first)
    (after : ∀ value, FailsOnly allowed (next value)) :
    FailsOnly allowed (first >>= next) :=
  before.bind_ok fun value _ => after value

theorem FailsOnly.map {first : Except ε α} {f : α → β}
    (fails : FailsOnly allowed first) : FailsOnly allowed (first.map f) := by
  cases first with
  | error why =>
      exact failsOnly_error (fails why rfl)
  | ok value =>
      exact failsOnly_ok (f value)

theorem failsOnly_mapM {f : α → Except ε β} {xs : List α}
    (each : ∀ x ∈ xs, FailsOnly allowed (f x)) :
    FailsOnly allowed (xs.mapM f) := by
  induction xs with
  | nil =>
      exact failsOnly_ok []
  | cons x xs inductionHypothesis =>
      obtain ⟨own, others⟩ := List.forall_mem_cons.mp each
      rw [List.mapM_cons]
      apply own.bind
      intro y
      apply (inductionHypothesis others).bind
      intro ys
      exact failsOnly_ok (y :: ys)

theorem FailsOnly.mono {other : ε → Prop} {result : Except ε α}
    (fails : FailsOnly allowed result)
    (weaker : ∀ why, allowed why → other why) : FailsOnly other result :=
  fun why failed => weaker why (fails why failed)

end Allowed

/-- A fold that fails has come to a first element that fails. -/
theorem foldlM_eq_error {f : β → α → Except ε β} {xs : List α} {start : β}
    {why : ε} (failed : xs.foldlM f start = .error why) :
    ∃ place x state, xs[place]? = some x ∧
      (xs.take place).foldlM f start = .ok state ∧
        f state x = .error why := by
  induction xs generalizing start with
  | nil =>
      cases failed
  | cons x xs inductionHypothesis =>
      rw [List.foldlM_cons] at failed
      cases stepped : f start x with
      | error cause =>
          rw [stepped] at failed
          cases failed
          exact ⟨0, x, start, rfl, rfl, stepped⟩
      | ok next =>
          rw [stepped] at failed
          obtain ⟨place, y, state, found, folded, fails⟩ :=
            inductionHypothesis failed
          refine ⟨place + 1, y, state, found, ?_, fails⟩
          rw [List.take_succ_cons, List.foldlM_cons, stepped]
          exact folded

theorem toOption_eq_some_iff {result : Except ε α} {value : α} :
    result.toOption = some value ↔ result = .ok value := by
  cases result with
  | error why =>
      simp [Except.toOption]
  | ok found =>
      simp [Except.toOption]

/-- How a chain fails, if it does. -/
def failure? : Except ε α → Option ε
  | .error why => some why
  | .ok _ => none

theorem failure?_eq_some_iff {result : Except ε α} {why : ε} :
    failure? result = some why ↔ result = .error why := by
  cases result with
  | error other =>
      simp [failure?]
  | ok value =>
      simp [failure?]

/-- A list passes element by element. -/
theorem mapM_eq_some_iff {f : α → Option β} {xs : List α} {ys : List β} :
    xs.mapM f = some ys ↔ xs.map f = ys.map some := by
  induction xs generalizing ys with
  | nil =>
      cases ys with
      | nil =>
          simp
      | cons y rest =>
          simp
  | cons x xs inductionHypothesis =>
      simp only [List.mapM_cons, Option.bind_eq_bind,
        Option.bind_eq_some_iff, Option.pure_def, Option.some.injEq,
        inductionHypothesis, List.map_cons]
      cases ys with
      | nil =>
          simp
      | cons y rest =>
          simp

theorem exists_of_mem_mapM {f : α → Option β} {xs : List α} {ys : List β}
    (passed : xs.mapM f = some ys) {y : β} (member : y ∈ ys) :
    ∃ x ∈ xs, f x = some y := by
  rw [mapM_eq_some_iff] at passed
  apply List.mem_map.mp
  rw [passed]
  exact List.mem_map_of_mem member

theorem length_of_mapM {f : α → Option β} {xs : List α} {ys : List β}
    (passed : xs.mapM f = some ys) : ys.length = xs.length := by
  rw [mapM_eq_some_iff] at passed
  simpa using (congrArg List.length passed).symm

end Chains

/-! ## Index arithmetic -/

theorem toInt_add_of_fits {a b : Int64}
    (lower : -2 ^ 63 ≤ a.toInt + b.toInt)
    (upper : a.toInt + b.toInt < 2 ^ 63) :
    (a + b).toInt = a.toInt + b.toInt := by
  rw [Int64.toInt_add, Int.bmod_eq_of_le (by omega) (by omega)]

/-- A sum beyond the range comes out below zero. -/
theorem toInt_add_of_beyond {a b : Int64}
    (beyond : 2 ^ 63 ≤ a.toInt + b.toInt) :
    (a + b).toInt = a.toInt + b.toInt - 2 ^ 64 := by
  have aBound := a.toInt_lt
  have bBound := b.toInt_lt
  rw [Int64.toInt_add, ← Int.sub_bmod_right,
    Int.bmod_eq_of_le (by omega) (by omega)]
  rfl

theorem toInt_sub_of_fits {a b : Int64}
    (lower : -2 ^ 63 ≤ a.toInt - b.toInt)
    (upper : a.toInt - b.toInt < 2 ^ 63) :
    (a - b).toInt = a.toInt - b.toInt := by
  rw [Int64.toInt_sub, Int.bmod_eq_of_le (by omega) (by omega)]

/-! ## Positions -/

theorem position?_eq_some_iff
    {index : Int64} {size place : Nat} :
    position? index size = some place ↔
      index.toInt = place ∧ place < size := by
  unfold position?
  split
  · simp only [Option.some.injEq]
    omega
  · simp only [reduceCtorEq, false_iff]
    omega

end WindowMachine
