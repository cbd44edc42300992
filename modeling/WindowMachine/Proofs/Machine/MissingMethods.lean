import WindowMachine.Proofs.Machine.Data
import WindowMachine.Proofs.Machine.Seeding
import WindowMachine.Proofs.Machine.Stops
import WindowMachine.Proofs.Machine.Views

/-!
# Missing methods

Two machines that differ in their method tables take the same steps up to the
first call of an index for which the tables differ.  If the one lacks a method
there, it fails with this call for want of the method, and the other one does
not; nor will it ever fail for want of that method, for the table stays as it
is.  So a run shows whether the machine lacks a method that it calls.
-/

namespace WindowMachine

namespace Machine

variable {m : Machine} {i : Instruction} {e : Effect} {k : Int64}
  {fuel : Nat} (table : Array (Option Method))

/-! ## Another method table -/

/-- A machine with another method table. -/
def withMethods (m : Machine) (table : Array (Option Method)) : Machine :=
  { m with methods := table }

/-- Whether a machine has the same method at an index with another table. -/
def Agrees (m : Machine) (table : Array (Option Method)) (k : Int64) :
    Prop :=
  (m.withMethods table).method? k = m.method? k

theorem Agrees.congr {n : Machine} (methods : n.methods = m.methods)
    (agrees : m.Agrees table k) : n.Agrees table k := by
  rw [Agrees, method?_congr methods]
  exact agrees

theorem fetched_withMethods (i : Instruction) :
    (m.withMethods table).fetched i = (m.fetched i).withMethods table := by
  by_cases tracing : m.tracing = true
  · simp [fetched, note, advance, withMethods, depth, tracing]
  · simp [fetched, note, advance, withMethods, tracing]

theorem note_withMethods (line : TraceLine) :
    (m.withMethods table).note line = (m.note line).withMethods table := by
  by_cases tracing : m.tracing = true
  · simp [note, withMethods, tracing]
  · simp [note, withMethods, tracing]

theorem apply_withMethods (e : Effect) :
    (m.withMethods table).apply e = (m.apply e).withMethods table := by
  cases e with
  | print value =>
      cases printed : m.sink with
      | keep | drop | refuse =>
          simp [apply, withMethods, printed]
  | _ =>
      rfl

theorem effect_withMethods
    (agrees : Operation.ofByte? i.opcode = some .call →
      m.Agrees table i.imm.toInt64) :
    (m.withMethods table).effect i = m.effect i := by
  simp only [effect]
  cases known : Operation.ofByte? i.opcode with
  | none =>
      rfl
  | some op =>
      cases works : op.worksOnData with
      | true =>
          have other := operationEffect_data (m := m.withMethods table)
            (i := i) works
          have own := operationEffect_data (m := m) (i := i) works
          exact other.symm.trans own
      | false =>
          rcases calls_or_returns works with rfl | rfl
          · have same : (m.withMethods table).method? i.imm.toInt64 =
                m.method? i.imm.toInt64 := agrees known
            simp only [operationEffect, callEffect, same]
            rfl
          · rfl

/-- Where the tables agree on what is called, a step is the same with either
of them. -/
theorem step_withMethods
    (agrees : ∀ i, m.next? = some i →
      Operation.ofByte? i.opcode = some .call →
        m.Agrees table i.imm.toInt64) :
    (m.withMethods table).step = (m.step.1.withMethods table, m.step.2) := by
  cases fetches : m.next? with
  | none =>
      have alsoNothing : (m.withMethods table).next? = none := fetches
      rw [step_of_next?_none fetches, step_of_next?_none alsoNothing]
      rfl
  | some i =>
      have alsoFetches : (m.withMethods table).next? = some i := fetches
      have same : ((m.fetched i).withMethods table).effect i =
          (m.fetched i).effect i :=
        effect_withMethods table fun calls =>
          (agrees i fetches calls).congr table (fetched_methods m i)
      rw [step_eq_execute fetches, step_eq_execute alsoFetches, execute_eq,
        execute_eq, fetched_withMethods, same]
      cases (m.fetched i).effect i with
      | error cause =>
          rfl
      | ok e =>
          have broken : ((m.fetched i).withMethods table).breakdown? e =
              (m.fetched i).breakdown? e := by
            cases e with
            | _ =>
                rfl
          simp only [perform, broken, apply_withMethods]
          cases (m.fetched i).breakdown? e with
          | some b =>
              rfl
          | none =>
              rfl

/-! ## Calls of a run -/

/-- Whether a run of a machine with some fuel executes a call of an index. -/
def RunCalls (m : Machine) (fuel : Nat) (k : Int64) : Prop :=
  ∃ count < fuel, m.RunsOn count ∧
    ∃ i, (m.afterSteps count).next? = some i ∧
      Operation.ofByte? i.opcode = some .call ∧ i.imm.toInt64 = k

theorem runCalls_of_next? (fetches : m.next? = some i)
    (calls : Operation.ofByte? i.opcode = some .call) (fuel : Nat) :
    m.RunCalls (fuel + 1) i.imm.toInt64 :=
  ⟨0, Nat.succ_pos fuel, fun k below => absurd below (by omega), i, fetches,
    calls, rfl⟩

theorem RunCalls.of_step (goes : m.step.2 = .running)
    (calls : m.step.1.RunCalls fuel k) : m.RunCalls (fuel + 1) k := by
  obtain ⟨count, below, runs, i, fetches, calls, index⟩ := calls
  refine ⟨count + 1, by omega, ?_, i, fetches, calls, index⟩
  intro earlier within
  cases earlier with
  | zero =>
      exact goes
  | succ earlier =>
      exact runs earlier (by omega)

/-- A call of a run is its first instruction, or it comes later. -/
theorem RunCalls.cases (calls : m.RunCalls (fuel + 1) k) :
    (∃ i, m.next? = some i ∧ Operation.ofByte? i.opcode = some .call ∧
        i.imm.toInt64 = k) ∨
      m.step.2 = .running ∧ m.step.1.RunCalls fuel k := by
  obtain ⟨count, below, runs, i, fetches, calls, index⟩ := calls
  cases count with
  | zero =>
      exact .inl ⟨i, fetches, calls, index⟩
  | succ count =>
      right
      refine ⟨runs 0 (by omega), count, by omega, ?_, i, fetches, calls,
        index⟩
      exact fun earlier within => runs (earlier + 1) (by omega)

/-- Where the tables agree on all that is called, a run is the same with
either of them. -/
theorem loop_withMethods
    (agrees : ∀ k, m.RunCalls fuel k → m.Agrees table k) :
    loop fuel (m.withMethods table) =
      { loop fuel m with
        machine := (loop fuel m).machine.withMethods table } := by
  induction fuel generalizing m with
  | zero =>
      rfl
  | succ fuel inductionHypothesis =>
      have same := step_withMethods table (m := m) fun i fetches calls =>
        agrees _ (runCalls_of_next? fetches calls fuel)
      rcases stepped : m.step with ⟨n, outcome⟩
      rw [stepped] at same
      simp only [loop, same, stepped]
      cases outcome with
      | failed why =>
          simp only [note_withMethods]
          rfl
      | broke | ended =>
          rfl
      | running =>
          apply inductionHypothesis
          intro k calls
          have goes : m.step.2 = .running := by
            rw [stepped]
          have methods := step_methods m
          rw [stepped] at methods
          have earlier : m.RunCalls (fuel + 1) k :=
            RunCalls.of_step goes (by rw [stepped]; exact calls)
          exact (agrees k earlier).congr table methods

/-! ## Methods that are missing -/

theorem effect_eq_noMethod (failed : m.effect i = .error (.noMethod k)) :
    Operation.ofByte? i.opcode = some .call ∧ i.imm.toInt64 = k ∧
      m.method? k = none := by
  simp only [effect] at failed
  split at failed
  · rename_i op known
    by_cases calls : op = .call
    · subst calls
      rcases callEffect_error_cases failed with ⟨missing, same⟩ | possible
      · cases same
        exact ⟨known, rfl, missing⟩
      · cases possible
    · cases operationEffect_checks m i calls _ failed
  · cases failed

theorem step_of_missing (fetches : m.next? = some i)
    (calls : Operation.ofByte? i.opcode = some .call)
    (missing : m.method? i.imm.toInt64 = none) :
    m.step = (m.fetched i, .failed (.fault m.frame.pc i.opcode
      (.noMethod i.imm.toInt64))) := by
  have failed : (m.fetched i).effect i =
      .error (.noMethod i.imm.toInt64) := by
    simp [effect, calls, operationEffect, callEffect, missing]
  rw [step_eq_execute fetches, execute_eq, failed]

/-- A run that calls a method that is missing fails for want of it. -/
theorem loop_of_missing (calls : m.RunCalls fuel k)
    (missing : m.method? k = none) :
    ∃ pc op, (loop fuel m).ending =
      .failed (.fault pc op (.noMethod k)) := by
  induction fuel generalizing m with
  | zero =>
      obtain ⟨count, below, -⟩ := calls
      exact absurd below (Nat.not_lt_zero count)
  | succ fuel inductionHypothesis =>
      rcases calls.cases with ⟨i, fetches, known, rfl⟩ | ⟨goes, later⟩
      · rw [loop, step_of_missing fetches known missing]
        exact ⟨_, _, rfl⟩
      · have stillMissing : m.step.1.method? k = none := by
          rw [method?_congr (step_methods m), missing]
        obtain ⟨pc, op, ending⟩ := inductionHypothesis later stillMissing
        rcases stepped : m.step with ⟨n, outcome⟩
        rw [stepped] at goes ending
        obtain rfl : outcome = .running := goes
        refine ⟨pc, op, ?_⟩
        rw [loop, stepped]
        exact ending

/-- A run fails only for want of methods that are missing. -/
theorem missing_of_loop {pc : Int64} {op : UInt8}
    (ending : (loop fuel m).ending = .failed (.fault pc op (.noMethod k))) :
    m.method? k = none := by
  induction fuel generalizing m with
  | zero =>
      cases ending
  | succ fuel inductionHypothesis =>
      rcases stepped : m.step with ⟨n, outcome⟩
      rw [loop, stepped] at ending
      have methods := step_methods m
      rw [stepped] at methods
      cases step_case stepped with
      | closed | finished | spent | unfetched | broke | ended =>
          cases ending
      | faulted fetches failed =>
          cases ending
          have missing := (effect_eq_noMethod failed).2.2
          rwa [fetched_method?] at missing
      | went =>
          rw [← method?_congr methods]
          exact inductionHypothesis ending

section Lacking

variable {table}
  (lacks : ∀ k, m.Agrees table k ∨ (m.withMethods table).method? k = none)

include lacks

/-- A run that calls a method that another table lacks fails with that
table. -/
theorem loop_of_lacking (calls : m.RunCalls fuel k)
    (differs : ¬ m.Agrees table k) :
    ∃ k pc op, ¬ m.Agrees table k ∧
      (loop fuel (m.withMethods table)).ending =
        .failed (.fault pc op (.noMethod k)) := by
  induction fuel generalizing m with
  | zero =>
      obtain ⟨count, below, -⟩ := calls
      exact absurd below (Nat.not_lt_zero count)
  | succ fuel inductionHypothesis =>
      by_cases first : ∃ i, m.next? = some i ∧
          Operation.ofByte? i.opcode = some .call ∧
            ¬ m.Agrees table i.imm.toInt64
      · obtain ⟨i, fetches, known, differs⟩ := first
        have missing := (lacks i.imm.toInt64).resolve_left differs
        have alsoFetches : (m.withMethods table).next? = some i := fetches
        rw [loop, step_of_missing alsoFetches known missing]
        exact ⟨_, _, _, differs, rfl⟩
      · have same := step_withMethods table (m := m)
          fun i fetches known => Classical.byContradiction fun differs =>
            first ⟨i, fetches, known, differs⟩
        rcases calls.cases with ⟨i, fetches, known, rfl⟩ | ⟨goes, later⟩
        · exact absurd ⟨i, fetches, known, differs⟩ first
        · have methods := step_methods m
          obtain ⟨k, pc, op, differs, ending⟩ := inductionHypothesis
            (m := m.step.1) (fun k => (lacks k).imp
              (fun agrees => agrees.congr table methods) id) later
            fun agrees => differs (agrees.congr table methods.symm)
          refine ⟨k, pc, op,
            fun agrees => differs (agrees.congr table methods), ?_⟩
          rw [loop, same, goes]
          exact ending

/-- A run comes out the same with a table that lacks methods just in case it
calls none that are lacking. -/
theorem loop_ending_eq_iff :
    (loop fuel (m.withMethods table)).ending = (loop fuel m).ending ↔
      ∀ k, m.RunCalls fuel k → m.Agrees table k := by
  constructor
  · intro same k calls
    refine Classical.byContradiction fun differs => ?_
    obtain ⟨other, pc, op, differs, ending⟩ :=
      loop_of_lacking lacks calls differs
    rw [same] at ending
    have missing := missing_of_loop ending
    have alsoMissing := (lacks other).resolve_left differs
    exact differs (alsoMissing.trans missing.symm)
  · intro agrees
    rw [loop_withMethods table agrees]

end Lacking

end Machine

end WindowMachine
