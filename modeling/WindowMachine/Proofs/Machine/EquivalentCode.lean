import WindowMachine.Machine.Run
import WindowMachine.Proofs.Instruction.Phrases

/-!
# Code that runs alike

Code is equivalent to other code if each word has the opcode of the other one
and agrees with it in the operands of its operation.  A machine cannot tell
the two apart: at every step both fetch an instruction with the same effect,
and where tracing is on, both note down the same text.  By induction on the
fuel, whole runs are the same but for the code itself.
-/

namespace WindowMachine

/-- Code whose words are equivalent to those of other code, place by place. -/
structure EquivalentCode (code again : Array Word) : Prop where
  size : again.size = code.size
  words {place : Nat} {w v : Word} :
    code[place]? = some w → again[place]? = some v → w.Equivalent v

theorem Word.Equivalent.text {w v : Word} (alike : w.Equivalent v) :
    (Instruction.decode v).text = (Instruction.decode w).text :=
  Instruction.text_eq alike.opcode (Instruction.format_decode w)
    (Instruction.format_decode v) alike.operands

namespace Machine

variable {m n : Machine} {code again : Array Word}

/-! ## Two machines -/

/-- A machine that is the same as another one apart from its code; the traces
read the same. -/
structure SameButCode (m n : Machine) : Prop where
  rest : n = { m with code := n.code, trace := n.trace }
  trace : n.trace.map TraceLine.text = m.trace.map TraceLine.text

namespace SameButCode

theorem refl (m : Machine) : m.SameButCode m := ⟨rfl, rfl⟩

theorem resembles (same : m.SameButCode n) : m.Resembles n where
  capacities := by rw [same.rest]
  size := by rw [same.rest]
  globals := by rw [same.rest]
  methods := by rw [same.rest]
  frame := by rw [same.rest]
  callers := by rw [same.rest]
  result := by rw [same.rest]
  sink := by rw [same.rest]
  bits slot shown := by
    rw [same.rest]
    rfl

theorem steps (same : m.SameButCode n) : n.steps = m.steps := by
  rw [same.rest]

theorem closed (same : m.SameButCode n) : n.closed = m.closed := by
  rw [same.rest]

theorem halted (same : m.SameButCode n) : n.halted = m.halted := by
  rw [same.rest]

theorem spent (same : m.SameButCode n) : n.spent = m.spent := by
  rw [same.rest]
  rfl

theorem note (same : m.SameButCode n) {line other : TraceLine}
    (text : other.text = line.text) :
    (m.note line).SameButCode (n.note other) := by
  have tracing : n.tracing = m.tracing := by rw [same.rest]
  by_cases traced : m.tracing = true
  · simp only [Machine.note, tracing, traced, if_true]
    refine ⟨?_, ?_⟩
    · rw [same.rest]
    · simp [same.trace, text]
  · simpa [Machine.note, tracing, traced] using same

theorem advance (same : m.SameButCode n) :
    m.advance.SameButCode n.advance where
  rest := by
    rw [same.rest]
    rfl
  trace := same.trace

theorem fetched (same : m.SameButCode n) {i j : Instruction}
    (text : j.text = i.text) : (m.fetched i).SameButCode (n.fetched j) := by
  have advanced := same.advance.resembles
  have depth : n.advance.depth = m.advance.depth :=
    congrArg Array.size advanced.callers
  apply same.advance.note
  simp only [TraceLine.text, text, same.resembles.frame, advanced.frame,
    depth]

theorem apply (same : m.SameButCode n) (e : Effect) :
    (m.apply e).SameButCode (n.apply e) := by
  refine ⟨?_, ?_⟩
  · rw [apply_code, apply_trace]
    cases e with
    | print value =>
        rw [same.rest]
        simp only [Machine.apply]
        split <;> rfl
    | _ =>
        rw [same.rest]
        rfl
  · rw [apply_trace, apply_trace]
    exact same.trace

end SameButCode

/-! ## Steps -/

/-- Two machines with equivalent code that are the same otherwise. -/
structure InTandem (m n : Machine) : Prop where
  same : m.SameButCode n
  code : EquivalentCode m.code n.code

namespace InTandem

variable (tandem : m.InTandem n)

include tandem

theorem wordAt? (pc : Int64) :
    m.wordAt? pc = none ∧ n.wordAt? pc = none ∨
      ∃ w v, m.wordAt? pc = some w ∧ n.wordAt? pc = some v ∧
        w.Equivalent v := by
  simp only [Machine.wordAt?, tandem.code.size]
  cases held : position? pc m.code.size with
  | none =>
      exact .inl ⟨rfl, rfl⟩
  | some place =>
      have inside := (position?_eq_some_iff.mp held).2
      have alsoInside : place < n.code.size := by
        rw [tandem.code.size]
        exact inside
      have found := Array.getElem?_eq_getElem inside
      have alsoFound := Array.getElem?_eq_getElem alsoInside
      exact .inr ⟨_, _, found, alsoFound, tandem.code.words found alsoFound⟩

theorem opcodeAt (pc : Int64) : n.opcodeAt pc = m.opcodeAt pc := by
  rcases tandem.wordAt? pc with ⟨nothing, alsoNothing⟩ |
    ⟨w, v, found, alsoFound, alike⟩
  · simp [Machine.opcodeAt, nothing, alsoNothing]
  · simp [Machine.opcodeAt, found, alsoFound, alike.opcode]

theorem unexecuted : n.unexecuted = m.unexecuted := by
  have same := tandem.same
  simp only [Machine.unexecuted, same.closed, same.halted, same.spent,
    same.steps, same.resembles.frame, tandem.opcodeAt, tandem.code.size]

/-- Both machines fetch equivalent words, or neither fetches any. -/
theorem next? :
    m.next? = none ∧ n.next? = none ∨
      ∃ w v, m.next? = some (Instruction.decode w) ∧
        n.next? = some (Instruction.decode v) ∧ w.Equivalent v := by
  have same := tandem.same
  simp only [Machine.next?, same.closed, same.halted, same.spent,
    same.resembles.frame]
  by_cases stopped :
      m.closed = true ∨ m.halted = true ∨ m.spent = true
  · simp [stopped]
  · simp only [stopped, if_false]
    rcases tandem.wordAt? m.frame.pc with ⟨nothing, alsoNothing⟩ |
      ⟨w, v, found, alsoFound, alike⟩
    · simp [nothing, alsoNothing]
    · exact .inr ⟨w, v, by simp [found], by simp [alsoFound], alike⟩

/-- One step keeps two machines in tandem and comes out the same on both. -/
theorem step : n.step.2 = m.step.2 ∧ m.step.1.InTandem n.step.1 := by
  rcases tandem.next? with ⟨nothing, alsoNothing⟩ |
    ⟨w, v, fetches, alsoFetches, alike⟩
  · rw [step_of_next?_none nothing, step_of_next?_none alsoNothing]
    exact ⟨tandem.unexecuted, tandem⟩
  · have fetched := tandem.same.fetched alike.text
    obtain ⟨outcome, stopped | ⟨e, -, applied, alsoApplied⟩⟩ :=
      step_alongside fetches alsoFetches fetched.resembles alike.opcode
        alike.operands
    · refine ⟨outcome, ?_⟩
      rw [stopped.1, stopped.2]
      exact ⟨fetched, by simpa using tandem.code⟩
    · refine ⟨outcome, ?_⟩
      rw [applied, alsoApplied]
      exact ⟨fetched.apply e, by simpa using tandem.code⟩

end InTandem

/-! ## Runs -/

/-- Runs with the same count and the same ending, which leave the same
machine behind apart from its code. -/
structure SameRun (r s : Run) : Prop where
  count : s.count = r.count
  ending : s.ending = r.ending
  machine : r.machine.SameButCode s.machine

theorem loop_sameRun (tandem : m.InTandem n) (fuel : Nat) :
    SameRun (loop fuel m) (loop fuel n) := by
  induction fuel generalizing m n with
  | zero =>
      exact ⟨tandem.same.steps, rfl, tandem.same⟩
  | succ fuel inductionHypothesis =>
      obtain ⟨outcome, stepped⟩ := tandem.step
      simp only [loop]
      cases first : m.step with
      | mk before result =>
          cases second : n.step with
          | mk after other =>
              rw [first, second] at stepped outcome
              -- Both steps come out the same, so both runs take one branch.
              obtain rfl : other = result := outcome
              have same := stepped.same
              cases other with
              | failed why =>
                  have noted : (before.note (.aborted why)).SameButCode
                      (after.note (.aborted why)) := same.note rfl
                  exact ⟨same.steps, rfl, noted⟩
              | broke b =>
                  exact ⟨same.steps, rfl, same⟩
              | ended =>
                  exact ⟨same.steps, rfl, same⟩
              | running =>
                  exact inductionHypothesis stepped

/-- Equivalent code runs alike on every machine, from every address. -/
theorem run_sameRun (alike : EquivalentCode code again) (m : Machine)
    (entry : Int64) : SameRun (m.run code entry) (m.run again entry) := by
  have loaded : (m.load code entry).InTandem (m.load again entry) :=
    ⟨⟨rfl, rfl⟩, alike⟩
  have empty : again.isEmpty = code.isEmpty := by
    simp only [Array.isEmpty, alike.size]
  simp only [run, empty]
  split
  · exact ⟨rfl, rfl, .refl m⟩
  · split
    · exact ⟨rfl, rfl, .refl m⟩
    · exact loop_sameRun loaded m.patience

end Machine

end WindowMachine
