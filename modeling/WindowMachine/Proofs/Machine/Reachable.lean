import WindowMachine.Proofs.Machine.MemorySafety

/-!
# Reachable machines

A machine that can be built has few enough slots for all its frames to be
exact, so a history of modest methods leaves it safe for as long as it stays
open.  Closing is for good.  No history makes the method table grow, and one
that registers no method leaves the table as it is.
-/

namespace WindowMachine

/-- Whether a command registers modest methods only. -/
def Command.RegistersModest : Command → Prop
  | .setMethod _ method => method.Modest
  | .seed image => ∀ entry ∈ image.methods, entry.method.Modest
  | _ => True

/-- Whether a command leaves the method table alone. -/
def Command.LeavesMethods : Command → Prop
  | .setMethod _ _ | .seed _ | .close => False
  | _ => True

namespace Machine

variable {m start : Machine} {c : Capacities} {command : Command}
  {history : List Command}

/-! ## Construction -/

theorem new_eq_ok_iff :
    Machine.new c = .ok start ↔
      c.defect? = none ∧ c.breakdown? = none ∧ start = blank c := by
  unfold Machine.new
  cases c.defect? with
  | some defect =>
      simp
  | none =>
      cases c.breakdown? with
      | some breakdown =>
          simp
      | none =>
          simp [eq_comm]

theorem stack_le_exactSlots (standing : c.breakdown? = none) :
    c.stack.toInt ≤ Capacities.exactSlots := by
  have limit : Capacities.slotLimit.toInt = 2 ^ 46 := by decide
  have room : ¬ Capacities.slotLimit < c.stack := by
    intro beyond
    simp [Capacities.breakdown?, beyond] at standing
  rw [Int64.lt_iff_toInt_lt, limit] at room
  simp only [Capacities.exactSlots]
  omega

/-! ## Closing -/

theorem setMethod_closed {index : Int64} {method : Method}
    (closed : m.closed = true) :
    m.setMethod index method = .error (.plain .closed) := by
  simp [setMethod, closed]

theorem setGlobal_closed {index : Int64} {value : Int32}
    (closed : m.closed = true) :
    m.setGlobal index value = .error (.plain .closed) := by
  simp [setGlobal, closed]

theorem setSlot_closed {index : Int64} {bits : Slot}
    (closed : m.closed = true) :
    m.setSlot index bits = .error (.plain .closed) := by
  simp [setSlot, closed]

theorem next?_closed (closed : m.closed = true) : m.next? = none := by
  simp [next?, closed]

theorem obey_closed (closed : m.closed = true) :
    (m.obey command).closed = true := by
  cases command with
  | setMethod index method =>
      rw [obey, setMethod_closed closed]
      exact closed
  | setStack index value =>
      rw [obey, setStack, setSlot_closed closed]
      exact closed
  | setSlot index bits =>
      rw [obey, setSlot_closed closed]
      exact closed
  | setGlobal index value =>
      rw [obey, setGlobal_closed closed]
      exact closed
  | seed image =>
      refine @applyTo_keeps (fun n => n.closed = true) m image ?_ ?_ ?_
        closed
      · intro entry _ before n stays set
        rw [setMethod_closed stays] at set
        cases set
      · intro index value before n stays set
        rw [setGlobal_closed stays] at set
        cases set
      · intro index bits before n stays set
        rw [setSlot_closed stays] at set
        cases set
  | load code entry | adjust budget tracing sink =>
      exact closed
  | step =>
      simp [obey, step, closed]
  | run code entry =>
      simp [obey, run, closed, Run.refused]
  | proceed code entry =>
      simp [obey, proceed, closed, Run.refused]
  | reset =>
      simp [obey, reset, closed]
  | close =>
      rfl

/-! ## Safety until closing -/

theorem obey_closed_or_safe
    (usable : c.defect? = none)
    (exactly : c.stack.toInt ≤ Capacities.exactSlots)
    (modest : command.RegistersModest)
    (kept : m.closed = true ∨ m.Safe c) :
    (m.obey command).closed = true ∨ (m.obey command).Safe c := by
  rcases kept with closed | safe
  · exact .inl (obey_closed closed)
  · cases command with
    | close =>
        exact .inl rfl
    | _ =>
        exact .inr (safe.obey usable exactly modest)

theorem after_closed_or_safe
    (made : Machine.new c = .ok start)
    (modest : ∀ command ∈ history, command.RegistersModest) :
    (start.after history).closed = true ∨
      (start.after history).Safe c := by
  obtain ⟨usable, standing, rfl⟩ := new_eq_ok_iff.mp made
  have exactly := stack_le_exactSlots standing
  refine @after_keeps (fun n => n.closed = true ∨ n.Safe c) _ _ _ ?_ modest
    (.inr (blank_safe usable))
  intro before command allowed kept
  exact obey_closed_or_safe usable exactly allowed kept

/-- A reachable machine that fetches an instruction is open, and so it is
safe. -/
theorem safe_of_fetches {i : Instruction}
    (made : Machine.new c = .ok start)
    (modest : ∀ command ∈ history, command.RegistersModest)
    (fetches : (start.after history).next? = some i) :
    (start.after history).Safe c ∧
      c.stack.toInt ≤ Capacities.exactSlots := by
  refine ⟨?_, stack_le_exactSlots (new_eq_ok_iff.mp made).2.1⟩
  rcases after_closed_or_safe made modest with closed | safe
  · rw [next?_closed closed] at fetches
    cases fetches
  · exact safe

/-! ## The method table -/

@[simp]
theorem note_methods (line : TraceLine) :
    (m.note line).methods = m.methods := by
  unfold note
  split <;> rfl

@[simp]
theorem step_methods (m : Machine) : m.step.1.methods = m.methods := by
  rcases stepped : m.step with ⟨n, outcome⟩
  cases step_case stepped with
  | closed | finished | spent | unfetched =>
      rfl
  | faulted | broke =>
      simp
  | went | ended =>
      simp

@[simp]
theorem loop_methods (fuel : Nat) :
    (loop fuel m).machine.methods = m.methods := by
  refine @loop_keeps (fun n => n.methods = m.methods) m ?_ ?_ fuel rfl
  · intro before same
    rw [step_methods, same]
  · intro before line same
    rw [note_methods, same]

theorem resume_methods (code : Array Word) (entry : Int64) :
    (m.resume code entry).methods = m.methods := by
  simp only [resume]
  split <;> rfl

theorem setSlot_methods {index : Int64} {bits : Slot} {n : Machine}
    (set : m.setSlot index bits = .ok n) : n.methods = m.methods := by
  obtain ⟨-, place, -, rfl⟩ := setSlot_eq_ok_iff.mp set
  rfl

theorem setGlobal_methods {index : Int64} {value : Int32} {n : Machine}
    (set : m.setGlobal index value = .ok n) : n.methods = m.methods := by
  obtain ⟨-, place, -, rfl⟩ := setGlobal_eq_ok_iff.mp set
  rfl

theorem obey_methods (leaves : command.LeavesMethods) :
    (m.obey command).methods = m.methods := by
  cases command with
  | setMethod | seed | close =>
      exact leaves.elim
  | setStack index value =>
      exact @orKeep_keeps (fun n => n.methods = m.methods) m _ rfl
        fun _ set => setSlot_methods set
  | setSlot index bits =>
      exact @orKeep_keeps (fun n => n.methods = m.methods) m _ rfl
        fun _ set => setSlot_methods set
  | setGlobal index value =>
      exact @orKeep_keeps (fun n => n.methods = m.methods) m _ rfl
        fun _ set => setGlobal_methods set
  | load code entry | adjust budget tracing sink =>
      rfl
  | step =>
      exact step_methods m
  | run code entry =>
      simp only [obey, run]
      split
      · rfl
      · split
        · rfl
        · rw [loop_methods]
          rfl
  | proceed code entry =>
      simp only [obey, proceed]
      split
      · rfl
      · split
        · rfl
        · rw [loop_methods, resume_methods]
  | reset =>
      simp only [obey, reset]
      split <;> rfl

/-- A history that registers no method leaves the method table alone. -/
theorem after_methods
    (leaves : ∀ command ∈ history, command.LeavesMethods) :
    (m.after history).methods = m.methods := by
  refine @after_keeps (fun n => n.methods = m.methods) m _ _ ?_ leaves rfl
  intro before command allowed same
  rw [obey_methods allowed, same]

theorem setMethod_size {index : Int64} {method : Method} {n : Machine}
    (set : m.setMethod index method = .ok n) :
    n.methods.size = m.methods.size := by
  obtain ⟨-, -, place, -, rfl⟩ := setMethod_eq_ok_iff.mp set
  simp

theorem obey_methods_size :
    (m.obey command).methods.size ≤ m.methods.size := by
  cases command with
  | setMethod index method =>
      refine @orKeep_keeps (fun n => n.methods.size ≤ m.methods.size) m _
        (Nat.le_refl _) ?_
      intro n set
      exact Nat.le_of_eq (setMethod_size set)
  | seed image =>
      refine @applyTo_keeps (fun n => n.methods.size ≤ m.methods.size) m image
        ?_ ?_ ?_ (Nat.le_refl _)
      · intro entry _ before n kept set
        rwa [setMethod_size set]
      · intro index value before n kept set
        rwa [setGlobal_methods set]
      · intro index bits before n kept set
        rwa [setSlot_methods set]
  | close =>
      exact Nat.zero_le _
  | setStack | setSlot | setGlobal | load | step | run | proceed | reset
  | adjust =>
      exact Nat.le_of_eq (congrArg Array.size (obey_methods trivial))

/-- The method table of a reachable machine has no more entries than a
16-bit number can name. -/
theorem after_methods_size
    (made : Machine.new c = .ok start) (history : List Command) :
    (start.after history).methods.size ≤ 2 ^ 16 := by
  obtain ⟨usable, -, rfl⟩ := new_eq_ok_iff.mp made
  obtain ⟨-, -, ⟨-, methodsLe⟩, -⟩ :=
    Capacities.defect?_eq_none_iff.mp usable
  refine @after_keeps (fun n => n.methods.size ≤ 2 ^ 16) _ (fun _ => True)
    history ?_ ?_ ?_
  · intro before command _ kept
    exact Nat.le_trans obey_methods_size kept
  · intro command _
    exact trivial
  · simp only [blank, Array.size_replicate]
    omega

end Machine

end WindowMachine
