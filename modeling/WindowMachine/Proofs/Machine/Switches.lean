import WindowMachine.Proofs.Machine.History
import WindowMachine.Proofs.Machine.Stops

/-!
# Switches

The budget of a machine, its tracing and its sink stay as they are whatever
the machine is told, unless it is told to adjust them.
-/

namespace WindowMachine

namespace Machine

variable {m n : Machine} {command : Command}

/-- What is not changed but by adjusting a machine. -/
def switches (m : Machine) : Int64 × Bool × Sink :=
  (m.budget, m.tracing, m.sink)

@[simp]
theorem note_switches (line : TraceLine) :
    (m.note line).switches = m.switches := by
  unfold note
  split <;> rfl

@[simp]
theorem apply_switches (m : Machine) (e : Effect) :
    (m.apply e).switches = m.switches := by
  rw [apply_eq]
  rfl

@[simp]
theorem fetched_switches (m : Machine) (i : Instruction) :
    (m.fetched i).switches = m.switches := by
  rw [fetched_eq]
  rfl

theorem step_switches (m : Machine) : m.step.1.switches = m.switches := by
  rcases stepped : m.step with ⟨n, outcome⟩
  cases step_case stepped with
  | closed | finished | spent | unfetched =>
      rfl
  | faulted | broke | went | ended =>
      simp

theorem loop_switches (fuel : Nat) :
    (loop fuel m).machine.switches = m.switches := by
  refine @loop_keeps (fun n => n.switches = m.switches) m ?_ ?_ fuel rfl
  · intro before same
    rw [step_switches, same]
  · intro before line same
    rw [note_switches, same]

theorem resume_switches (code : Array Word) (entry : Int64) :
    (m.resume code entry).switches = m.switches := by
  simp only [resume]
  split <;> rfl

theorem setMethod_switches {index : Int64} {method : Method}
    (set : m.setMethod index method = .ok n) : n.switches = m.switches := by
  obtain ⟨-, -, place, -, rfl⟩ := setMethod_eq_ok_iff.mp set
  rfl

theorem setSlot_switches {index : Int64} {bits : Slot}
    (set : m.setSlot index bits = .ok n) : n.switches = m.switches := by
  obtain ⟨-, place, -, rfl⟩ := setSlot_eq_ok_iff.mp set
  rfl

theorem setGlobal_switches {index : Int64} {value : Int32}
    (set : m.setGlobal index value = .ok n) : n.switches = m.switches := by
  obtain ⟨-, place, -, rfl⟩ := setGlobal_eq_ok_iff.mp set
  rfl

theorem obey_switches
    (notAdjust : ∀ budget tracing sink,
      command ≠ .adjust budget tracing sink) :
    (m.obey command).switches = m.switches := by
  cases command with
  | setMethod index method =>
      exact @orKeep_keeps (fun n => n.switches = m.switches) m _ rfl
        fun _ set => setMethod_switches set
  | setStack index value | setSlot index bits =>
      exact @orKeep_keeps (fun n => n.switches = m.switches) m _ rfl
        fun _ set => setSlot_switches set
  | setGlobal index value =>
      exact @orKeep_keeps (fun n => n.switches = m.switches) m _ rfl
        fun _ set => setGlobal_switches set
  | seed image =>
      exact @applyTo_keeps (fun n => n.switches = m.switches) m image
        (fun _ _ _ _ same set => (setMethod_switches set).trans same)
        (fun _ _ _ _ same set => (setGlobal_switches set).trans same)
        (fun _ _ _ _ same set => (setSlot_switches set).trans same) rfl
  | load code entry | close =>
      rfl
  | step =>
      exact step_switches m
  | run code entry =>
      simp only [obey, run]
      split
      · rfl
      · split
        · rfl
        · rw [loop_switches]
          rfl
  | proceed code entry =>
      simp only [obey, proceed]
      split
      · rfl
      · split
        · rfl
        · rw [loop_switches, resume_switches]
  | reset =>
      simp only [obey, reset]
      split <;> rfl
  | adjust budget tracing sink =>
      exact absurd rfl (notAdjust budget tracing sink)

end Machine

end WindowMachine
