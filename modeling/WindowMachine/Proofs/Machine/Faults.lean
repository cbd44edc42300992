import WindowMachine.Proofs.Machine.Returns

/-!
# How instructions fail

A step fails before its instruction or with it.  Before it, the budget may be
used up, or the next address may lie outside of the program.  With it, one of
the checks of its operation has failed, and an operation has only some of
them.
-/

namespace WindowMachine

namespace Failure

/-- Whether a failure says that no instruction was fetched. -/
def beforeFetch : Failure → Bool
  | .fault _ _ (.budget _) | .fault _ _ (.fetch ..) => true
  | _ => false

/-- Whether an instruction can fail in some way. -/
def ofInstruction : Failure → Bool
  | .plain .divisionByZero | .plain .callStackUnderflow
  | .register .. | .globalOperand .. | .arguments .. | .window ..
  | .depth _ | .push .. | .pop _ | .noMethod _ | .opcode _
  | .output _ => true
  | _ => false

/-- Whether an operation can fail in some way on a machine with a place for
its output. -/
def ofOperation (sink : Sink) : Failure → Bool
  | .plain .divisionByZero | .plain .callStackUnderflow
  | .register .. | .globalOperand .. | .arguments .. | .window ..
  | .depth _ | .push .. | .pop _ | .noMethod _ => true
  | .output reason => sink = .refuse reason
  | _ => false

/-- Whether an operation can fail in some way that has nothing to do with the
method table. -/
def ofCheck (sink : Sink) : Failure → Bool
  | .noMethod _ => false
  | cause => cause.ofOperation sink

theorem ofOperation_of_ofCheck {cause : Failure} {sink : Sink}
    (possible : cause.ofCheck sink = true) :
    cause.ofOperation sink = true := by
  cases cause with
  | noMethod =>
      rfl
  | _ =>
      exact possible

theorem ofInstruction_of_ofOperation {cause : Failure} {sink : Sink}
    (possible : cause.ofOperation sink = true) :
    cause.ofInstruction = true := by
  cases cause with
  | plain condition =>
      cases condition with
      | divisionByZero | callStackUnderflow =>
          rfl
      | _ =>
          cases possible
  | register | globalOperand | arguments | window | depth | push | pop
  | noMethod | output =>
      rfl
  | _ =>
      cases possible

theorem beforeFetch_of_ofInstruction {cause : Failure} {pc : Int64}
    {op : UInt8} (possible : cause.ofInstruction = true) :
    (Failure.fault pc op cause).beforeFetch = false := by
  cases cause with
  | budget | fetch =>
      cases possible
  | _ =>
      rfl

end Failure

namespace Machine

variable {m : Machine} {i : Instruction} {cause : Failure}

/-! ## Checks -/

/-- Whether a check of an operation fails in ways that an operation can fail
in, whatever methods there are. -/
abbrev Checks (sink : Sink) {α : Type} (result : Except Failure α) : Prop :=
  FailsOnly (fun cause => cause.ofCheck sink = true) result

theorem locate_checks (m : Machine) (r : UInt8) :
    Checks m.sink (m.locate r) := by
  simp only [locate]
  split
  · split
    · exact failsOnly_ok _
    · exact failsOnly_error rfl
  · exact failsOnly_error rfl

theorem readBits_checks (m : Machine) (r : UInt8) :
    Checks m.sink (m.readBits r) :=
  (locate_checks m r).bind fun _ => failsOnly_ok _

theorem locateGlobal_checks (m : Machine) (index : Int32) :
    Checks m.sink (m.locateGlobal index) := by
  simp only [locateGlobal]
  split
  · exact failsOnly_ok _
  · exact failsOnly_error rfl

theorem calleeFrame_checks (m : Machine) (method : Method) :
    Checks m.sink (m.calleeFrame method) := by
  simp only [calleeFrame]
  split
  · exact failsOnly_error rfl
  · split
    · exact failsOnly_error rfl
    · split
      · exact failsOnly_error rfl
      · exact failsOnly_ok _

theorem onIntsChecked_checks {sink : Sink}
    {f : Int32 → Int32 → Except Failure Int32}
    (divides : ∀ a b, Checks sink (f a b)) (a b : Slot) :
    Checks sink (onIntsChecked f a b) :=
  (divides _ _).bind fun _ => failsOnly_ok _

theorem intDiv_checks {sink : Sink} (a b : Int32) :
    Checks sink (intDiv a b) := by
  simp only [intDiv]
  split
  · exact failsOnly_error rfl
  · exact failsOnly_ok _

theorem intMod_checks {sink : Sink} (a b : Int32) :
    Checks sink (intMod a b) := by
  simp only [intMod]
  split
  · exact failsOnly_error rfl
  · exact failsOnly_ok _

theorem fromTwo_checks (m : Machine) (i : Instruction)
    {f : Slot → Slot → Except Failure Slot}
    (works : ∀ a b, Checks m.sink (f a b)) :
    Checks m.sink (m.fromTwo i f) :=
  (locate_checks m _).bind fun _ =>
    (readBits_checks m _).bind fun _ =>
      (readBits_checks m _).bind fun _ =>
        (works _ _).bind fun _ => failsOnly_ok _

theorem fromOne_checks (m : Machine) (i : Instruction) (f : Slot → Slot) :
    Checks m.sink (m.fromOne i f) :=
  (locate_checks m _).bind fun _ =>
    (readBits_checks m _).bind fun _ => failsOnly_ok _

theorem update_checks (m : Machine) (i : Instruction)
    {f : Slot → Except Failure Slot} (works : ∀ a, Checks m.sink (f a)) :
    Checks m.sink (m.update i f) :=
  (locate_checks m _).bind fun _ =>
    (works _).bind fun _ => failsOnly_ok _

theorem skipIf_checks (m : Machine) (i : Instruction)
    (holds : Int32 → Int32 → Bool) : Checks m.sink (m.skipIf i holds) :=
  (readBits_checks m _).bind fun _ =>
    (readBits_checks m _).bind fun _ => failsOnly_ok _

theorem operationEffect_checks (m : Machine) (i : Instruction)
    {op : Operation} (noCall : op ≠ .call) :
    Checks m.sink (m.operationEffect i op) := by
  cases op with
  | add | sub | mul | exp | fadd | fsub | fmul | fdiv | fmod | fexp =>
      exact fromTwo_checks m i fun _ _ => failsOnly_ok _
  | div =>
      exact fromTwo_checks m i (onIntsChecked_checks intDiv_checks)
  | mod =>
      exact fromTwo_checks m i (onIntsChecked_checks intMod_checks)
  | sqrt | fsqrt | mov =>
      exact fromOne_checks m i _
  | addImm | subImm | mulImm | expImm | sqrtImm | moveImm | loadRet =>
      simp only [operationEffect]
      apply update_checks
      intro bits
      exact failsOnly_ok _
  | divImm =>
      simp only [operationEffect]
      apply update_checks
      intro bits
      exact onIntsChecked_checks intDiv_checks _ _
  | modImm =>
      simp only [operationEffect]
      apply update_checks
      intro bits
      exact onIntsChecked_checks intMod_checks _ _
  | cmp | gt | gte =>
      simp only [operationEffect]
      exact skipIf_checks m i _
  | push =>
      refine (readBits_checks m _).bind fun bits => ?_
      dsimp only
      split
      · exact failsOnly_ok _
      · exact failsOnly_error rfl
  | pop =>
      refine (locate_checks m _).bind fun target => ?_
      split
      · exact failsOnly_ok _
      · exact failsOnly_error rfl
  | loadGlobal =>
      exact (locate_checks m _).bind fun _ =>
        (locateGlobal_checks m _).bind fun _ => failsOnly_ok _
  | setGlobal =>
      exact (readBits_checks m _).bind fun _ =>
        (locateGlobal_checks m _).bind fun _ => failsOnly_ok _
  | jumpIf =>
      exact (readBits_checks m _).bind fun _ => failsOnly_ok _
  | jump | halt =>
      exact failsOnly_ok _
  | call =>
      exact absurd rfl noCall
  | ret =>
      refine (readBits_checks m _).bind fun bits => ?_
      split
      · exact failsOnly_ok _
      · exact failsOnly_error rfl
  | print =>
      refine (readBits_checks m _).bind fun bits => ?_
      split
      · rename_i refuses
        exact failsOnly_error
          (by simp [Failure.ofCheck, Failure.ofOperation, refuses])
      · exact failsOnly_ok _

/-- A call fails because its method is missing, or in ways that have nothing
to do with the method table. -/
theorem callEffect_error_cases {index : Int64}
    (failed : m.callEffect index = .error cause) :
    (m.method? index = none ∧ cause = .noMethod index) ∨
      cause.ofCheck m.sink = true := by
  simp only [callEffect] at failed
  split at failed
  · cases failed
    exact .inl ⟨‹_›, rfl⟩
  · right
    exact FailsOnly.bind (calleeFrame_checks m _)
      (fun _ => failsOnly_ok _) cause failed

theorem operationEffect_fails (m : Machine) (i : Instruction)
    (op : Operation) :
    FailsOnly (fun cause => cause.ofOperation m.sink = true)
      (m.operationEffect i op) := by
  intro cause failed
  by_cases calls : op = .call
  · rw [calls] at failed
    rcases callEffect_error_cases failed with ⟨-, rfl⟩ | possible
    · rfl
    · exact Failure.ofOperation_of_ofCheck possible
  · exact Failure.ofOperation_of_ofCheck
      (operationEffect_checks m i calls cause failed)

/-- An instruction fails because it has no operation, or as its operation
does. -/
theorem effect_error_cases (failed : m.effect i = .error cause) :
    (Operation.ofByte? i.opcode = none ∧ cause = .opcode i.opcode) ∨
      ∃ op, Operation.ofByte? i.opcode = some op ∧
        cause.ofOperation m.sink = true := by
  simp only [effect] at failed
  split at failed
  · rename_i op known
    exact .inr ⟨op, known, operationEffect_fails m i op cause failed⟩
  · cases failed
    exact .inl ⟨‹_›, rfl⟩

theorem effect_checks (m : Machine) (i : Instruction) :
    FailsOnly (fun cause => cause.ofInstruction = true) (m.effect i) := by
  intro cause failed
  rcases effect_error_cases failed with ⟨-, rfl⟩ | ⟨op, -, possible⟩
  · rfl
  · exact Failure.ofInstruction_of_ofOperation possible

/-! ## The address after an instruction -/

/-- The address of a fetched instruction is not the last number, so the next
address is one more. -/
theorem toInt_next_pc (fetches : m.next? = some i)
    (size : m.code.size < 2 ^ 63) :
    (m.frame.pc + 1).toInt = m.frame.pc.toInt + 1 := by
  unfold next? at fetches
  split at fetches
  · cases fetches
  · obtain ⟨w, found, -⟩ := Option.map_eq_some_iff.mp fetches
    obtain ⟨place, inside, -⟩ := Option.bind_eq_some_iff.mp found
    obtain ⟨index, below⟩ := position?_eq_some_iff.mp inside
    exact toInt_add_of_fits (by rw [index]; exact Int.le_add_one (by omega))
      (by rw [index]; change (place : Int) + 1 < _; omega)

end Machine

end WindowMachine
