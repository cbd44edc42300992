import WindowMachine.Proofs.Machine.Effects

/-!
# Operations on data

Only calls look at the method table, and only calls and returns look at the
saved frames or at the next address.  All other operations work on the data of
a machine.
-/

namespace WindowMachine

/-- Whether an operation neither calls nor returns. -/
def Operation.worksOnData : Operation → Bool
  | .call | .ret => false
  | _ => true

/-- Whether an effect changes data and nothing else. -/
def Effect.changesData : Effect → Bool
  | .jump _ | .enter _ | .leave .. | .halt => false
  | _ => true

namespace Machine

/-- A machine reduced to its data: without a program, methods and callers, and
at the first address. -/
def data (m : Machine) : Machine :=
  { m with
    methods := #[]
    frame := { m.frame with pc := 0 }
    callers := #[]
    code := #[]
    steps := 0
    halted := false
    trace := #[] }

variable {m : Machine} {i : Instruction} {op : Operation} {e : Effect}

theorem operationEffect_data (works : op.worksOnData = true) :
    m.data.operationEffect i op = m.operationEffect i op := by
  cases op with
  | call | ret =>
      cases works
  | _ =>
      rfl

theorem calls_or_returns (other : op.worksOnData = false) :
    op = .call ∨ op = .ret := by
  cases op with
  | call =>
      exact .inl rfl
  | ret =>
      exact .inr rfl
  | _ =>
      cases other

theorem Admits.of_call (admits : m.Admits i .call e) :
    ∃ method callee, m.method? i.imm.toInt64 = some method ∧
      m.calleeFrame method = .ok callee ∧ e = .enter callee := by
  cases admits with
  | enter found fits =>
      exact ⟨_, _, found, fits, rfl⟩
  | idle kind =>
      rcases kind with kind | kind <;> cases kind
  | store kind | skip kind =>
      cases kind

theorem Admits.of_ret (admits : m.Admits i .ret e) :
    ∃ bits caller, m.readBits i.a = .ok bits ∧
      m.callers.back? = some caller ∧
        e = .leave caller (Slot.asInt bits) := by
  cases admits with
  | leave read back =>
      exact ⟨_, _, read, back, rfl⟩
  | idle kind =>
      rcases kind with kind | kind <;> cases kind
  | store kind | skip kind =>
      cases kind

@[simp]
theorem data_fetched (i : Instruction) : (m.fetched i).data = m.data := by
  rw [fetched_eq]
  rfl

theorem data_apply (changes : e.changesData = true) :
    (m.apply e).data = m.data.apply e := by
  cases e with
  | jump | enter | leave | halt =>
      cases changes
  | print value =>
      cases printed : m.sink with
      | keep | drop | refuse =>
          simp [apply, data, printed]
  | _ =>
      rfl

end Machine

end WindowMachine
