import WindowMachine.Proofs.Machine.Data
import WindowMachine.Proofs.Machine.Returns
import WindowMachine.Proofs.Machine.Verdicts

/-!
# Code that is moved

All jumps are relative, so code can stand anywhere in a program as long as the
entries of the methods and the saved addresses move with it.  A machine that
runs the code where it stood before and one that runs it further on take the
same steps, up to the distance between their addresses.

This holds as long as the first machine stays inside of its code.  In front of
an address outside of it that machine stops, where the other one may find
further words, so the main result is about runs that come to their end.
-/

namespace WindowMachine

/-! ## Moving -/

/-- A frame that continues further on. -/
def Frame.moved (f : Frame) (shift : Int64) : Frame :=
  { f with pc := f.pc + shift }

/-- A method that starts further on. -/
def Method.moved (method : Method) (shift : Int64) : Method :=
  { method with entry := method.entry + shift }

def Effect.moved (shift : Int64) : Effect → Effect
  | .enter callee => .enter (callee.moved shift)
  | .leave caller value => .leave (caller.moved shift) value
  | e => e

/-! ## Addresses -/

theorem add_shift_comm (pc shift offset : Int64) :
    pc + shift + offset = pc + offset + shift := by
  rw [Int64.add_assoc, Int64.add_comm shift, Int64.add_assoc]

theorem toInt_add_size {pc : Int64} {size : Nat} (lower : 0 ≤ pc.toInt)
    (upper : pc.toInt + size < 2 ^ 63) :
    (pc + Int64.ofNat size).toInt = pc.toInt + size := by
  have small : (Int64.ofNat size).toInt = size :=
    Int64.toInt_ofNat_of_lt (by omega)
  rw [toInt_add_of_fits (by omega) (by omega), small]

/-- Whether a frame continues in some code or right behind it. -/
structure Frame.ContinuesIn (f : Frame) (code : Array Word) : Prop where
  lower : 0 ≤ f.pc.toInt
  upper : f.pc.toInt ≤ code.size

/-- Whether one frame is another one that continues `shift` words further
on. -/
structure Frame.Further (shift : Nat) (f g : Frame) : Prop where
  base : g.base = f.base
  top : g.top = f.top
  limit : g.limit = f.limit
  pc : g.pc.toInt = f.pc.toInt + shift

/-- A frame that continues in some code continues further on without wrapping
around. -/
theorem Frame.ContinuesIn.further {f : Frame} {before code : Array Word}
    (inside : f.ContinuesIn code)
    (addressable : before.size + code.size < 2 ^ 63) :
    f.Further before.size (f.moved (Int64.ofNat before.size)) where
  base := rfl
  top := rfl
  limit := rfl
  pc := by
    have upper := inside.upper
    exact toInt_add_size inside.lower (by omega)

/-- Whether one run is another one that was made `shift` words further on. -/
structure Run.Further (shift : Nat) (r s : Run) : Prop where
  ending : s.ending = r.ending
  count : s.count = r.count
  output : s.machine.output = r.machine.output
  stack : s.machine.stack = r.machine.stack
  globals : s.machine.globals = r.machine.globals
  result : s.machine.result = r.machine.result
  frame : r.machine.frame.Further shift s.machine.frame
  depth : s.machine.depth = r.machine.depth
  callers (level : Nat) (f g : Frame) :
    r.machine.callers[level]? = some f →
    s.machine.callers[level]? = some g → f.Further shift g

namespace Machine

/-- A machine all of whose methods start further on. -/
def withMethodsMoved (m : Machine) (shift : Int64) : Machine :=
  { m with methods := m.methods.map (Option.map (·.moved shift)) }

/-- A machine that runs other code, at addresses further on. -/
def moved (m : Machine) (shift : Int64) (code : Array Word)
    (trace : Array TraceLine) : Machine :=
  { m with
    methods := m.methods.map (Option.map (·.moved shift))
    frame := m.frame.moved shift
    callers := m.callers.map (·.moved shift)
    code := code
    trace := trace }

section Moved

variable {m : Machine} {i : Instruction} {op : Operation} {e : Effect}
  (shift : Int64) (code : Array Word) (trace : Array TraceLine)

/-! ## Effects -/

theorem method?_moved (index : Int64) :
    (m.moved shift code trace).method? index =
      (m.method? index).map (·.moved shift) := by
  simp only [method?, moved, Array.size_map, Array.getElem?_map]
  cases position? index m.methods.size with
  | none =>
      rfl
  | some place =>
      exact Option.join_map_eq_map_join

theorem calleeFrame_moved {method : Method} {callee : Frame}
    (fits : m.calleeFrame method = .ok callee) :
    (m.moved shift code trace).calleeFrame (method.moved shift) =
      .ok (callee.moved shift) := by
  obtain ⟨base, top, room, rfl⟩ := calleeFrame_eq_ok_iff.mp fits
  apply calleeFrame_eq_ok_iff.mpr
  refine ⟨base, top, ?_, rfl⟩
  simpa [moved] using room

theorem Admits.moved_eq (admits : m.Admits i op e)
    (works : op.worksOnData = true) : e.moved shift = e := by
  cases admits with
  | enter | leave =>
      cases works
  | _ =>
      rfl

/-- A moved machine works out the same effect, but for the addresses. -/
theorem operationEffect_moved (worked : m.operationEffect i op = .ok e) :
    (m.moved shift code trace).operationEffect i op =
      .ok (e.moved shift) := by
  have admits := operationEffect_admits worked
  cases works : op.worksOnData with
  | true =>
      rw [← operationEffect_data works] at worked ⊢
      rw [admits.moved_eq shift works]
      exact worked
  | false =>
      rcases calls_or_returns works with rfl | rfl
      · obtain ⟨method, callee, found, fits, rfl⟩ := admits.of_call
        simp only [operationEffect, callEffect, method?_moved, found,
          Option.map_some, calleeFrame_moved shift code trace fits]
        rfl
      · obtain ⟨bits, caller, read, back, rfl⟩ := admits.of_ret
        have alsoRead : (m.moved shift code trace).readBits i.a = .ok bits :=
          read
        have alsoBack : (m.moved shift code trace).callers.back? =
            some (caller.moved shift) := by
          simp [moved, Array.back?_map, back]
        simp only [operationEffect, returnEffect, alsoRead, alsoBack]
        rfl

theorem effect_moved (worked : m.effect i = .ok e) :
    (m.moved shift code trace).effect i = .ok (e.moved shift) := by
  obtain ⟨op, known, worked⟩ := effect_eq_ok_iff.mp worked
  exact effect_eq_ok_iff.mpr
    ⟨op, known, operationEffect_moved shift code trace worked⟩

theorem breakdown?_moved (e : Effect) :
    (m.moved shift code trace).breakdown? (e.moved shift) =
      m.breakdown? e := by
  cases e with
  | _ =>
      rfl

theorem apply_moved (e : Effect) :
    (m.moved shift code trace).apply (e.moved shift) =
      (m.apply e).moved shift code trace := by
  cases e with
  | jump offset =>
      have pc := add_shift_comm m.frame.pc shift offset
      simp [apply, Effect.moved, moved, Frame.moved, pc]
  | enter callee =>
      simp [apply, Effect.moved, moved, Frame.moved]
  | leave caller value =>
      simp [apply, Effect.moved, moved]
  | print value =>
      cases printed : m.sink with
      | keep | drop | refuse =>
          simp [apply, Effect.moved, moved, printed]
  | _ =>
      rfl

/-! ## Steps -/

theorem fetched_moved (i : Instruction) :
    ∃ later, (m.moved shift code trace).fetched i =
      (m.fetched i).moved shift code later := by
  have pc := add_shift_comm m.frame.pc shift 1
  refine ⟨((m.moved shift code trace).fetched i).trace, ?_⟩
  rw [fetched_eq, fetched_eq m]
  simp [moved, Frame.moved, pc]

end Moved

section Placed

variable {m : Machine} {i : Instruction} (before after : Array Word)
  (trace : Array TraceLine)

/-- A machine whose code has other code before and behind it. -/
def placed (m : Machine) : Machine :=
  m.moved (Int64.ofNat before.size) (before ++ m.code ++ after) trace

theorem wordAt?_placed {pc : Int64} {w : Word}
    (addressable : before.size + m.code.size < 2 ^ 63)
    (found : m.wordAt? pc = some w) :
    (m.placed before after trace).wordAt?
      (pc + Int64.ofNat before.size) = some w := by
  obtain ⟨place, index, found⟩ := wordAt?_eq_some_iff.mp found
  have inside := (Array.getElem?_eq_some_iff.mp found).1
  have lower : 0 ≤ pc.toInt := by omega
  have upper : pc.toInt + before.size < 2 ^ 63 := by omega
  have further := toInt_add_size lower upper
  apply wordAt?_eq_some_iff.mpr
  refine ⟨before.size + place, by omega, ?_⟩
  simp only [placed, moved, Array.append_assoc]
  rw [Array.getElem?_append_right (by omega), Nat.add_sub_cancel_left,
    Array.getElem?_append_left inside, found]

theorem next?_placed (addressable : before.size + m.code.size < 2 ^ 63)
    (fetches : m.next? = some i) :
    (m.placed before after trace).next? = some i := by
  unfold next? at fetches ⊢
  split at fetches
  · cases fetches
  · rename_i ready
    obtain ⟨w, found, rfl⟩ := Option.map_eq_some_iff.mp fetches
    have alsoReady : ¬ ((m.placed before after trace).closed = true ∨
        (m.placed before after trace).halted = true ∨
          (m.placed before after trace).spent = true) := ready
    rw [if_neg alsoReady]
    exact congrArg _ (wordAt?_placed before after trace addressable found)

/-- A step that executes an instruction is the same further on. -/
theorem step_placed (addressable : before.size + m.code.size < 2 ^ 63)
    (fetches : m.next? = some i)
    (goes : m.step.2 = .running ∨ m.step.2 = .ended) :
    ∃ later, (m.placed before after trace).step =
      (m.step.1.placed before after later, m.step.2) := by
  obtain ⟨later, fetched⟩ := fetched_moved (m := m)
    (Int64.ofNat before.size) (before ++ m.code ++ after) trace i
  have alsoFetches := next?_placed before after trace addressable fetches
  refine ⟨later, ?_⟩
  rw [step_eq_execute fetches, execute_eq] at goes ⊢
  rw [step_eq_execute alsoFetches, execute_eq, placed, fetched]
  cases worked : (m.fetched i).effect i with
  | error cause =>
      simp [worked] at goes
  | ok e =>
      rw [effect_moved _ _ _ worked]
      simp only [worked, perform] at goes
      simp only [perform, breakdown?_moved, apply_moved]
      cases broken : (m.fetched i).breakdown? e with
      | some b =>
          simp [broken] at goes
      | none =>
          simp only [placed, apply_code, fetched_code]
          rfl

end Placed

/-! ## Runs that come to their end -/

section Runs

variable {m : Machine} {fuel : Nat}

/-- A run that comes to its end executes an instruction with each step. -/
theorem loop_done_cases (running : m.halted = false)
    (done : (loop (fuel + 1) m).ending = .done) :
    ∃ i, m.next? = some i ∧
      (m.step.2 = .ended ∧
          loop (fuel + 1) m = ⟨m.step.1, m.step.1.steps, .done⟩ ∨
        m.step.2 = .running ∧ m.step.1.halted = false ∧
          loop (fuel + 1) m = loop fuel m.step.1) := by
  rcases stepped : m.step with ⟨n, outcome⟩
  simp only [loop, stepped] at done ⊢
  cases step_case stepped with
  | closed | spent | unfetched | faulted | broke =>
      cases done
  | finished _ halted =>
      rw [running] at halted
      cases halted
  | went fetches _ _ runs =>
      exact ⟨_, fetches, .inr ⟨rfl, runs, rfl⟩⟩
  | ended fetches =>
      exact ⟨_, fetches, .inl ⟨rfl, rfl⟩⟩

/-- A run that comes to its end does so further on as well. -/
theorem loop_placed (before after : Array Word)
    (addressable : before.size + m.code.size < 2 ^ 63)
    (running : m.halted = false)
    (done : (loop fuel m).ending = .done) (trace : Array TraceLine) :
    ∃ later, loop fuel (m.placed before after trace) =
      { loop fuel m with
        machine := (loop fuel m).machine.placed before after later } := by
  induction fuel generalizing m trace with
  | zero =>
      cases done
  | succ fuel inductionHypothesis =>
      obtain ⟨i, fetches, ⟨ends, whole⟩ | ⟨goes, runs, whole⟩⟩ :=
        loop_done_cases running done
      · obtain ⟨later, further⟩ := step_placed before after trace
          addressable fetches (.inr ends)
        refine ⟨later, ?_⟩
        rw [whole, loop, further, ends]
        rfl
      · obtain ⟨between, further⟩ := step_placed before after trace
          addressable fetches (.inl goes)
        rw [whole] at done ⊢
        have still := addressable
        rw [← (step_keeps m).1] at still
        obtain ⟨later, rest⟩ := inductionHypothesis still runs done between
        refine ⟨later, ?_⟩
        rw [← rest, loop, further, goes]

end Runs

/-! ## Saved addresses -/

section Addresses

variable {m : Machine} {i : Instruction} {fuel : Nat}

theorem continuesIn_of_next? (fetches : m.next? = some i)
    (size : m.code.size < 2 ^ 63) :
    ({ m.frame with pc := m.frame.pc + 1 } : Frame).ContinuesIn m.code := by
  have next := toInt_next_pc fetches size
  unfold next? at fetches
  split at fetches
  · cases fetches
  · obtain ⟨w, found, -⟩ := Option.map_eq_some_iff.mp fetches
    obtain ⟨place, index, found⟩ := wordAt?_eq_some_iff.mp found
    have inside := (Array.getElem?_eq_some_iff.mp found).1
    refine ⟨?_, ?_⟩
    · change 0 ≤ (m.frame.pc + 1).toInt
      omega
    · change (m.frame.pc + 1).toInt ≤ m.code.size
      omega

theorem step_of_ended (fetches : m.next? = some i)
    (ends : m.step.2 = .ended) : m.step.1 = (m.fetched i).apply .halt := by
  rcases stepped : m.step with ⟨n, outcome⟩
  rw [stepped] at ends
  cases step_case stepped with
  | closed | spent | unfetched | faulted | broke | went =>
      cases ends
  | finished _ halted =>
      rw [halted_of_next? fetches] at halted
      cases halted
  | ended fetched worked _ halts =>
      obtain rfl := Option.some.inj (fetches.symm.trans fetched)
      have known := halt_of_ended fetches worked halts
      obtain ⟨op, alsoKnown, worked⟩ := effect_eq_ok_iff.mp worked
      obtain rfl := Option.some.inj (known.symm.trans alsoKnown)
      cases worked
      rfl

theorem callers_continueIn {n : Machine} (size : m.code.size < 2 ^ 63)
    (fetches : m.next? = some i) (stepped : m.step = (n, .running))
    (inside : ∀ f ∈ m.callers, f.ContinuesIn m.code) :
    ∀ f ∈ n.callers, f.ContinuesIn m.code := by
  intro f member
  cases step_callersCase stepped trivial with
  | kept same =>
      rw [same] at member
      exact inside f member
  | pushed pushed =>
      rw [pushed] at member
      rcases Array.mem_push.mp member with before | rfl
      · exact inside f before
      · exact continuesIn_of_next? fetches size
  | popped _ _ _ popped =>
      rw [popped] at member
      have kept : f ∈ m.callers.toList.dropLast := by
        simpa using Array.mem_toList_iff.mpr member
      exact inside f
        (Array.mem_toList_iff.mp (List.dropLast_subset _ kept))

/-- Where a run comes to its end, all frames continue in the program. -/
theorem loop_continuesIn (size : m.code.size < 2 ^ 63)
    (running : m.halted = false) (done : (loop fuel m).ending = .done)
    (inside : ∀ f ∈ m.callers, f.ContinuesIn m.code) :
    (loop fuel m).machine.frame.ContinuesIn m.code ∧
      ∀ f ∈ (loop fuel m).machine.callers, f.ContinuesIn m.code := by
  induction fuel generalizing m with
  | zero =>
      cases done
  | succ fuel inductionHypothesis =>
      obtain ⟨i, fetches, ⟨ends, whole⟩ | ⟨goes, runs, whole⟩⟩ :=
        loop_done_cases running done
      · rw [whole, step_of_ended fetches ends]
        refine ⟨?_, ?_⟩
        · simpa [apply] using continuesIn_of_next? fetches size
        · simpa [apply] using inside
      · rw [whole] at done ⊢
        have kept := callers_continueIn size fetches
          (Prod.ext rfl goes : m.step = (m.step.1, .running)) inside
        rw [← (step_keeps m).1] at size kept ⊢
        exact inductionHypothesis size runs done kept

end Addresses

/-! ## The main result -/

theorem run_of_done {m : Machine} {code : Array Word} {entry : Int64}
    (done : (m.run code entry).ending = .done) :
    m.closed = false ∧ code.isEmpty = false ∧
      m.run code entry = loop m.patience (m.load code entry) := by
  unfold run at done ⊢
  by_cases closed : m.closed = true
  · rw [if_pos closed] at done
    cases done
  · by_cases empty : code.isEmpty = true
    · rw [if_neg closed, if_pos empty] at done
      cases done
    · simp [closed, empty]

/-- Code that runs to its end does so at any other place of a program as
well, if the methods start as much further on as the code stands.  All that is
needed is that its addresses are numbers of 64 bits there too. -/
theorem run_moved {m : Machine} {p : Array Word} {entry : Int64}
    (q r : Array Word) (addressable : q.size + p.size < 2 ^ 63)
    (done : (m.run p entry).ending = .done) :
    (m.run p entry).Further q.size
      ((m.withMethodsMoved (Int64.ofNat q.size)).run (q ++ p ++ r)
        (entry + Int64.ofNat q.size)) := by
  obtain ⟨opened, nonempty, whole⟩ := run_of_done done
  rw [whole] at done
  have size : p.size < 2 ^ 63 := by
    omega
  have start : (m.load p entry).placed q r m.trace =
      (m.withMethodsMoved (Int64.ofNat q.size)).load (q ++ p ++ r)
        (entry + Int64.ofNat q.size) := by
    simp [placed, moved, load, withMethodsMoved, Frame.moved, entryFrame]
  have alsoNonempty : (q ++ p ++ r).isEmpty = false := by
    simp_all
  obtain ⟨later, placed⟩ :=
    loop_placed (m := m.load p entry) q r addressable rfl done m.trace
  have alsoWhole : (m.withMethodsMoved (Int64.ofNat q.size)).run
      (q ++ p ++ r) (entry + Int64.ofNat q.size) =
        loop m.patience ((m.load p entry).placed q r m.trace) := by
    have alsoOpened : (m.withMethodsMoved
        (Int64.ofNat q.size)).closed = false := opened
    rw [start, run, alsoNonempty, alsoOpened]
    rfl
  obtain ⟨frame, callers⟩ := loop_continuesIn (m := m.load p entry) size rfl
    done (by simp [load])
  rw [whole, alsoWhole, placed]
  exact {
    ending := rfl
    count := rfl
    output := rfl
    stack := rfl
    globals := rfl
    result := rfl
    frame := frame.further addressable
    depth := by simp [depth, Machine.placed, moved]
    callers := by
      intro level f g one other
      simp only [Machine.placed, moved, Array.getElem?_map, one,
        Option.map_some, Option.some.injEq] at other
      rw [← other]
      exact (callers f (Array.mem_of_getElem? one)).further addressable }

/-- A machine with a method that calls another one. -/
def relay : Machine :=
  { blank { stack := 8, depth := 2, methods := 2, globals := 1 } with
    methods := #[some ⟨2, 1, 0⟩, some ⟨4, 0, 1⟩] }

/-- A program whose first method calls the second one, which ends it. -/
def relayed : Array Word :=
  #[0x20, 0x24, 0x10020, 0x21, 0x23, 0x24]

theorem relay_moved :
    #[0x24, 0x1F].size + relayed.size < 2 ^ 63 ∧
      (relay.run relayed 0).ending = .done ∧
        (relay.run relayed 0).machine.callers.size = 2 ∧
          (relay.run relayed 0).Further 2
            ((relay.withMethodsMoved 2).run
              (#[0x24, 0x1F] ++ relayed ++ #[0x25]) 2) := by
  have done : (relay.run relayed 0).ending = .done := by decide
  exact ⟨by decide, done, by decide,
    run_moved #[0x24, 0x1F] #[0x25] (by decide) done⟩

end Machine

end WindowMachine
