import WindowMachine.Proofs.Machine.Calls
import WindowMachine.Proofs.Machine.History

/-!
# Memory safety

A machine is sound if its regions have the sizes that its capacities give
them and if the windows of all its frames lie inside the stack.  Within a
frame nothing ties the top to the window: pops may bring it below the base,
and pushes above the limit.  What survives every instruction is weaker, namely
that the top stays between one below the bottom of the stack and its end.

The main result is that every history of a machine leaves it sound, so that no
instruction computes an index outside of a region.  It needs methods of at
most `maxU16` arguments and locals, since the top of a call wraps around
otherwise.
-/

namespace WindowMachine

/-! ## Sound machines -/

/-- A frame whose window and top lie inside a stack of `size` slots.  The top
of an empty stack is one below its bottom. -/
structure Frame.Within (f : Frame) (size : Int) : Prop where
  base_nonneg : 0 ≤ f.base.toInt
  base_le_limit : f.base.toInt ≤ f.limit.toInt
  limit_le : f.limit.toInt ≤ size
  top_ge : -1 ≤ f.top.toInt
  top_lt : f.top.toInt < size

/-- Regions of the right sizes, with all frames inside the stack. -/
structure Machine.Sound (m : Machine) : Prop extends m.Sized where
  frame : m.frame.Within m.capacities.stack.toInt
  callers : ∀ f ∈ m.callers, f.Within m.capacities.stack.toInt

/-- A method with no more arguments and locals than a directive can give
it. -/
structure Method.Modest (method : Method) : Prop where
  args_nonneg : 0 ≤ method.args.toInt
  args_le : method.args.toInt ≤ maxU16
  locals_nonneg : 0 ≤ method.locals.toInt
  locals_le : method.locals.toInt ≤ maxU16

/-- Whether a command registers modest methods only, and leaves the machine
open. -/
def Command.Modest : Command → Prop
  | .setMethod _ method => method.Modest
  | .seed image => ∀ entry ∈ image.methods, entry.method.Modest
  | .close => False
  | _ => True

/-! ## Capacities -/

/-- The most slots for which the frames of calls are worked out exactly. -/
def Capacities.exactSlots : Int := 2 ^ 62

theorem Capacities.defect?_eq_none_iff {c : Capacities} :
    c.defect? = none ↔
      0 < c.stack.toInt ∧ 0 < c.depth.toInt ∧
        (0 < c.methods.toInt ∧ c.methods.toInt ≤ 65536) ∧
          (0 < c.globals.toInt ∧ c.globals.toInt ≤ 65536) ∧
            (-1 ≤ c.entryTop.toInt ∧
              c.entryTop.toInt < c.stack.toInt) ∧
              0 ≤ c.budget.toInt := by
  have zero : (0 : Int64).toInt = 0 := rfl
  have minusOne : (-1 : Int64).toInt = -1 := rfl
  have limit : tableLimit.toInt = 65536 := rfl
  simp only [defect?, Int64.le_iff_toInt_le, Int64.lt_iff_toInt_lt, zero,
    minusOne, limit]
  grind

/-! ## Frames -/

section Frames

variable {f : Frame} {size : Int}

theorem Frame.Within.atAddress (within : f.Within size) (pc : Int64) :
    ({ f with pc := pc } : Frame).Within size where
  base_nonneg := within.base_nonneg
  base_le_limit := within.base_le_limit
  limit_le := within.limit_le
  top_ge := within.top_ge
  top_lt := within.top_lt

theorem Frame.Within.withTop {top : Int64} (within : f.Within size)
    (lower : -1 ≤ top.toInt) (upper : top.toInt < size) :
    ({ f with top := top } : Frame).Within size where
  base_nonneg := within.base_nonneg
  base_le_limit := within.base_le_limit
  limit_le := within.limit_le
  top_ge := lower
  top_lt := upper

end Frames

namespace Machine

variable {m : Machine} {c : Capacities}

/-! ## The invariant -/

/-- What every command keeps: soundness, together with the capacities and the
modesty of the methods that it rests on. -/
structure Safe (c : Capacities) (m : Machine) : Prop extends m.Sound where
  capacities : m.capacities = c
  modest : ∀ method, some method ∈ m.methods → method.Modest

/-- The frame of a call lies inside the stack. -/
theorem calleeFrame_within {method : Method} {f : Frame}
    (sound : m.Sound) (modest : method.Modest)
    (exactly : m.capacities.stack.toInt ≤ Capacities.exactSlots)
    (built : m.calleeFrame method = .ok f) :
    f.Within m.capacities.stack.toInt := by
  have topGe := sound.frame.top_ge
  have topLt := sound.frame.top_lt
  have argsNonneg := modest.args_nonneg
  have localsNonneg := modest.locals_nonneg
  have localsLe := modest.locals_le
  simp only [Capacities.exactSlots, maxU16] at exactly localsLe
  have inside : m.frame.top.toInt + method.locals.toInt < 2 ^ 63 := by
    omega
  obtain ⟨⟨argumentsFit, localsFit, _⟩, rfl⟩ :=
    (calleeFrame_eq_ok_iff_fits topGe topLt argsNonneg localsNonneg
      sound.toSized inside).mp built
  have base := callee_base topGe topLt argsNonneg
  have top := callee_top topGe localsNonneg inside
  have limit := callee_limit (by omega : (m.callee method).top.toInt < _)
  exact {
    base_nonneg := by omega
    base_le_limit := by omega
    limit_le := by omega
    top_ge := by omega
    top_lt := by omega }

theorem method?_mem {index : Int64} {method : Method}
    (found : m.method? index = some method) :
    some method ∈ m.methods := by
  simp only [method?, bind, Option.bind_eq_some_iff] at found
  obtain ⟨place, _, joined⟩ := found
  have entry : m.methods[place]? = some (some method) := by
    simpa [Option.join_eq_some_iff] using joined
  exact Array.mem_of_getElem? entry

/-- Where the sizes of the regions and the methods stay, only the frames
matter. -/
theorem Safe.of_frames {n : Machine} (safe : m.Safe c)
    (capacities : n.capacities = m.capacities)
    (stack : n.stack.size = m.stack.size)
    (globals : n.globals.size = m.globals.size)
    (methods : n.methods = m.methods)
    (depth : (n.callers.size : Int) ≤ c.depth.toInt)
    (frame : n.frame.Within c.stack.toInt)
    (callers : ∀ f ∈ n.callers, f.Within c.stack.toInt) :
    n.Safe c := by
  have same : n.capacities = c := capacities.trans safe.capacities
  exact {
    stack := by rw [stack, capacities, safe.stack]
    globals := by rw [globals, capacities, safe.globals]
    methods := by rw [methods, capacities, safe.methods]
    depth := by rwa [same]
    frame := by rwa [same]
    callers := by rwa [same]
    capacities := same
    modest := by
      rw [methods]
      exact safe.modest }

theorem Safe.of_frame {n : Machine} (safe : m.Safe c)
    (capacities : n.capacities = m.capacities)
    (stack : n.stack.size = m.stack.size)
    (globals : n.globals.size = m.globals.size)
    (methods : n.methods = m.methods)
    (callers : n.callers = m.callers)
    (frame : n.frame.Within c.stack.toInt) :
    n.Safe c := by
  obtain rfl := safe.capacities
  apply safe.of_frames capacities stack globals methods _ frame
  · rw [callers]
    exact safe.callers
  · rw [callers]
    exact safe.depth

/-! ## One instruction -/

theorem Safe.fetched (safe : m.Safe c) (i : Instruction) :
    (m.fetched i).Safe c := by
  obtain rfl := safe.capacities
  exact safe.of_frame (by simp) (by simp) (by simp) (by simp) (by simp)
    (by simpa using safe.frame.atAddress _)

theorem Safe.note (safe : m.Safe c) (line : TraceLine) :
    (m.note line).Safe c := by
  obtain rfl := safe.capacities
  unfold Machine.note
  split
  · exact safe.of_frame rfl rfl rfl rfl rfl safe.frame
  · exact safe

private theorem Safe.apply_of_frame {e : Effect} (safe : m.Safe c)
    (callers : (m.apply e).callers = m.callers)
    (frame : (m.apply e).frame.Within c.stack.toInt) :
    (m.apply e).Safe c :=
  safe.of_frame (by simp) (by simp) (by simp) (by simp) callers frame

private theorem Safe.enter {method : Method} {f : Frame}
    (safe : m.Safe c) (modest : method.Modest)
    (exactly : c.stack.toInt ≤ Capacities.exactSlots)
    (built : m.calleeFrame method = .ok f) :
    (m.apply (.enter f)).Safe c := by
  obtain rfl := safe.capacities
  apply safe.of_frames (by simp) (by simp) (by simp) (by simp)
  · have free := (calleeFrame_eq_ok_iff.mp built).2.2.1
    have depth := safe.depth
    simp only [apply, Array.size_push]
    omega
  · exact calleeFrame_within safe.toSound modest exactly built
  · intro other member
    rcases Array.mem_push.mp member with suspended | rfl
    · exact safe.callers other suspended
    · exact safe.frame

private theorem Safe.leave {caller : Frame} {value : Int32}
    (safe : m.Safe c) (back : m.callers.back? = some caller) :
    (m.apply (.leave caller value)).Safe c := by
  obtain rfl := safe.capacities
  apply safe.of_frames (by simp) (by simp) (by simp) (by simp)
  · have depth := safe.depth
    simp only [apply, Array.size_pop]
    omega
  · exact safe.callers caller (Array.mem_of_back? back)
  · intro other member
    have below : other ∈ m.callers.toList.dropLast := by
      simpa [apply] using Array.mem_toList_iff.mpr member
    exact safe.callers other
      (Array.mem_toList_iff.mp (List.dropLast_subset _ below))

theorem Safe.apply {i : Instruction} {op : Operation} {e : Effect}
    (safe : m.Safe c)
    (exactly : c.stack.toInt ≤ Capacities.exactSlots)
    (admits : m.Admits i op e) :
    (m.apply e).Safe c := by
  obtain rfl := safe.capacities
  have size := safe.stack
  have topLower := safe.frame.top_ge
  have topUpper := safe.frame.top_lt
  cases admits with
  | idle | store | setGlobal | halt =>
      exact safe.apply_of_frame rfl safe.frame
  | print =>
      exact safe.apply_of_frame (by rw [apply_print])
        (by rw [apply_print]; exact safe.frame)
  | skip | jump | jumpIf =>
      exact safe.apply_of_frame rfl (safe.frame.atAddress _)
  | push read free =>
      obtain ⟨index, inside⟩ := position?_eq_some_iff.mp free
      exact safe.apply_of_frame rfl
        (safe.frame.withTop (by omega) (by omega))
  | pop located held =>
      obtain ⟨index, inside⟩ := position?_eq_some_iff.mp held
      have topWord := m.frame.top.toInt_lt
      have one : (1 : Int64).toInt = 1 := rfl
      have lowered :
          (m.frame.top - 1).toInt = m.frame.top.toInt - 1 := by
        rw [toInt_sub_of_fits (by omega) (by omega), one]
      exact safe.apply_of_frame rfl
        (safe.frame.withTop (by omega) (by omega))
  | enter found built =>
      exact safe.enter (safe.modest _ (method?_mem found)) exactly built
  | leave read back =>
      exact safe.leave back

theorem Safe.step (safe : m.Safe c)
    (exactly : c.stack.toInt ≤ Capacities.exactSlots) :
    m.step.1.Safe c := by
  rcases stepped : m.step with ⟨n, outcome⟩
  cases step_case stepped with
  | closed | finished | spent | unfetched =>
      exact safe
  | faulted | broke =>
      exact safe.fetched _
  | went fetches worked | ended fetches worked =>
      obtain ⟨op, _, admits⟩ := effect_admits worked
      exact (safe.fetched _).apply exactly admits

/-! ## Commands -/

theorem Sized.entryFrame_within (sized : m.Sized)
    (usable : m.capacities.defect? = none) (pc : Int64) :
    (m.entryFrame pc).Within m.capacities.stack.toInt := by
  obtain ⟨stackPos, -, -, -, ⟨topLower, topUpper⟩, -⟩ :=
    Capacities.defect?_eq_none_iff.mp usable
  have zero : (0 : Int64).toInt = 0 := rfl
  have limit := sized.toInt_stack
  exact {
    base_nonneg := Int.le_of_eq zero.symm
    base_le_limit := by
      change (0 : Int64).toInt ≤ (Int64.ofNat m.stack.size).toInt
      omega
    limit_le := Int.le_of_eq limit
    top_ge := topLower
    top_lt := topUpper }

private theorem Safe.of_entry {n : Machine} {pc : Int64}
    (safe : m.Safe c) (usable : c.defect? = none)
    (capacities : n.capacities = m.capacities)
    (stack : n.stack.size = m.stack.size)
    (globals : n.globals.size = m.globals.size)
    (methods : n.methods = m.methods)
    (callers : n.callers = #[])
    (frame : n.frame = m.entryFrame pc) :
    n.Safe c := by
  obtain rfl := safe.capacities
  have depthPos := (Capacities.defect?_eq_none_iff.mp usable).2.1
  refine safe.of_frames capacities stack globals methods ?_ ?_ ?_
  · rw [callers, List.size_toArray, List.length_nil]
    omega
  · rw [frame]
    exact safe.toSized.entryFrame_within usable pc
  · simp [callers]

theorem Safe.load (safe : m.Safe c) (usable : c.defect? = none)
    (code : Array Word) (entry : Int64) :
    (m.load code entry).Safe c :=
  safe.of_entry usable rfl rfl rfl rfl rfl rfl

theorem Safe.reset (safe : m.Safe c) (usable : c.defect? = none) :
    m.reset.Safe c := by
  unfold Machine.reset
  split
  · exact safe
  · exact safe.of_entry usable rfl (by simp) (by simp) rfl rfl rfl

theorem Safe.resume (safe : m.Safe c) (usable : c.defect? = none)
    (code : Array Word) (entry : Int64) :
    (m.resume code entry).Safe c := by
  have loaded := safe.load usable code entry
  simp only [Machine.resume]
  split
  · rename_i inside
    rw [Int64.le_iff_toInt_le, Int64.lt_iff_toInt_lt,
      loaded.toSized.toInt_stack, loaded.capacities] at inside
    have minusOne : (-1 : Int64).toInt = -1 := rfl
    have frame := loaded.frame
    rw [loaded.capacities] at frame
    exact loaded.of_frame rfl rfl rfl rfl rfl
      (frame.withTop (by omega) inside.2)
  · exact loaded

theorem Safe.loop (safe : m.Safe c)
    (exactly : c.stack.toInt ≤ Capacities.exactSlots) (fuel : Nat) :
    (Machine.loop fuel m).machine.Safe c :=
  loop_keeps (fun _ kept => kept.step exactly)
    (fun _ line kept => kept.note line) fuel safe

section Setters

variable {index : Int64} {n : Machine} (safe : m.Safe c)

include safe

theorem Safe.setMethod {method : Method} (modest : method.Modest)
    (set : m.setMethod index method = .ok n) :
    n.Safe c := by
  obtain ⟨-, -, place, -, rfl⟩ := setMethod_eq_ok_iff.mp set
  exact {
    safe with
    methods := by simpa using safe.methods
    modest := by
      intro other member
      rcases Array.mem_or_eq_of_mem_setIfInBounds member with
        registered | equal
      · exact safe.modest other registered
      · cases equal
        exact modest }

theorem Safe.setSlot {bits : Slot} (set : m.setSlot index bits = .ok n) :
    n.Safe c := by
  obtain rfl := safe.capacities
  obtain ⟨-, place, -, rfl⟩ := setSlot_eq_ok_iff.mp set
  exact safe.of_frame rfl (by simp) rfl rfl rfl safe.frame

theorem Safe.setGlobal {value : Int32}
    (set : m.setGlobal index value = .ok n) :
    n.Safe c := by
  obtain rfl := safe.capacities
  obtain ⟨-, place, -, rfl⟩ := setGlobal_eq_ok_iff.mp set
  exact safe.of_frame rfl rfl (by simp) rfl rfl safe.frame

end Setters

theorem Safe.obey {command : Command} (safe : m.Safe c)
    (usable : c.defect? = none)
    (exactly : c.stack.toInt ≤ Capacities.exactSlots)
    (modest : command.Modest) :
    (m.obey command).Safe c := by
  cases command with
  | setMethod index method =>
      exact orKeep_keeps safe fun n set => safe.setMethod modest set
  | setStack index value =>
      exact orKeep_keeps safe fun n set => safe.setSlot set
  | setSlot index bits =>
      exact orKeep_keeps safe fun n set => safe.setSlot set
  | setGlobal index value =>
      exact orKeep_keeps safe fun n set => safe.setGlobal set
  | seed image =>
      exact applyTo_keeps
        (fun entry member _ _ kept set =>
          kept.setMethod (modest entry member) set)
        (fun _ _ _ _ kept set => kept.setGlobal set)
        (fun _ _ _ _ kept set => kept.setSlot set) safe
  | load code entry =>
      exact safe.load usable code entry
  | step =>
      exact safe.step exactly
  | run code entry =>
      simp only [Machine.obey, Machine.run]
      split
      · exact safe
      · split
        · exact safe
        · exact (safe.load usable code entry).loop exactly _
  | proceed code entry =>
      simp only [Machine.obey, Machine.proceed]
      split
      · exact safe
      · split
        · exact safe
        · exact (safe.resume usable code entry).loop exactly _
  | reset =>
      exact safe.reset usable
  | close =>
      exact modest.elim
  | adjust budget tracing sink =>
      obtain rfl := safe.capacities
      exact safe.of_frame rfl rfl rfl rfl rfl safe.frame

theorem blank_sized (usable : c.defect? = none) : (blank c).Sized := by
  obtain ⟨stackPos, depthPos, ⟨methodsPos, -⟩, ⟨globalsPos, -⟩, -⟩ :=
    Capacities.defect?_eq_none_iff.mp usable
  exact {
    stack := by
      simp only [blank, Array.size_replicate]
      omega
    globals := by
      simp only [blank, Array.size_replicate]
      omega
    methods := by
      simp only [blank, Array.size_replicate]
      omega
    depth := by
      simp only [blank, List.size_toArray, List.length_nil]
      omega }

theorem blank_safe (usable : c.defect? = none) : (blank c).Safe c where
  toSized := blank_sized usable
  frame := by
    simpa [entryFrame, blank] using
      (blank_sized usable).entryFrame_within usable 0
  callers := by
    simp [blank]
  capacities := rfl
  modest := by
    simp [blank]

/-! ## Indexes -/

/-- Whether the slots, globals and frames that an effect touches lie inside
the regions of a machine. -/
def InRange (m : Machine) : Effect → Prop
  | .store slot _ => slot < m.stack.size
  | .push slot _ => slot < m.stack.size
  | .pop slot _ =>
      slot < m.stack.size ∧
        0 ≤ m.frame.top.toInt ∧ m.frame.top.toInt < m.stack.size
  | .setGlobal index _ => index < m.globals.size
  | .enter callee =>
      ∀ index, m.frame.top.toInt < index → index ≤ callee.top.toInt →
        0 ≤ index ∧ index < m.stack.size
  | .leave _ _ => 0 < m.callers.size
  | .idle | .jump _ | .print _ | .halt => True

/-- Whether all indexes that a machine computes lie inside its regions. -/
structure InBounds (m : Machine) : Prop where
  /-- A register that passes its check is a slot of the stack. -/
  register : ∀ r slot, m.locate r = .ok slot → slot < m.stack.size
  /-- A global that passes its check is one of the store. -/
  global : ∀ index place,
    m.locateGlobal index = .ok place → place < m.globals.size
  /-- What an instruction touches lies inside the regions. -/
  effect : ∀ i e, (m.fetched i).effect i = .ok e → m.InRange e
  /-- The slots that are shown are all there. -/
  shown : m.shownStack.length = (m.frame.top.toInt + 1).toNat
  /-- No step breaks down on an index. -/
  step : ∀ b, m.step.2 ≠ .broke b
  /-- No run does, from a fresh top or from the last one. -/
  run : ∀ code entry b, (m.run code entry).ending ≠ .broken b
  proceed : ∀ code entry b, (m.proceed code entry).ending ≠ .broken b

theorem Safe.inRange {i : Instruction} {e : Effect} (safe : m.Safe c)
    (exactly : c.stack.toInt ≤ Capacities.exactSlots)
    (worked : (m.fetched i).effect i = .ok e) :
    m.InRange e := by
  obtain rfl := safe.capacities
  have topLower := safe.frame.top_ge
  have size := safe.stack
  obtain ⟨op, _, admits⟩ := effect_admits worked
  cases admits with
  | idle | skip | jump | jumpIf | print | halt =>
      exact trivial
  | store computes located =>
      simpa [InRange] using (locate_eq_ok_iff.mp located).2.1
  | push read free =>
      simpa [InRange] using (position?_eq_some_iff.mp free).2
  | pop located held =>
      obtain ⟨index, inside⟩ := position?_eq_some_iff.mp held
      simp only [fetched_frame, fetched_stack] at index inside
      refine ⟨by simpa using (locate_eq_ok_iff.mp located).2.1, ?_, ?_⟩
      · omega
      · omega
  | setGlobal read found =>
      simpa [InRange] using (position?_eq_some_iff.mp found).2
  | enter found built =>
      rw [fetched_method?] at found
      rw [fetched_calleeFrame] at built
      have within := calleeFrame_within safe.toSound
        (safe.modest _ (method?_mem found)) exactly built
      have topUpper := within.top_lt
      intro index above below
      omega
  | leave read back =>
      simp only [fetched_callers] at back
      exact Array.size_pos_of_mem (Array.mem_of_back? back)

theorem Safe.step_stands (safe : m.Safe c) (b : Breakdown) :
    m.step.2 ≠ .broke b := by
  rcases stepped : m.step with ⟨n, outcome⟩
  rintro rfl
  cases step_case stepped with
  | @broke i e _ _ _ broken =>
      have stands := breakdown?_eq_none
        (safe.fetched i).frame.top_ge (safe.fetched i).frame.top_lt e
      rw [stands] at broken
      cases broken

theorem Safe.loop_stands (safe : m.Safe c)
    (exactly : c.stack.toInt ≤ Capacities.exactSlots) (fuel : Nat)
    (b : Breakdown) :
    (Machine.loop fuel m).ending ≠ .broken b := by
  induction fuel generalizing m with
  | zero =>
      simp [Machine.loop]
  | succ fuel inductionHypothesis =>
      have kept := safe.step exactly
      have stands := safe.step_stands
      rcases stepped : m.step with ⟨n, outcome⟩
      rw [stepped] at kept stands
      simp only [Machine.loop, stepped]
      cases outcome with
      | running =>
          exact inductionHypothesis kept
      | ended =>
          simp
      | failed why =>
          simp
      | broke other =>
          exact absurd rfl (stands other)

theorem Safe.inBounds (safe : m.Safe c) (usable : c.defect? = none)
    (exactly : c.stack.toInt ≤ Capacities.exactSlots) :
    m.InBounds where
  register r slot located := (locate_eq_ok_iff.mp located).2.1
  global index place found :=
    (position?_eq_some_iff.mp (locateGlobal_eq_ok_iff.mp found)).2
  effect i e worked := safe.inRange exactly worked
  shown := by
    have topUpper := safe.frame.top_lt
    have size := safe.stack
    simp only [shownStack, List.length_map, Array.length_toList,
      Array.take_eq_extract, Array.size_extract]
    omega
  step := safe.step_stands
  run code entry b := by
    unfold Machine.run
    split
    · simp [Run.refused]
    · split
      · simp [Run.refused]
      · exact (safe.load usable code entry).loop_stands exactly _ b
  proceed code entry b := by
    unfold Machine.proceed
    split
    · simp [Run.refused]
    · split
      · simp [Run.refused]
      · exact (safe.resume usable code entry).loop_stands exactly _ b

/-! ## Histories -/

/-- Whatever a machine is told to do, it stays sound and computes no index
outside of its regions. -/
theorem history_sound
    (usable : c.defect? = none)
    (exactly : c.stack.toInt ≤ Capacities.exactSlots)
    {history : List Command}
    (modest : ∀ command ∈ history, command.Modest) :
    ((blank c).after history).capacities = c ∧
      ((blank c).after history).Sound ∧
        ((blank c).after history).InBounds := by
  have safe : ((blank c).after history).Safe c :=
    after_keeps (fun _ _ allowed kept => kept.obey usable exactly allowed)
      modest (blank_safe usable)
  exact ⟨safe.capacities, safe.toSound, safe.inBounds usable exactly⟩

/-- A history that stops inside of a call, runs the program to its end, goes
on from there and resets the machine. -/
def callingHistory : List Command :=
  [.setMethod 0 ⟨3, 1, 3⟩, .setStack 0 7,
    .load #[0x15, 0x20, 0x24, 0x21] 0, .step, .step,
    .run #[0x15, 0x20, 0x24, 0x21] 0,
    .proceed #[0x15, 0x20, 0x24, 0x21] 0, .reset]

theorem callingHistory_sound :
    ({} : Capacities).defect? = none ∧
      ((blank {}).after callingHistory).capacities = {} ∧
        ((blank {}).after callingHistory).Sound ∧
          ((blank {}).after callingHistory).InBounds := by
  refine ⟨by decide, history_sound (by decide) (by decide) ?_⟩
  simp only [callingHistory, List.forall_mem_cons, Command.Modest, true_and]
  exact ⟨⟨by decide, by decide, by decide, by decide⟩, by simp⟩

end Machine

end WindowMachine
