import WindowMachine.Proofs.Machine.EarlierOutput
import WindowMachine.Proofs.Machine.Reachable

/-!
# After closing

A closed machine has lost its regions and never gets them back: whatever is
asked of it later, it executes nothing, and it refuses everything that a
machine can refuse.  It does not always say that it is closed, though.  Slots,
globals and registers are looked up without asking for that, and so they are
reported as out of range, like those that no machine has.
-/

namespace WindowMachine

/-- What can be asked of a machine. -/
inductive Request where
  | obey (command : Command)
  | slot (index : Int64)
  | global (index : Int64)
  | register (r : UInt8)
  | method (index : Int64)
  /-- The stack as text. -/
  | stackText
  deriving DecidableEq, Repr

/-- What a machine replies. -/
inductive Reply where
  | answer (given : Answer)
  | slot (found : Except Failure Slot)
  | value (found : Except Failure Int32)
  | method (found : Option Method)
  | text (shown : String)

/-- The failure that an answer reports. -/
def Answer.failure? : Answer → Option Failure
  | .set refusal => refusal
  | .stepped (.failed why) | .ran _ (.failed why) => some why
  | .done | .stepped _ | .ran _ _ => none

/-- Whether the machine broke down instead of giving an answer. -/
def Answer.BrokeDown : Answer → Prop
  | .stepped (.broke _) | .ran _ (.broken _) => True
  | _ => False

namespace Reply

/-- The failure that a reply reports. -/
def failure? : Reply → Option Failure
  | .answer given => given.failure?
  | .slot (.error why) | .value (.error why) => some why
  | .slot (.ok _) | .value (.ok _) | .method _ | .text _ => none

/-- Whether the machine broke down instead of replying. -/
def BrokeDown : Reply → Prop
  | .answer given => given.BrokeDown
  | _ => False

end Reply

namespace Machine

/-- What a machine replies to a request. -/
def reply (m : Machine) : Request → Reply
  | .obey command => .answer (m.answer command)
  | .slot index => .slot (m.slot index)
  | .global index => .value (m.global index)
  | .register r => .value (m.register r)
  | .method index => .method (m.method? index)
  | .stackText => .text m.stackText

/-- A machine after a request. -/
def serve (m : Machine) : Request → Machine
  | .obey command => m.obey command
  | _ => m

/-- A machine after one request and another. -/
def served (m : Machine) (requests : List Request) : Machine :=
  requests.foldl serve m

end Machine

/-- Whether there is a machine that refuses a request. -/
def Request.Refusable (request : Request) : Prop :=
  ∃ (m : Machine) (why : Failure), (m.reply request).failure? = some why

/-- What a closed machine reports when it refuses a request. -/
def Request.afterClosing : Request → Condition
  | .slot _ | .global _ => .indexOutOfRange
  | .register _ => .outOfRange
  | .obey _ | .method _ | .stackText => .closed

namespace Machine

variable {m n : Machine} {command : Command} {request : Request}

/-- What a machine `m` leaves for good when it is closed: no region, and what
it has put out and returned before. -/
structure ClosedDown (m n : Machine) : Prop where
  closed : n.closed = true
  stack : n.stack = #[]
  globals : n.globals = #[]
  methods : n.methods = #[]
  callers : n.callers = #[]
  result : n.result = m.result
  output : n.output = m.output
  trace : n.trace = m.trace

/-! ## What a closed machine refuses -/

theorem position?_empty (index : Int64) : position? index 0 = none := by
  rw [Option.eq_none_iff_forall_ne_some]
  intro place found
  exact absurd (position?_eq_some_iff.mp found).2 (Nat.not_lt_zero place)

/-- The first of some entries is refused, if there is any. -/
theorem seedAll_refused {α : Type}
    (set : Machine → α → Except Failure Machine)
    (refuses : ∀ entry, ∃ why,
      set m entry = .error why ∧ why.condition? = some .closed)
    (entries : List α) :
    entries = [] ∧ Image.seedAll set m entries = (m, none) ∨
      ∃ why, Image.seedAll set m entries = (m, some why) ∧
        why.condition? = some .closed := by
  cases entries with
  | nil =>
      exact .inl ⟨rfl, rfl⟩
  | cons entry rest =>
      obtain ⟨why, refused, condition⟩ := refuses entry
      exact .inr ⟨why, by rw [Image.seedAll, refused], condition⟩

theorem seedMethod_closed (closed : m.closed = true) (entry : NamedMethod) :
    Image.seedMethod m entry =
      .error (.inMethod entry.name (.plain .closed)) := by
  rw [Image.seedMethod, setMethod_closed closed]

/-- An image is refused, or there is nothing in it that a machine could
refuse. -/
theorem applyTo_closed (closed : m.closed = true) (image : Image) :
    (∀ any, image.applyTo any = (any, none)) ∨
      ∃ why, image.applyTo m = (m, some why) ∧
        why.condition? = some .closed := by
  rcases seedAll_refused Image.seedMethod
      (fun entry => ⟨_, seedMethod_closed closed entry, rfl⟩)
      image.methods.toList with
    ⟨noMethods, methods⟩ | ⟨why, methods, condition⟩
  · rcases seedAll_refused
        (fun m (g : GlobalSeed) => m.setGlobal g.index g.value)
        (fun _ => ⟨_, setGlobal_closed closed, rfl⟩)
        image.globals.toList with
      ⟨noGlobals, globals⟩ | ⟨why, globals, condition⟩
    · rcases seedAll_refused
          (fun m (s : StackSeed) => m.setSlot s.index s.bits)
          (fun _ => ⟨_, setSlot_closed closed, rfl⟩)
          image.stack.toList with
        ⟨noSlots, -⟩ | ⟨why, slots, condition⟩
      · refine .inl fun any => ?_
        simp [Image.applyTo, noMethods, noGlobals, noSlots, Image.seedAll]
      · exact .inr ⟨why, by simp [Image.applyTo, methods, globals, slots],
          condition⟩
    · exact .inr ⟨why, by simp [Image.applyTo, methods, globals],
        condition⟩
  · exact .inr ⟨why, by simp [Image.applyTo, methods], condition⟩

/-- A command is refused as one to a closed machine, or no machine refuses
it. -/
theorem answer_closed (closed : m.closed = true) (command : Command) :
    ¬ (m.answer command).BrokeDown ∧
      ((∀ any : Machine, (any.answer command).failure? = none) ∨
        ∃ why, (m.answer command).failure? = some why ∧
          why.condition? = some .closed) := by
  cases command with
  | setMethod index method =>
      rw [answer, setMethod_closed closed]
      exact ⟨id, .inr ⟨_, rfl, rfl⟩⟩
  | setStack index value =>
      rw [answer, setStack, setSlot_closed closed]
      exact ⟨id, .inr ⟨_, rfl, rfl⟩⟩
  | setSlot index bits =>
      rw [answer, setSlot_closed closed]
      exact ⟨id, .inr ⟨_, rfl, rfl⟩⟩
  | setGlobal index value =>
      rw [answer, setGlobal_closed closed]
      exact ⟨id, .inr ⟨_, rfl, rfl⟩⟩
  | seed image =>
      refine ⟨id, ?_⟩
      rcases applyTo_closed closed image with
        nothing | ⟨why, refused, condition⟩
      · exact .inl fun any => congrArg Prod.snd (nothing any)
      · exact .inr ⟨why, congrArg Prod.snd refused, condition⟩
  | step =>
      have stepped : m.step = (m, .failed (.plain .closed)) := by
        simp [step, closed]
      rw [answer, stepped]
      exact ⟨id, .inr ⟨_, rfl, rfl⟩⟩
  | run code entry =>
      have refused : m.run code entry = Run.refused m (.plain .closed) := by
        simp [run, closed]
      rw [answer, refused]
      exact ⟨id, .inr ⟨_, rfl, rfl⟩⟩
  | proceed code entry =>
      have refused :
          m.proceed code entry = Run.refused m (.plain .closed) := by
        simp [proceed, closed]
      rw [answer, refused]
      exact ⟨id, .inr ⟨_, rfl, rfl⟩⟩
  | load | reset | close | adjust =>
      exact ⟨id, .inl fun _ => rfl⟩

namespace ClosedDown

/-! ## It stays closed -/

theorem of_close (m : Machine) : m.ClosedDown m.close where
  closed := rfl
  stack := rfl
  globals := rfl
  methods := rfl
  callers := rfl
  result := rfl
  output := rfl
  trace := rfl

theorem obey (down : m.ClosedDown n) (command : Command) :
    m.ClosedDown (n.obey command) := by
  have closed := down.closed
  cases command with
  | setMethod index method =>
      rwa [Machine.obey, setMethod_closed closed]
  | setStack index value =>
      rwa [Machine.obey, setStack, setSlot_closed closed]
  | setSlot index bits =>
      rwa [Machine.obey, setSlot_closed closed]
  | setGlobal index value =>
      rwa [Machine.obey, setGlobal_closed closed]
  | seed image =>
      rw [Machine.obey]
      rcases applyTo_closed closed image with nothing | ⟨why, refused, -⟩
      · rwa [nothing]
      · rwa [refused]
  | load code entry =>
      exact { down with callers := rfl }
  | step =>
      simpa [Machine.obey, step, closed] using down
  | run code entry =>
      simpa [Machine.obey, run, closed, Run.refused] using down
  | proceed code entry =>
      simpa [Machine.obey, proceed, closed, Run.refused] using down
  | reset =>
      simpa [Machine.obey, reset, closed] using down
  | close =>
      exact { of_close n with
        result := down.result, output := down.output, trace := down.trace }
  | adjust budget tracing sink =>
      exact { down with }

theorem serve (down : m.ClosedDown n) (request : Request) :
    m.ClosedDown (n.serve request) := by
  cases request with
  | obey command =>
      exact down.obey command
  | _ =>
      exact down

theorem served (down : m.ClosedDown n) (requests : List Request) :
    m.ClosedDown (n.served requests) := by
  induction requests generalizing n with
  | nil =>
      exact down
  | cons request rest inductionHypothesis =>
      exact inductionHypothesis (down.serve request)

/-! ## What it replies -/

theorem slot (down : m.ClosedDown n) (index : Int64) :
    n.slot index = .error (.slotIndex index 0) := by
  simp [Machine.slot, down.stack, position?_empty]

theorem global (down : m.ClosedDown n) (index : Int64) :
    n.global index = .error (.globalIndex index 0) := by
  simp [Machine.global, down.globals, position?_empty]

/-- The frame that was current at closing is still named. -/
theorem register (down : m.ClosedDown n) (r : UInt8) :
    n.register r =
      .error (.register r n.frame.base n.frame.limit) := by
  have located : n.locate r =
      .error (.register r n.frame.base n.frame.limit) := by
    simp [locate, down.stack, position?_empty]
  rw [Machine.register, located]
  rfl

/-- A request is refused, or no machine refuses it. -/
theorem reply (down : m.ClosedDown n) (request : Request) :
    ¬ (n.reply request).BrokeDown ∧
      ((∀ any : Machine, (any.reply request).failure? = none) ∨
        ∃ why, (n.reply request).failure? = some why ∧
          why.condition? = some request.afterClosing) := by
  cases request with
  | obey command =>
      exact answer_closed down.closed command
  | slot index =>
      rw [Machine.reply, down.slot]
      exact ⟨id, .inr ⟨_, rfl, rfl⟩⟩
  | global index =>
      rw [Machine.reply, down.global]
      exact ⟨id, .inr ⟨_, rfl, rfl⟩⟩
  | register r =>
      rw [Machine.reply, down.register]
      exact ⟨id, .inr ⟨_, rfl, rfl⟩⟩
  | method | stackText =>
      exact ⟨id, .inl fun _ => rfl⟩

end ClosedDown

/-- Whatever is asked of a machine that has been closed, it stays closed and
does not break down, and it refuses all that can be refused: as closed if no
slot, global or register was asked for, and as out of range otherwise. -/
theorem close_final (m : Machine) (later : List Request)
    (request : Request) :
    m.ClosedDown (m.close.served later) ∧
      ¬ ((m.close.served later).reply request).BrokeDown ∧
        (request.Refusable ↔
          ∃ why, ((m.close.served later).reply request).failure? =
              some why ∧
            why.condition? = some request.afterClosing) := by
  have down := (ClosedDown.of_close m).served later
  obtain ⟨stands, replied⟩ := down.reply request
  refine ⟨down, stands, fun ⟨any, why, refused⟩ => ?_,
    fun ⟨why, refused, _⟩ => ⟨_, why, refused⟩⟩
  rcases replied with never | refused
  · simp [never any] at refused
  · exact refused

end Machine

end WindowMachine
