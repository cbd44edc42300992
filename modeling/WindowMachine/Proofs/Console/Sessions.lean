import WindowMachine.Proofs.Machine.Resets
import WindowMachine.Proofs.Machine.Switches
import WindowMachine.Tool.Runner

/-!
# Sessions

A session answers its lines one after the other on a machine that stays.  No
line closes the machine or changes its sizes, its budget or its sink, and none
takes a method out of the table.  After any lines the table has what the
programs among them have registered, whether these came to their end, failed,
or had some of their data refused.
-/

namespace WindowMachine

namespace Console

open Machine

variable {c : Capacities} {m n : Machine} {line : List UInt8}
  {lines : List (List UInt8)}

/-! ## Lines -/

/-- The words that the console answers by itself. -/
def commands : List String :=
  ["quit", "exit", "help", "stack", "frame", "clear", "debug"]

/-- Whether a line without blanks at its ends is taken for a program. -/
def isProgram (line : List UInt8) : Bool :=
  !line.isEmpty && !commands.any fun word => line == Utf8.ofString word

/-- Whether a line without blanks at its ends ends the session. -/
def isFarewell (line : List UInt8) : Bool :=
  line == Utf8.ofString "quit" || line == Utf8.ofString "exit"

theorem respond_program (program : isProgram line = true) :
    respond m line = some (runLine m line) := by
  simp only [isProgram, commands, List.any_cons, List.any_nil,
    Bool.or_false, Bool.and_eq_true, Bool.not_eq_true', Bool.or_eq_false_iff]
    at program
  simp [respond, program]

theorem eq_of_not_isProgram (command : isProgram line = false) :
    line = [] ∨ ∃ word ∈ commands, line = Utf8.ofString word := by
  by_cases empty : line = []
  · exact .inl empty
  · right
    simpa [isProgram, empty] using command

/-- A line that is no program and does not end the session leaves the machine
as it is, resets it, or switches its tracing. -/
theorem respond_command (m : Machine) (command : isProgram line = false)
    (stays : isFarewell line = false) :
    ∃ n answer, respond m line = some (n, answer) ∧
      (n = m ∨ n = m.reset ∨ n = { m with tracing := !m.tracing }) := by
  rcases eq_of_not_isProgram command with rfl | ⟨word, member, rfl⟩
  · exact ⟨_, _, rfl, .inl rfl⟩
  · simp only [commands, List.mem_cons, List.not_mem_nil, or_false] at member
    rcases member with rfl | rfl | rfl | rfl | rfl | rfl | rfl
    case inl | inr.inl =>
      cases stays
    case inr.inr.inl | inr.inr.inr.inl | inr.inr.inr.inr.inl =>
      exact ⟨_, _, rfl, .inl rfl⟩
    · exact ⟨_, _, rfl, .inr (.inl rfl)⟩
    · exact ⟨_, _, rfl, .inr (.inr rfl)⟩

/-! ## Programs -/

/-- The listing that comes before what a program shows. -/
def listed (m : Machine) (img : Image) : String :=
  if m.tracing then Listing.ofCode img.words else ""

def quiet (m : Machine) : Machine :=
  { m with output := "", trace := #[] }

/-- The machine that a run leaves to the next line, and what is shown of the
run after some text. -/
def concluded (text : String) (r : Run) : Machine × String :=
  match r.ending.failure? with
  | some why =>
    (r.machine.reset,
      text ++ r.machine.output ++ "Error: " ++ why.message ++ "\n")
  | none =>
    (r.machine,
      text ++ r.machine.output ++ "-> " ++ r.machine.stackText ++ "\n")

theorem runLine_error {fault : SourceFault}
    (refused : assemble (program line) = .error fault) :
    runLine m line = (m, "Error: " ++ fault.message "" ++ "\n") := by
  rw [runLine, refused]

theorem runLine_ok {img : Image}
    (assembled : assemble (program line) = .ok img) :
    runLine m line = runImage m img := by
  rw [runLine, assembled]

theorem runImage_refused {img : Image} {why : Failure}
    (refused : img.applyTo m = (n, some why)) :
    runImage m img =
      (n, listed m img ++ "Error: " ++ why.message ++ "\n") := by
  rw [runImage, refused]
  rfl

theorem runImage_applied {img : Image} (applied : img.applyTo m = (n, none)) :
    runImage m img =
      concluded (listed m img) ((quiet n).proceed img.words img.entry) := by
  rw [runImage, applied]
  rfl

theorem concluded_machine (text : String) (r : Run) :
    (concluded text r).1 = r.machine ∨
      (concluded text r).1 = r.machine.reset := by
  unfold concluded
  split
  · exact .inr rfl
  · exact .inl rfl

/-! ## Registrations -/

/-- The methods that a line declares, in this order. -/
def declared (line : List UInt8) : List Registration :=
  if isProgram line then
    match assemble (program line) with
    | .ok img => (Command.seed img).offers
    | .error _ => []
  else []

/-- The methods that a line registers in a table of some size: those that it
declares, up to the first one that is refused. -/
def registered (size : Nat) (line : List UInt8) : List Registration :=
  (declared line).takeWhile (·.fits size)

theorem declared_program {img : Image} (program : isProgram line = true)
    (assembled : assemble (Console.program line) = .ok img) :
    declared line = (Command.seed img).offers := by
  simp only [declared, program, assembled, if_true]

theorem registered_command (size : Nat) (command : isProgram line = false) :
    registered size line = [] := by
  simp [registered, declared, command]

theorem registered_fault (size : Nat) {fault : SourceFault}
    (refused : assemble (program line) = .error fault) :
    registered size line = [] := by
  simp [registered, declared, refused]

/-! ## Machines of a session -/

/-- Whether a machine may be that of a session: it is open, of the sizes and
the budget that its capacities give it, and it keeps what it prints. -/
structure Sits (c : Capacities) (m : Machine) : Prop where
  shaped : m.Shaped c
  budget : m.budget = c.budget
  sink : m.sink = .keep

theorem Sits.obey (sits : Sits c m) (command : Command)
    (notClose : command ≠ .close)
    (notAdjust : ∀ budget tracing sink,
      command ≠ .adjust budget tracing sink) :
    Sits c (m.obey command) := by
  have same := obey_switches (m := m) notAdjust
  simp only [switches, Prod.mk.injEq] at same
  exact
    { shaped := sits.shaped.obey notClose
      budget := same.1.trans sits.budget
      sink := same.2.2.trans sits.sink }

/-- Whether a machine comes from another one in a session in which the method
table has got some entries. -/
structure Comes (c : Capacities) (m : Machine) (entries : List Registration)
    (n : Machine) : Prop where
  sits : Sits c n
  methods : n.methods = enrolled m.methods entries

namespace Comes

variable {entries : List Registration}

theorem obey (comes : Comes c m entries n) (command : Command)
    (leaves : command.LeavesMethods)
    (notAdjust : ∀ budget tracing sink,
      command ≠ .adjust budget tracing sink) :
    Comes c m entries (n.obey command) where
  sits := by
    refine comes.sits.obey command ?_ notAdjust
    rintro rfl
    exact leaves
  methods := (obey_methods leaves).trans comes.methods

theorem reset (comes : Comes c m entries n) : Comes c m entries n.reset :=
  comes.obey .reset trivial nofun

/-- A session may clear what it has shown and switch its tracing. -/
theorem shown (comes : Comes c m entries n) (tracing : Bool)
    (trace : Array TraceLine) (output : String) :
    Comes c m entries
      { n with tracing := tracing, trace := trace, output := output } where
  sits :=
    { shaped := comes.sits.shaped.congr rfl rfl rfl rfl
      budget := comes.sits.budget
      sink := comes.sits.sink }
  methods := comes.methods

end Comes

theorem Sits.comes (sits : Sits c m) : Comes c m [] m where
  sits := sits
  methods := rfl

theorem Sits.seed (sits : Sits c m) (img : Image) :
    Comes c m ((Command.seed img).registrations m.methods.size)
      (img.applyTo m).1 where
  sits := sits.obey (.seed img) nofun nofun
  methods := (obey_enrolled sits.shaped.opened nofun :
    (m.obey (.seed img)).methods = _)

theorem runImage_comes (sits : Sits c m) (img : Image) :
    Comes c m ((Command.seed img).registrations m.methods.size)
      (runImage m img).1 := by
  have seeded := sits.seed img
  rcases applied : img.applyTo m with ⟨n, refusal⟩
  rw [applied] at seeded
  cases refusal with
  | some why =>
      rw [runImage_refused applied]
      exact seeded
  | none =>
      rw [runImage_applied applied]
      have ran := (seeded.shown n.tracing #[] "").obey
        (.proceed img.words img.entry) trivial nofun
      rcases concluded_machine (listed m img)
        ((quiet n).proceed img.words img.entry) with same | same
      · rw [same]
        exact ran
      · rw [same]
        exact ran.reset

/-- A line adds its methods to the table, whatever becomes of its program. -/
theorem respond_comes (sits : Sits c m) (stays : isFarewell line = false) :
    ∃ n answer, respond m line = some (n, answer) ∧
      Comes c m (registered m.methods.size line) n := by
  cases program : isProgram line with
  | false =>
      obtain ⟨n, answer, answered, changed⟩ :=
        respond_command m program stays
      refine ⟨n, answer, answered, ?_⟩
      rw [registered_command _ program]
      rcases changed with rfl | rfl | rfl
      · exact sits.comes
      · exact sits.comes.reset
      · exact sits.comes.shown _ _ _
  | true =>
      refine ⟨(runLine m line).1, (runLine m line).2,
        respond_program program, ?_⟩
      cases assembled : assemble (Console.program line) with
      | error fault =>
          rw [registered_fault _ assembled, runLine_error assembled]
          exact sits.comes
      | ok img =>
          rw [registered, declared_program program assembled,
            runLine_ok assembled]
          exact runImage_comes sits img

/-- Lines that do not end the session add their methods to the table, one
line after the other. -/
theorem session_comes (sits : Sits c m) (text : String)
    (stay : ∀ line ∈ lines, isFarewell (trimmed line) = false) :
    Comes c m
      (lines.flatMap fun line => registered m.methods.size (trimmed line))
      (session m text lines).1 := by
  induction lines generalizing m text with
  | nil =>
      exact sits.comes
  | cons first rest inductionHypothesis =>
      obtain ⟨next, answer, answered, comes⟩ :=
        respond_comes sits (stay first List.mem_cons_self)
      obtain ⟨sits, methods⟩ := inductionHypothesis comes.sits
        (text ++ prompt ++ answer)
        fun line member => stay line (List.mem_cons_of_mem _ member)
      rw [comes.methods, enrolled_size] at methods
      simp only [session, answered]
      refine ⟨sits, methods.trans ?_⟩
      rw [List.flatMap_cons, enrolled_append]

theorem consoleMachine_eq_ok {s : Settings} {commandLine : CommandLine}
    (made : Runner.consoleMachine s commandLine = .ok m) :
    m = { blank s.machine with tracing := commandLine.switch "debug" } := by
  simp only [Runner.consoleMachine] at made
  cases new : Machine.new s.machine with
  | error why =>
      rw [new] at made
      cases made
  | ok fresh =>
      rw [new] at made
      obtain ⟨-, -, rfl⟩ := new_eq_ok_iff.mp new
      cases made
      rfl

end Console

end WindowMachine
