import WindowMachine.Proofs.Machine.History
import WindowMachine.Proofs.Machine.Views

/-!
# What came out before

A machine adds to its output and to its trace, and it never looks at either.
A machine that has printed and noted down something before therefore obeys
every command as it would have without, and gives the same answers.
-/

namespace WindowMachine

/-- What a command hands back. -/
inductive Answer where
  /-- Nothing. -/
  | done
  /-- Whether a setter, or one of the seeds of an image, was refused. -/
  | set (refusal : Option Failure)
  | stepped (outcome : StepOutcome)
  | ran (count : Nat) (ending : Ending)
  deriving DecidableEq, Repr

/-- What an attempt to set something up hands back. -/
def Answer.ofAttempt : Except Failure Machine → Answer
  | .ok _ => .set none
  | .error why => .set (some why)

/-- What a run hands back. -/
def Answer.ofRun (r : Run) : Answer := .ran r.count r.ending

namespace Machine

/-- The answer of a machine to a command. -/
def answer (m : Machine) : Command → Answer
  | .setMethod index method => .ofAttempt (m.setMethod index method)
  | .setStack index value => .ofAttempt (m.setStack index value)
  | .setSlot index bits => .ofAttempt (m.setSlot index bits)
  | .setGlobal index value => .ofAttempt (m.setGlobal index value)
  | .seed image => .set (image.applyTo m).2
  | .step => .stepped m.step.2
  | .run code entry => .ofRun (m.run code entry)
  | .proceed code entry => .ofRun (m.proceed code entry)
  | .load .. | .reset | .close | .adjust .. => .done

/-- The answers of a machine along a history. -/
def answers (m : Machine) : List Command → List Answer
  | [] => []
  | first :: rest => m.answer first :: (m.obey first).answers rest

/-- A machine that has put out some text and some trace before its own. -/
def headed (m : Machine) (text : String) (lines : Array TraceLine) :
    Machine :=
  { m with output := text ++ m.output, trace := lines ++ m.trace }

variable (m : Machine) (text : String) (lines : Array TraceLine)

/-! ## Setting up -/

theorem setMethod_headed (index : Int64) (method : Method) :
    (m.headed text lines).setMethod index method =
      (m.setMethod index method).map (·.headed text lines) := by
  simp only [setMethod, headed]
  by_cases closed : m.closed = true
  · simp [closed, Except.map]
  · cases position? index m.methods.size with
    | none =>
        simp [closed, Except.map]
    | some place =>
        by_cases negative :
            method.entry < 0 ∨ method.args < 0 ∨ method.locals < 0
        · simp [closed, negative, Except.map]
        · simp [closed, negative, Except.map]

theorem setSlot_headed (index : Int64) (bits : Slot) :
    (m.headed text lines).setSlot index bits =
      (m.setSlot index bits).map (·.headed text lines) := by
  simp only [setSlot, headed]
  by_cases closed : m.closed = true
  · simp [closed, Except.map]
  · cases position? index m.stack.size with
    | none | some place =>
        simp [closed, Except.map]

theorem setGlobal_headed (index : Int64) (value : Int32) :
    (m.headed text lines).setGlobal index value =
      (m.setGlobal index value).map (·.headed text lines) := by
  simp only [setGlobal, headed]
  by_cases closed : m.closed = true
  · simp [closed, Except.map]
  · cases position? index m.globals.size with
    | none | some place =>
        simp [closed, Except.map]

theorem orKeep_headed (result : Except Failure Machine) :
    (m.headed text lines).orKeep (result.map (·.headed text lines)) =
      (m.orKeep result).headed text lines := by
  cases result <;> rfl

theorem ofAttempt_headed (result : Except Failure Machine) :
    Answer.ofAttempt (result.map (·.headed text lines)) =
      Answer.ofAttempt result := by
  cases result <;> rfl

theorem seedAll_headed {α : Type} (set : Machine → α → Except Failure Machine)
    (each : ∀ m entry, set (m.headed text lines) entry =
      (set m entry).map (·.headed text lines))
    (entries : List α) :
    Image.seedAll set (m.headed text lines) entries =
      ((Image.seedAll set m entries).1.headed text lines,
        (Image.seedAll set m entries).2) := by
  induction entries generalizing m with
  | nil =>
      rfl
  | cons entry rest inductionHypothesis =>
      simp only [Image.seedAll, each]
      cases set m entry with
      | error why =>
          rfl
      | ok n =>
          exact inductionHypothesis n

theorem seedMethod_headed (entry : NamedMethod) :
    Image.seedMethod (m.headed text lines) entry =
      (Image.seedMethod m entry).map (·.headed text lines) := by
  simp only [Image.seedMethod, setMethod_headed]
  cases m.setMethod entry.index entry.method <;> rfl

theorem applyTo_headed (image : Image) :
    image.applyTo (m.headed text lines) =
      ((image.applyTo m).1.headed text lines, (image.applyTo m).2) := by
  have methods := seedAll_headed m text lines Image.seedMethod
    (fun m entry => seedMethod_headed m text lines entry)
    image.methods.toList
  simp only [Image.applyTo, methods]
  rcases Image.seedAll Image.seedMethod m image.methods.toList with
    ⟨seeded, refusal⟩
  cases refusal with
  | some why =>
      rfl
  | none =>
      have globals := seedAll_headed seeded text lines
        (fun m (g : GlobalSeed) => m.setGlobal g.index g.value)
        (fun m g => setGlobal_headed m text lines g.index g.value)
        image.globals.toList
      simp only [globals]
      rcases Image.seedAll
        (fun m (g : GlobalSeed) => m.setGlobal g.index g.value)
        seeded image.globals.toList with ⟨filled, refusal⟩
      cases refusal with
      | some why =>
          rfl
      | none =>
          exact seedAll_headed filled text lines
            (fun m (s : StackSeed) => m.setSlot s.index s.bits)
            (fun m s => setSlot_headed m text lines s.index s.bits)
            image.stack.toList

/-! ## Stepping -/

theorem note_headed (line : TraceLine) :
    (m.headed text lines).note line =
      (m.note line).headed text lines := by
  by_cases tracing : m.tracing = true
  · simp [note, headed, tracing]
  · simp [note, headed, tracing]

theorem fetched_headed (i : Instruction) :
    (m.headed text lines).fetched i =
      (m.fetched i).headed text lines :=
  note_headed m.advance text lines _

theorem apply_headed (e : Effect) :
    (m.headed text lines).apply e = (m.apply e).headed text lines := by
  cases e with
  | print value =>
      cases printed : m.sink with
      | keep =>
          simp [apply, headed, printed, String.append_assoc]
      | drop | refuse reason =>
          simp [apply, headed, printed]
  | _ =>
      rfl

theorem headed_resembles : m.Resembles (m.headed text lines) where
  capacities := rfl
  size := rfl
  globals := rfl
  methods := rfl
  frame := rfl
  callers := rfl
  result := rfl
  sink := rfl
  bits _ _ := rfl

theorem step_headed :
    (m.headed text lines).step =
      (m.step.1.headed text lines, m.step.2) := by
  cases fetches : m.next? with
  | none =>
      have alsoNothing : (m.headed text lines).next? = none := fetches
      rw [step_of_next?_none fetches, step_of_next?_none alsoNothing]
      rfl
  | some i =>
      have alike := headed_resembles (m.fetched i) text lines
      rw [← fetched_headed] at alike
      obtain ⟨outcomes, machines⟩ := step_alongside fetches
        (show (m.headed text lines).next? = some i from fetches) alike rfl
        (fun op _ => .refl op i)
      refine Prod.ext ?_ outcomes
      rcases machines with ⟨one, other⟩ | ⟨e, -, one, other⟩
      · rw [one, other, fetched_headed]
      · rw [one, other, fetched_headed, apply_headed]

theorem loop_headed (fuel : Nat) :
    loop fuel (m.headed text lines) =
      { loop fuel m with
        machine := (loop fuel m).machine.headed text lines } := by
  induction fuel generalizing m with
  | zero =>
      rfl
  | succ fuel inductionHypothesis =>
      simp only [loop, step_headed]
      rcases m.step with ⟨n, outcome⟩
      cases outcome with
      | failed why =>
          simp only [note_headed]
          rfl
      | running =>
          exact inductionHypothesis n
      | ended | broke =>
          rfl

theorem run_headed (code : Array Word) (entry : Int64) :
    (m.headed text lines).run code entry =
      { m.run code entry with
        machine := (m.run code entry).machine.headed text lines } := by
  have loops := loop_headed (m.load code entry) text lines m.patience
  by_cases closed : m.closed = true
  · simp only [run, if_pos closed]
    exact if_pos closed
  · by_cases empty : code.isEmpty = true
    · simp only [run, if_neg closed, if_pos empty]
      exact if_neg closed
    · simp only [run, if_neg closed, if_neg empty]
      exact (if_neg closed).trans loops

theorem resume_headed (code : Array Word) (entry : Int64) :
    (m.headed text lines).resume code entry =
      (m.resume code entry).headed text lines := by
  by_cases inside : -1 ≤ m.frame.top ∧
      m.frame.top < Int64.ofNat (m.load code entry).stack.size
  · simp only [resume, if_pos inside]
    exact if_pos inside
  · simp only [resume, if_neg inside]
    exact if_neg inside

theorem proceed_headed (code : Array Word) (entry : Int64) :
    (m.headed text lines).proceed code entry =
      { m.proceed code entry with
        machine := (m.proceed code entry).machine.headed text lines } := by
  have loops := loop_headed (m.resume code entry) text lines m.patience
  rw [← resume_headed] at loops
  by_cases closed : m.closed = true
  · simp only [proceed, if_pos closed]
    exact if_pos closed
  · by_cases empty : code.isEmpty = true
    · simp only [proceed, if_neg closed, if_pos empty]
      exact if_neg closed
    · simp only [proceed, if_neg closed, if_neg empty]
      exact (if_neg closed).trans loops

/-! ## Commands and histories -/

theorem obey_headed (command : Command) :
    (m.headed text lines).obey command =
      (m.obey command).headed text lines := by
  cases command with
  | setMethod index method =>
      rw [obey, setMethod_headed, orKeep_headed, obey]
  | setStack index value =>
      rw [obey, setStack, setSlot_headed, orKeep_headed, obey, setStack]
  | setSlot index bits =>
      rw [obey, setSlot_headed, orKeep_headed, obey]
  | setGlobal index value =>
      rw [obey, setGlobal_headed, orKeep_headed, obey]
  | seed image =>
      rw [obey, applyTo_headed, obey]
  | step =>
      rw [obey, step_headed, obey]
  | run code entry =>
      rw [obey, run_headed, obey]
  | proceed code entry =>
      rw [obey, proceed_headed, obey]
  | reset =>
      cases closed : m.closed with
      | true | false =>
          simp [obey, reset, headed, closed, entryFrame]
  | load | close | adjust =>
      rfl

theorem answer_headed (command : Command) :
    (m.headed text lines).answer command = m.answer command := by
  cases command with
  | setMethod index method =>
      rw [answer, setMethod_headed, ofAttempt_headed, answer]
  | setStack index value =>
      rw [answer, setStack, setSlot_headed, ofAttempt_headed, answer,
        setStack]
  | setSlot index bits =>
      rw [answer, setSlot_headed, ofAttempt_headed, answer]
  | setGlobal index value =>
      rw [answer, setGlobal_headed, ofAttempt_headed, answer]
  | seed image =>
      rw [answer, applyTo_headed, answer]
  | step =>
      rw [answer, step_headed, answer]
  | run code entry =>
      rw [answer, run_headed, answer]
      rfl
  | proceed code entry =>
      rw [answer, proceed_headed, answer]
      rfl
  | load | reset | close | adjust =>
      rfl

theorem after_headed (history : List Command) :
    (m.headed text lines).after history =
      (m.after history).headed text lines := by
  induction history generalizing m with
  | nil =>
      rfl
  | cons first rest inductionHypothesis =>
      simp only [after, List.foldl_cons, obey_headed]
      exact inductionHypothesis (m.obey first)

/-- What came out before has no part in what a machine answers. -/
theorem answers_headed (history : List Command) :
    (m.headed text lines).answers history = m.answers history := by
  induction history generalizing m with
  | nil =>
      rfl
  | cons first rest inductionHypothesis =>
      rw [answers, answer_headed, obey_headed, inductionHypothesis, answers]

end Machine

end WindowMachine
