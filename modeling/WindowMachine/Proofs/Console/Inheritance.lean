import WindowMachine.Proofs.Console.Alike

/-!
# What lines inherit

A line of a session is to find the stack, the globals and the return register
as the lines before have left them, and nothing else.  The methods that those
lines have registered are in the table all the same.  So a line comes out as
it would on a new machine with that stack, those globals and that register
just in case it calls no method but those that it declares itself and those
that no line before has registered.
-/

namespace WindowMachine

namespace Machine

variable {m : Machine} {entries : List Registration} {k : Int64}

/-! ## Enrolled methods -/

/-- The last method that is registered at an index. -/
def lastAt? (entries : List Registration) (k : Int64) : Option Method :=
  (entries.reverse.find? (·.index == k)).map (·.method)

theorem isSome_lastAt? :
    (lastAt? entries k).isSome = true ↔ ∃ r ∈ entries, r.index = k := by
  simp [lastAt?]

theorem lastAt?_eq_none_iff :
    lastAt? entries k = none ↔ ∀ r ∈ entries, r.index ≠ k := by
  simp [lastAt?]

theorem lastAt?_cons (first : Registration) (rest : List Registration) :
    lastAt? (first :: rest) k =
      (lastAt? rest k).or
        (if first.index = k then some first.method else none) := by
  simp only [lastAt?, List.reverse_cons, List.find?_append,
    List.find?_singleton, beq_iff_eq]
  cases rest.reverse.find? (·.index == k) with
  | none =>
      by_cases same : first.index = k
      · simp [same]
      · simp [same]
  | some r =>
      simp

/-- A method that is enrolled is found at its index, and elsewhere there is
what was there before. -/
theorem method?_enrolled (opened : m.closed = false)
    (fit : ∀ r ∈ entries, r.fits m.methods.size = true) :
    (m.withMethods (enrolled m.methods entries)).method? k =
      (lastAt? entries k).or (m.method? k) := by
  -- What the first entry registers is looked up after all the later ones.
  induction entries generalizing m with
  | nil =>
      rfl
  | cons first rest inductionHypothesis =>
      have set := enroll_of_fits opened (fit first List.mem_cons_self)
      have later := @inductionHypothesis
        { m with methods := enrolled m.methods [first] } opened
        fun r member => by
          simpa using fit r (List.mem_cons_of_mem _ member)
      rw [lastAt?_cons, Option.or_assoc]
      refine later.trans (congrArg _ ?_)
      by_cases same : first.index = k
      · rw [if_pos same, Option.some_or, ← same]
        exact setMethod_method?_self set
      · rw [if_neg same, Option.none_or]
        exact setMethod_method?_of_ne set (Ne.symm same)

/-- Methods that are all accepted all fit, and so all of them are enrolled. -/
theorem foldlM_seedMethod_enrolled {n : Machine} {named : List NamedMethod}
    (opened : m.closed = false)
    (seeded : named.foldlM Image.seedMethod m = .ok n) :
    (∀ r ∈ named.map fun entry => ⟨entry.index, entry.method⟩,
        Registration.fits m.methods.size r = true) ∧
      n.methods = enrolled m.methods
        (named.map fun entry => ⟨entry.index, entry.method⟩) := by
  induction named generalizing m with
  | nil =>
      cases seeded
      exact ⟨nofun, rfl⟩
  | cons first rest inductionHypothesis =>
      rw [List.foldlM_cons, bind_eq_ok_iff] at seeded
      obtain ⟨next, set, later⟩ := seeded
      have accepted := Image.seedMethod_eq_ok_iff.mp set
      cases fits : Registration.fits m.methods.size
        ⟨first.index, first.method⟩ with
      | false =>
          obtain ⟨why, refused⟩ := enroll_of_not_fits fits
          simp only [enroll, accepted, reduceCtorEq] at refused
      | true =>
          have enrolls := enroll_of_fits opened fits
          simp only [enroll, accepted, Except.ok.injEq] at enrolls
          have stays : next.closed = false := by
            rw [enrolls]
            exact opened
          obtain ⟨fit, methods⟩ := inductionHypothesis stays later
          rw [enrolls] at fit methods
          simp only [enrolled_size] at fit
          exact ⟨List.forall_mem_cons.mpr ⟨fits, fit⟩, methods⟩

theorem method?_blank (c : Capacities) : (blank c).method? k = none := by
  refine Option.eq_none_iff_forall_ne_some.mpr fun method found => ?_
  obtain ⟨place, -, entry⟩ := method?_eq_some_iff.mp found
  simp only [blank, Array.getElem?_replicate] at entry
  split at entry <;> cases entry

end Machine

namespace Console

open Machine

variable {c : Capacities} {m n start : Machine} {line : List UInt8}
  {earlier : List (List UInt8)} {k : Int64}

/-! ## Outcomes -/

/-- A new machine that has been given what a line is to find: the stack with
its top, the globals, the return register, and whether it is traced. -/
def afresh (m : Machine) : Machine :=
  { blank m.capacities with
    stack := m.stack
    globals := m.globals
    frame := { (blank m.capacities).frame with top := m.frame.top }
    result := m.result
    tracing := m.tracing }

/-- The program of a line, and the machine to which it has been applied.  There
is none if the line is no program, if it does not assemble, or if some of its
data are refused. -/
def applied? (m : Machine) (line : List UInt8) : Option (Image × Machine) :=
  if isProgram line then
    match assemble (program line) with
    | .error _ => none
    | .ok img =>
      match img.applyTo m with
      | (_, some _) => none
      | (n, none) => some (img, n)
  else none

def ending? (m : Machine) (line : List UInt8) : Option Ending :=
  (applied? m line).map fun (img, n) =>
    ((quiet n).proceed img.words img.entry).ending

/-- Whether the program of a line executes a call of an index. -/
def Calls (m : Machine) (line : List UInt8) (k : Int64) : Prop :=
  ∃ img n, applied? m line = some (img, n) ∧ n.ProgramCalls img k

def Declares (line : List UInt8) (k : Int64) : Prop :=
  ∃ r ∈ declared line, r.index = k

/-- Whether a line registers a method of an index in a table of some size. -/
def Registers (size : Nat) (line : List UInt8) (k : Int64) : Prop :=
  ∃ r ∈ registered size line, r.index = k

/-- What comes of a line: what is shown, how its program has ended, and what
the next line is to find. -/
structure Outcome where
  answer : String
  ending? : Option Ending
  stack : Array Slot
  top : Int64
  globals : Array Int32
  result : Int32
  tracing : Bool
  deriving DecidableEq, Repr

/-- What comes of a line, unless it ends the session. -/
def outcome? (m : Machine) (line : List UInt8) : Option Outcome :=
  (respond m line).map fun (n, answer) =>
    { answer := answer
      ending? := ending? m line
      stack := n.stack
      top := n.frame.top
      globals := n.globals
      result := n.result
      tracing := n.tracing }

/-- Whether a line inherits no methods: the same comes of it on a new machine,
and a call of a method that it does not declare fails. -/
structure StandsAlone (m : Machine) (line : List UInt8) : Prop where
  outcome : outcome? m line = outcome? (afresh m) line
  missing (k : Int64) : Calls m line k → ¬ Declares line k →
    ∃ pc op, ending? m line = some (.failed (.fault pc op (.noMethod k)))

/-! ## Lines on alike machines -/

theorem Sits.alike_afresh (sits : Sits c m)
    (size : m.methods.size = c.methods.toInt.toNat) :
    m.Alike (afresh m) where
  capacities := rfl
  stack := rfl
  globals := rfl
  methods := by
    rw [size, ← sits.shaped.capacities]
    exact Array.size_replicate
  top := rfl
  result := rfl
  closed := sits.shaped.opened.symm
  budget := by
    rw [sits.budget, ← sits.shaped.capacities]
    rfl
  tracing := rfl
  sink := sits.sink.symm

theorem applied?_eq_some_iff {img : Image} :
    applied? m line = some (img, n) ↔
      isProgram line = true ∧ assemble (program line) = .ok img ∧
        img.applyTo m = (n, none) := by
  constructor
  · intro found
    simp only [applied?] at found
    split at found
    · split at found
      · cases found
      · split at found
        · cases found
        · cases found
          exact ⟨‹_›, ‹_›, ‹_›⟩
    · cases found
  · rintro ⟨program, assembled, applied⟩
    simp only [applied?, program, assembled, applied, if_true]

theorem applied?_alike {img : Image} {mSeeded : Machine} (alike : m.Alike n)
    (applied : applied? m line = some (img, mSeeded)) :
    ∃ nSeeded, applied? n line = some (img, nSeeded) ∧
      mSeeded.Alike nSeeded := by
  obtain ⟨program, assembled, seeded⟩ := applied?_eq_some_iff.mp applied
  have both := alike.applyTo img
  rcases other : img.applyTo n with ⟨nSeeded, refusal⟩
  rw [seeded, other] at both
  obtain ⟨alikeSeeded, same⟩ := both
  obtain rfl : refusal = none := same
  exact ⟨nSeeded, applied?_eq_some_iff.mpr ⟨program, assembled, other⟩,
    alikeSeeded⟩

/-- A line whose program is run has had all its methods registered. -/
theorem method?_of_applied {img : Image} (opened : m.closed = false)
    (applied : applied? m line = some (img, n)) (k : Int64) :
    n.method? k = (lastAt? (declared line) k).or (m.method? k) := by
  obtain ⟨program, assembled, applied⟩ := applied?_eq_some_iff.mp applied
  obtain ⟨seeded, set, same⟩ := Image.applyTo_eq_none applied
  obtain ⟨fit, methods⟩ := foldlM_seedMethod_enrolled opened set
  rw [declared_program program assembled]
  exact (method?_congr (same.trans methods)).trans
    (method?_enrolled opened fit)

theorem outcome?_congr {a b : Machine × String}
    (one : respond m line = some a) (other : respond n line = some b)
    (alike : a.1.Alike b.1) (answer : b.2 = a.2)
    (ending : ending? n line = ending? m line) :
    outcome? m line = outcome? n line := by
  simp only [outcome?, one, other, Option.map_some, alike.stack, alike.top,
    alike.globals, alike.result, alike.tracing, answer, ending]

theorem outcome?_command (alike : m.Alike n)
    (command : isProgram line = false)
    (notFrame : line ≠ Utf8.ofString "frame") :
    outcome? m line = outcome? n line := by
  have ending : ending? n line = ending? m line := by
    simp [ending?, applied?, command]
  rcases eq_of_not_isProgram command with rfl | ⟨word, member, rfl⟩
  · exact outcome?_congr rfl rfl alike rfl ending
  · simp only [commands, List.mem_cons, List.not_mem_nil, or_false] at member
    rcases member with rfl | rfl | rfl | rfl | rfl | rfl | rfl
    · rfl
    · rfl
    · exact outcome?_congr rfl rfl alike rfl ending
    · exact outcome?_congr rfl rfl alike
        (congrArg (· ++ "\n") alike.stackText) ending
    -- This one shows where the frame of the last program stands.
    · exact absurd rfl notFrame
    · exact outcome?_congr rfl rfl alike.reset rfl ending
    · refine outcome?_congr rfl rfl { alike with tracing := ?_ } ?_ ending
      · exact congrArg (! ·) alike.tracing
      · simp only [alike.tracing]

/-- A line whose program is not run comes to the same on alike machines. -/
theorem outcome?_of_not_applied (alike : m.Alike n)
    (notFrame : line ≠ Utf8.ofString "frame")
    (nothing : applied? m line = none) :
    outcome? m line = outcome? n line := by
  cases program : isProgram line with
  | false =>
      exact outcome?_command alike program notFrame
  | true =>
      have one := respond_program (m := m) program
      have other := respond_program (m := n) program
      cases assembled : assemble (Console.program line) with
      | error fault =>
          rw [runLine_error assembled] at one other
          refine outcome?_congr one other alike rfl ?_
          simp [ending?, applied?, program, assembled]
      | ok img =>
          have seeded := alike.applyTo img
          rw [runLine_ok assembled] at one other
          rcases applied : img.applyTo m with ⟨mSeeded, refusal⟩
          rcases alsoApplied : img.applyTo n with ⟨nSeeded, alsoRefusal⟩
          rw [applied, alsoApplied] at seeded
          obtain ⟨alikeSeeded, same⟩ := seeded
          obtain rfl : alsoRefusal = refusal := same
          cases alsoRefusal with
          | none =>
              rw [applied?_eq_some_iff.mpr ⟨program, assembled, applied⟩]
                at nothing
              cases nothing
          | some why =>
              rw [runImage_refused applied] at one
              rw [runImage_refused alsoApplied] at other
              refine outcome?_congr one other alikeSeeded ?_ ?_
              · simp only [listed, alike.tracing]
              · simp [ending?, applied?, program, assembled, applied,
                  alsoApplied]

/-- A program that is run on alike machines, the second of which has fewer
methods, comes to the same on both just in case it calls none of those that
are missing there. -/
theorem outcome?_eq_iff {img : Image} {mSeeded nSeeded : Machine}
    (alike : m.Alike n) (applied : applied? m line = some (img, mSeeded))
    (alsoApplied : applied? n line = some (img, nSeeded))
    (alikeSeeded : mSeeded.Alike nSeeded) (opened : mSeeded.closed = false)
    (lacks : ∀ k, nSeeded.method? k = mSeeded.method? k ∨
      nSeeded.method? k = none) :
    outcome? m line = outcome? n line ↔
      ∀ k, mSeeded.ProgramCalls img k →
        nSeeded.method? k = mSeeded.method? k := by
  obtain ⟨program, assembled, seeded⟩ := applied?_eq_some_iff.mp applied
  obtain ⟨-, -, alsoSeeded⟩ := applied?_eq_some_iff.mp alsoApplied
  have one := respond_program (m := m) program
  have other := respond_program (m := n) program
  rw [runLine_ok assembled, runImage_applied seeded] at one
  rw [runLine_ok assembled, runImage_applied alsoSeeded] at other
  constructor
  · intro same
    -- The texts of two failures may be alike, so it is the endings that tell.
    refine (alikeSeeded.proceed_ending_iff opened lacks).mp ?_
    have endings := congrArg (Option.map Outcome.ending?) same
    simpa [outcome?, one, other, ending?, applied, alsoApplied]
      using endings.symm
  · intro agree
    have runs := alikeSeeded.proceed agree
    have listing : listed n img = listed m img := by
      simp only [listed, alike.tracing]
    obtain ⟨machines, answers⟩ := runs.concluded (listed m img)
    rw [listing] at other
    refine outcome?_congr one other machines answers ?_
    simp only [ending?, applied, alsoApplied, Option.map_some, runs.ending]

/-! ## Lines on a new machine -/

section Afresh

variable {img : Image} {seeded other : Machine}

theorem method?_afresh (m : Machine) (k : Int64) :
    (afresh m).method? k = none :=
  (method?_congr rfl).trans (method?_blank m.capacities)

theorem calls_iff (applied : applied? m line = some (img, seeded)) :
    Calls m line k ↔ seeded.ProgramCalls img k := by
  constructor
  · rintro ⟨_, _, found, calls⟩
    cases applied.symm.trans found
    exact calls
  · exact fun calls => ⟨img, seeded, applied, calls⟩

theorem Sits.opened_of_applied (sits : Sits c m)
    (applied : applied? m line = some (img, seeded)) :
    seeded.closed = false := by
  have opened := (sits.seed img).sits.shaped.opened
  rwa [(applied?_eq_some_iff.mp applied).2.2] at opened

theorem method?_of_applied_afresh
    (applied : applied? (afresh m) line = some (img, other)) (k : Int64) :
    other.method? k = lastAt? (declared line) k := by
  rw [method?_of_applied rfl applied, method?_afresh, Option.or_none]

theorem agree_afresh_iff (opened : m.closed = false)
    (applied : applied? m line = some (img, seeded))
    (afresh : applied? (afresh m) line = some (img, other)) :
    other.method? k = seeded.method? k ↔
      Declares line k ∨ m.method? k = none := by
  rw [method?_of_applied opened applied, method?_of_applied_afresh afresh,
    Declares, ← isSome_lastAt?]
  cases lastAt? (declared line) k with
  | none =>
      simp [eq_comm]
  | some method =>
      simp

theorem lacks_afresh (opened : m.closed = false)
    (applied : applied? m line = some (img, seeded))
    (afresh : applied? (afresh m) line = some (img, other)) (k : Int64) :
    other.method? k = seeded.method? k ∨ other.method? k = none := by
  rw [method?_of_applied opened applied, method?_of_applied_afresh afresh]
  cases lastAt? (declared line) k with
  | none =>
      exact .inr rfl
  | some method =>
      exact .inl rfl

/-- The same comes of a line on a new machine just in case it calls only
methods that it declares or that the table does not have. -/
theorem Sits.outcome?_eq_iff (sits : Sits c m)
    (size : m.methods.size = c.methods.toInt.toNat)
    (notFrame : line ≠ Utf8.ofString "frame") :
    outcome? m line = outcome? (afresh m) line ↔
      ∀ k, Calls m line k → Declares line k ∨ m.method? k = none := by
  have alike := sits.alike_afresh size
  cases applied : applied? m line with
  | none =>
      simp only [outcome?_of_not_applied alike notFrame applied, true_iff]
      rintro k ⟨img, seeded, found, -⟩
      cases applied.symm.trans found
  | some found =>
      obtain ⟨img, seeded⟩ := found
      obtain ⟨other, afresh, alikeSeeded⟩ := applied?_alike alike applied
      have opened := sits.shaped.opened
      rw [Console.outcome?_eq_iff alike applied afresh alikeSeeded
        (sits.opened_of_applied applied) (lacks_afresh opened applied afresh)]
      simp only [calls_iff applied, agree_afresh_iff opened applied afresh]

theorem Sits.ending_of_missing (sits : Sits c m) (calls : Calls m line k)
    (notDeclared : ¬ Declares line k) (missing : m.method? k = none) :
    ∃ pc op, ending? m line = some (.failed (.fault pc op (.noMethod k))) := by
  obtain ⟨img, seeded, applied, calls⟩ := calls
  have notThere : seeded.method? k = none := by
    rw [method?_of_applied sits.shaped.opened applied, missing,
      Option.or_none]
    exact Option.not_isSome_iff_eq_none.mp fun found =>
      notDeclared (isSome_lastAt?.mp found)
  obtain ⟨pc, op, ending⟩ :=
    calls.ending_of_missing (sits.opened_of_applied applied) notThere
  exact ⟨pc, op, by simp [ending?, applied, ending]⟩

theorem Sits.standsAlone_iff (sits : Sits c m)
    (size : m.methods.size = c.methods.toInt.toNat)
    (notFrame : line ≠ Utf8.ofString "frame") :
    StandsAlone m line ↔
      ∀ k, Calls m line k → Declares line k ∨ m.method? k = none := by
  rw [← sits.outcome?_eq_iff size notFrame]
  refine ⟨StandsAlone.outcome, fun same => ⟨same, ?_⟩⟩
  intro k calls notDeclared
  have known := (sits.outcome?_eq_iff size notFrame).mp same k calls
  exact sits.ending_of_missing calls notDeclared
    (known.resolve_left notDeclared)

end Afresh

/-! ## Lines of a session -/

theorem consoleMachine_sits {s : Settings} {commandLine : CommandLine}
    (made : Runner.consoleMachine s commandLine = .ok start) :
    Sits s.machine start ∧
      start.methods.size = s.machine.methods.toInt.toNat ∧
        ∀ k, start.method? k = none := by
  obtain rfl := consoleMachine_eq_ok made
  refine ⟨?_, Array.size_replicate, ?_⟩
  · exact
      { shaped := (blank_shaped s.machine).congr rfl rfl rfl rfl
        budget := rfl
        sink := rfl }
  · exact fun k => (method?_congr rfl).trans (method?_blank s.machine)

theorem Comes.method?_eq_none_iff {entries : List Registration}
    (comes : Comes c m entries n) (opened : m.closed = false)
    (fit : ∀ r ∈ entries, r.fits m.methods.size = true)
    (missing : m.method? k = none) :
    n.method? k = none ↔ ∀ r ∈ entries, r.index ≠ k := by
  have found : n.method? k = (lastAt? entries k).or (m.method? k) :=
    (method?_congr comes.methods).trans (method?_enrolled opened fit)
  rw [found, missing, Option.or_none, lastAt?_eq_none_iff]

/-- A line of a session stands alone just in case each index that it calls is
declared by the line itself or registered by no line before.  So not all lines
do, although the console says that a method is only for the line that declares
it. -/
theorem session_standsAlone_iff {s : Settings} {commandLine : CommandLine}
    (made : Runner.consoleMachine s commandLine = .ok start) (text : String)
    (stay : ∀ before ∈ earlier, isFarewell (trimmed before) = false)
    (notFrame : line ≠ Utf8.ofString "frame") :
    StandsAlone (session start text earlier).1 line ↔
      ∀ k, Calls (session start text earlier).1 line k →
        Declares line k ∨
          ∀ before ∈ earlier,
            ¬ Registers start.methods.size (trimmed before) k := by
  obtain ⟨sits, size, noMethods⟩ := consoleMachine_sits made
  have comes := session_comes sits text stay
  have sameSize : (session start text earlier).1.methods.size =
      s.machine.methods.toInt.toNat := by
    rw [comes.methods, enrolled_size, size]
  have fit : ∀ r ∈ earlier.flatMap fun before =>
      registered start.methods.size (trimmed before),
        r.fits start.methods.size = true := by
    intro r member
    obtain ⟨before, -, taken⟩ := List.mem_flatMap.mp member
    exact List.all_eq_true.mp List.all_takeWhile r taken
  have missing_iff (k : Int64) :
      (session start text earlier).1.method? k = none ↔
        ∀ before ∈ earlier,
          ¬ Registers start.methods.size (trimmed before) k := by
    rw [comes.method?_eq_none_iff sits.shaped.opened fit (noMethods k)]
    constructor
    · rintro apart before member ⟨r, taken, index⟩
      exact apart r (List.mem_flatMap.mpr ⟨before, member, taken⟩) index
    · rintro apart r member index
      obtain ⟨before, member, taken⟩ := List.mem_flatMap.mp member
      exact apart before member ⟨r, taken, index⟩
  rw [comes.sits.standsAlone_iff sameSize notFrame]
  simp only [missing_iff]

def fewSlots : Settings where
  machine := { stack := 4, depth := 2, methods := 2, globals := 1, budget := 9 }

def declaration : List UInt8 := Utf8.ofString ".method f, 0, 0"

/-- A line that calls a method and declares none. -/
def bareCall : List UInt8 := Utf8.ofString "call 0"

theorem calls_bareCall :
    Calls (session (blank fewSlots.machine) "" [declaration]).1 bareCall
      0 := by
  have begins :
      (applied? (session (blank fewSlots.machine) "" [declaration]).1
          bareCall).map
        (fun (img, n) =>
          (((quiet n).resume img.words img.entry).next?,
            (quiet n).patience)) =
      some (some (Instruction.decode 0x20), 10) := by
    decide +kernel
  obtain ⟨⟨img, n⟩, applied, same⟩ := Option.map_eq_some_iff.mp begins
  simp only [Prod.mk.injEq] at same
  refine ⟨img, n, applied, ?_⟩
  rw [ProgramCalls, same.2]
  exact runCalls_of_next? same.1 rfl 9

/-- The call stands alone at the beginning of a session, and it does not after
a line that declares the method. -/
theorem bareCall_standsAlone :
    Runner.consoleMachine fewSlots ⟨[], []⟩ = .ok (blank fewSlots.machine) ∧
      StandsAlone (session (blank fewSlots.machine) "" []).1 bareCall ∧
        ¬ StandsAlone (session (blank fewSlots.machine) "" [declaration]).1
          bareCall := by
  have made : Runner.consoleMachine fewSlots ⟨[], []⟩ =
      .ok (blank fewSlots.machine) := rfl
  have notFrame : bareCall ≠ Utf8.ofString "frame" := by decide +kernel
  refine ⟨made, ?_, ?_⟩
  · refine (session_standsAlone_iff made "" (List.forall_mem_nil _)
      notFrame).mpr ?_
    exact fun k _ => .inr (List.forall_mem_nil _)
  · intro alone
    have stays : ∀ before ∈ [declaration],
        isFarewell (trimmed before) = false := by
      decide +kernel
    have known := (session_standsAlone_iff made "" stays notFrame).mp alone 0
      calls_bareCall
    have nothing : declared bareCall = [] := by decide +kernel
    have registers : 0 ∈ (registered (blank fewSlots.machine).methods.size
        (trimmed declaration)).map (·.index) := by
      decide +kernel
    rcases known with ⟨r, member, -⟩ | apart
    · rw [nothing] at member
      cases member
    · obtain ⟨r, taken, index⟩ := List.mem_map.mp registers
      exact apart declaration List.mem_cons_self ⟨r, taken, index⟩

end Console

end WindowMachine
