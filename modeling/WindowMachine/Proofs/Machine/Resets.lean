import WindowMachine.Proofs.Machine.EarlierOutput
import WindowMachine.Proofs.Machine.Seeding
import WindowMachine.Proofs.Machine.Stops

/-!
# Resets

A history of commands leaves the sizes of a machine alone, and it leaves in
the method table, for each index, the last method that was registered there.
Everything else that a command can change is set back by a reset.  So a
machine that is reset goes on like a new one on which the last methods are
registered, with the budget, the tracing and the sink of the old one.

Which registrations are accepted depends on the commands and on the size of
the table alone.
-/

namespace WindowMachine

/-! ## Registrations -/

/-- A method and the index at which it is to be registered. -/
structure Registration where
  index : Int64
  method : Method
  deriving DecidableEq, Repr

/-- Whether a table of some size accepts a registration. -/
def Registration.fits (size : Nat) (r : Registration) : Bool :=
  (position? r.index size).isSome &&
    !(r.method.entry < 0 || r.method.args < 0 || r.method.locals < 0)

/-- What a command would register, in this order. -/
def Command.offers : Command → List Registration
  | .setMethod index method => [⟨index, method⟩]
  | .seed image =>
    image.methods.toList.map fun entry => ⟨entry.index, entry.method⟩
  | _ => []

/-- What a command registers in a table of some size: it stops at the first
registration that is refused. -/
def Command.registrations (size : Nat) (command : Command) :
    List Registration :=
  command.offers.takeWhile (·.fits size)

/-- The last registration of each index. -/
def latest : List Registration → List Registration
  | [] => []
  | first :: rest =>
    if rest.any fun later => later.index == first.index then latest rest
    else first :: latest rest

/-- A method table after some registrations. -/
def enrolled (table : Array (Option Method)) (entries : List Registration) :
    Array (Option Method) :=
  entries.foldl
    (fun table r => table.setIfInBounds r.index.toInt.toNat (some r.method))
    table

section Tables

variable (table : Array (Option Method)) {entries : List Registration}

theorem enrolled_cons (first : Registration) (rest : List Registration) :
    enrolled table (first :: rest) =
      enrolled
        (table.setIfInBounds first.index.toInt.toNat (some first.method))
        rest :=
  rfl

theorem enrolled_append (before after : List Registration) :
    enrolled table (before ++ after) =
      enrolled (enrolled table before) after :=
  List.foldl_append

@[simp]
theorem enrolled_size (entries : List Registration) :
    (enrolled table entries).size = table.size := by
  induction entries generalizing table with
  | nil =>
      rfl
  | cons first rest inductionHypothesis =>
      rw [enrolled_cons, inductionHypothesis, Array.size_setIfInBounds]

/-- A registration that is followed by another one of its index leaves no
trace. -/
theorem enrolled_overwritten {index : Int64} (method : Option Method)
    (again : ∃ later ∈ entries, later.index = index) :
    enrolled (table.setIfInBounds index.toInt.toNat method) entries =
      enrolled table entries := by
  induction entries generalizing table with
  | nil =>
      obtain ⟨later, member, -⟩ := again
      cases member
  | cons first rest inductionHypothesis =>
      rw [enrolled_cons, enrolled_cons]
      by_cases same : index.toInt.toNat = first.index.toInt.toNat
      · rw [same, Array.setIfInBounds_setIfInBounds]
      · rw [Array.setIfInBounds_comm _ _ same]
        apply inductionHypothesis
        obtain ⟨later, member, rfl⟩ := again
        rcases List.mem_cons.mp member with rfl | member
        · exact absurd rfl same
        · exact ⟨later, member, rfl⟩

theorem enrolled_latest (entries : List Registration) :
    enrolled table (latest entries) = enrolled table entries := by
  induction entries generalizing table with
  | nil =>
      rfl
  | cons first rest inductionHypothesis =>
      rw [latest]
      split
      · rename_i again
        rw [inductionHypothesis, enrolled_cons, enrolled_overwritten]
        simpa using again
      · rw [enrolled_cons, inductionHypothesis, enrolled_cons]

theorem mem_of_mem_latest {r : Registration} (member : r ∈ latest entries) :
    r ∈ entries := by
  induction entries with
  | nil =>
      cases member
  | cons first rest inductionHypothesis =>
      rw [latest] at member
      split at member
      · exact List.mem_cons_of_mem _ (inductionHypothesis member)
      · rcases List.mem_cons.mp member with rfl | later
        · exact List.mem_cons_self
        · exact List.mem_cons_of_mem _ (inductionHypothesis later)

end Tables

namespace Machine

variable {m n start : Machine} {c : Capacities} {command : Command}
  {history : List Command} {entries : List Registration}

/-! ## The method table -/

/-- A machine on which a method is registered. -/
def enroll (m : Machine) (r : Registration) : Except Failure Machine :=
  m.setMethod r.index r.method

theorem enroll_of_fits {r : Registration} (opened : m.closed = false)
    (fits : r.fits m.methods.size = true) :
    m.enroll r = .ok { m with methods := enrolled m.methods [r] } := by
  simp only [Registration.fits, Bool.and_eq_true, Option.isSome_iff_exists,
    Bool.not_eq_true', Bool.or_eq_false_iff, decide_eq_false_iff_not,
    and_assoc] at fits
  obtain ⟨⟨place, found⟩, noEntry, noArgs, noLocals⟩ := fits
  have index := (position?_eq_some_iff.mp found).1
  apply setMethod_eq_ok_iff.mpr
  refine ⟨opened, ⟨noEntry, noArgs, noLocals⟩, place, found, ?_⟩
  simp only [enrolled, List.foldl_cons, List.foldl_nil, index,
    Int.toNat_natCast]

theorem enroll_of_not_fits {r : Registration}
    (refused : r.fits m.methods.size = false) :
    ∃ why, m.enroll r = .error why := by
  cases attempt : m.enroll r with
  | error why =>
      exact ⟨why, rfl⟩
  | ok n =>
      obtain ⟨-, ⟨noEntry, noArgs, noLocals⟩, place, found, -⟩ :=
        setMethod_eq_ok_iff.mp attempt
      simp [Registration.fits, found, noEntry, noArgs, noLocals] at refused

theorem foldlM_enroll (opened : m.closed = false)
    (fit : ∀ r ∈ entries, r.fits m.methods.size = true) :
    entries.foldlM enroll m =
      .ok { m with methods := enrolled m.methods entries } := by
  induction entries generalizing m with
  | nil =>
      rfl
  | cons first rest inductionHypothesis =>
      rw [List.foldlM_cons,
        enroll_of_fits opened (fit first List.mem_cons_self)]
      refine @inductionHypothesis
        { m with methods := enrolled m.methods [first] } opened ?_
      intro r member
      simpa using fit r (List.mem_cons_of_mem _ member)

theorem seedAll_seedMethod (opened : m.closed = false)
    (entries : List NamedMethod) :
    (Image.seedAll Image.seedMethod m entries).1.methods =
      enrolled m.methods
        ((entries.map fun entry => ⟨entry.index, entry.method⟩).takeWhile
          (·.fits m.methods.size)) := by
  induction entries generalizing m with
  | nil =>
      rfl
  | cons first rest inductionHypothesis =>
      rw [Image.seedAll, List.map_cons]
      cases fits : Registration.fits m.methods.size
        ⟨first.index, first.method⟩ with
      | false =>
          obtain ⟨why, refused⟩ := enroll_of_not_fits fits
          simp only [enroll] at refused
          rw [List.takeWhile_cons_of_neg (by simp [fits]), Image.seedMethod,
            refused]
          rfl
      | true =>
          have accepted := enroll_of_fits opened fits
          simp only [enroll] at accepted
          have seeded := Image.seedMethod_eq_ok_iff.mpr accepted
          rw [List.takeWhile_cons_of_pos fits, seeded]
          have later := @inductionHypothesis
            { m with
              methods := enrolled m.methods [⟨first.index, first.method⟩] }
            opened
          simp only [enrolled_size] at later
          exact later

theorem applyTo_methods (image : Image) :
    (image.applyTo m).1.methods =
      (Image.seedAll Image.seedMethod m image.methods.toList).1.methods := by
  simp only [Image.applyTo]
  rcases Image.seedAll Image.seedMethod m image.methods.toList with
    ⟨seeded, refusal⟩
  cases refusal with
  | some why =>
      rfl
  | none =>
      have globals := @Image.seedAll_methods seeded _
        (fun m g => m.setGlobal g.index g.value)
        (fun _ _ _ set => setGlobal_methods set) image.globals.toList
      rcases filled : Image.seedAll
        (fun m (g : GlobalSeed) => m.setGlobal g.index g.value)
        seeded image.globals.toList with ⟨n, refusal⟩
      simp only [filled] at globals ⊢
      cases refusal with
      | some why =>
          exact globals
      | none =>
          refine Eq.trans ?_ globals
          exact Image.seedAll_methods (fun _ _ _ set => setSlot_methods set)
            image.stack.toList

/-- A command changes the method table by what it registers. -/
theorem obey_enrolled (opened : m.closed = false)
    (notClose : command ≠ .close) :
    (m.obey command).methods =
      enrolled m.methods (command.registrations m.methods.size) := by
  cases command with
  | setMethod index method =>
      simp only [obey, Command.registrations, Command.offers]
      cases fits : Registration.fits m.methods.size ⟨index, method⟩ with
      | false =>
          obtain ⟨why, refused⟩ := enroll_of_not_fits fits
          simp only [enroll] at refused
          rw [refused, List.takeWhile_cons_of_neg (by simp [fits])]
          rfl
      | true =>
          have set := enroll_of_fits opened fits
          simp only [enroll] at set
          rw [set, List.takeWhile_cons_of_pos fits]
          rfl
  | seed image =>
      exact (applyTo_methods image).trans
        (seedAll_seedMethod opened image.methods.toList)
  | close =>
      exact absurd rfl notClose
  | setStack | setSlot | setGlobal | load | step | run | proceed | reset
  | adjust =>
      exact obey_methods trivial

/-! ## Sizes -/

/-- Whether a machine is open and of the sizes that its capacities give it. -/
structure Shaped (c : Capacities) (m : Machine) : Prop where
  opened : m.closed = false
  capacities : m.capacities = c
  stack : m.stack.size = c.stack.toInt.toNat
  globals : m.globals.size = c.globals.toInt.toNat

namespace Shaped

theorem congr (shaped : m.Shaped c) (closed : n.closed = m.closed)
    (capacities : n.capacities = m.capacities)
    (stack : n.stack.size = m.stack.size)
    (globals : n.globals.size = m.globals.size) :
    n.Shaped c where
  opened := closed.trans shaped.opened
  capacities := capacities.trans shaped.capacities
  stack := stack.trans shaped.stack
  globals := globals.trans shaped.globals

theorem note (shaped : m.Shaped c) (line : TraceLine) :
    (m.note line).Shaped c := by
  unfold Machine.note
  split
  · exact shaped.congr rfl rfl rfl rfl
  · exact shaped

theorem step (shaped : m.Shaped c) : m.step.1.Shaped c := by
  rcases stepped : m.step with ⟨n, outcome⟩
  cases step_case stepped with
  | closed | finished | spent | unfetched =>
      exact shaped
  | faulted | broke =>
      exact shaped.congr (by simp) (by simp) (by simp) (by simp)
  | went | ended =>
      exact shaped.congr (by simp) (by simp) (by simp) (by simp)

theorem loop (shaped : m.Shaped c) (fuel : Nat) :
    (Machine.loop fuel m).machine.Shaped c :=
  loop_keeps (fun _ kept => kept.step) (fun _ line kept => kept.note line)
    fuel shaped

theorem load (shaped : m.Shaped c) (code : Array Word) (entry : Int64) :
    (m.load code entry).Shaped c :=
  shaped.congr rfl rfl rfl rfl

theorem resume (shaped : m.Shaped c) (code : Array Word) (entry : Int64) :
    (m.resume code entry).Shaped c := by
  simp only [Machine.resume]
  split
  · exact shaped.congr rfl rfl rfl rfl
  · exact shaped.load code entry

theorem setMethod {index : Int64} {method : Method} (shaped : m.Shaped c)
    (set : m.setMethod index method = .ok n) : n.Shaped c := by
  obtain ⟨-, -, place, -, rfl⟩ := setMethod_eq_ok_iff.mp set
  exact shaped.congr rfl rfl rfl rfl

theorem setSlot {index : Int64} {bits : Slot} (shaped : m.Shaped c)
    (set : m.setSlot index bits = .ok n) : n.Shaped c := by
  obtain ⟨-, place, -, rfl⟩ := setSlot_eq_ok_iff.mp set
  exact shaped.congr rfl rfl (by simp) rfl

theorem setGlobal {index : Int64} {value : Int32} (shaped : m.Shaped c)
    (set : m.setGlobal index value = .ok n) : n.Shaped c := by
  obtain ⟨-, place, -, rfl⟩ := setGlobal_eq_ok_iff.mp set
  exact shaped.congr rfl rfl rfl (by simp)

theorem obey (shaped : m.Shaped c) (notClose : command ≠ .close) :
    (m.obey command).Shaped c := by
  cases command with
  | setMethod index method =>
      exact orKeep_keeps shaped fun _ set => shaped.setMethod set
  | setStack index value =>
      exact orKeep_keeps shaped fun _ set => shaped.setSlot set
  | setSlot index bits =>
      exact orKeep_keeps shaped fun _ set => shaped.setSlot set
  | setGlobal index value =>
      exact orKeep_keeps shaped fun _ set => shaped.setGlobal set
  | seed image =>
      exact applyTo_keeps (fun _ _ _ _ kept set => kept.setMethod set)
        (fun _ _ _ _ kept set => kept.setGlobal set)
        (fun _ _ _ _ kept set => kept.setSlot set) shaped
  | load code entry =>
      exact shaped.load code entry
  | step =>
      exact shaped.step
  | run code entry =>
      simp only [Machine.obey, Machine.run]
      split
      · exact shaped
      · split
        · exact shaped
        · exact (shaped.load code entry).loop _
  | proceed code entry =>
      simp only [Machine.obey, Machine.proceed]
      split
      · exact shaped
      · split
        · exact shaped
        · exact (shaped.resume code entry).loop _
  | reset =>
      simp only [Machine.obey, Machine.reset]
      split
      · exact shaped
      · exact shaped.congr rfl rfl (by simp) (by simp)
  | close =>
      exact absurd rfl notClose
  | adjust budget tracing sink =>
      exact shaped.congr rfl rfl rfl rfl

end Shaped

theorem blank_shaped (c : Capacities) : (blank c).Shaped c where
  opened := rfl
  capacities := rfl
  stack := Array.size_replicate
  globals := Array.size_replicate

/-- What a history without closing makes of a machine: the sizes stay, and the
method table has what the history registers. -/
theorem after_enrolled (shaped : m.Shaped c)
    (opened : ∀ command ∈ history, command ≠ .close) :
    (m.after history).Shaped c ∧
      (m.after history).methods =
        enrolled m.methods
          (history.flatMap (·.registrations m.methods.size)) := by
  induction history generalizing m with
  | nil =>
      exact ⟨shaped, rfl⟩
  | cons first rest inductionHypothesis =>
      have notClose := opened first List.mem_cons_self
      have methods := obey_enrolled shaped.opened notClose
      obtain ⟨kept, later⟩ := inductionHypothesis (shaped.obey notClose)
        (fun command member => opened command (List.mem_cons_of_mem _ member))
      refine ⟨kept, later.trans ?_⟩
      rw [methods, enrolled_size, List.flatMap_cons, enrolled_append]

/-! ## The reset machine and the new one -/

/-- A reset sets everything back but the method table, what is adjusted, and
what has come out. -/
theorem reset_eq (shaped : m.Shaped c) :
    m.reset =
      { blank c with
        methods := m.methods
        budget := m.budget
        tracing := m.tracing
        trace := m.trace
        sink := m.sink
        output := m.output } := by
  simp only [reset, shaped.opened, Bool.false_eq_true, if_false, entryFrame,
    shaped.capacities, shaped.stack, shaped.globals, blank]

/-- Whether a machine goes on like another one.  Whatever they are both told,
they give the same answers, and they stay in the same state, except that the
first one has put out some text and some trace before. -/
structure GoesOnLike (text : String) (lines : Array TraceLine)
    (m n : Machine) : Prop where
  answers (later : List Command) : m.answers later = n.answers later
  after (later : List Command) :
    m.after later = (n.after later).headed text lines

/-- After a history of any commands but closing, a machine that is reset goes
on like a new one on which the last method of each index is registered, and
which has the budget, the tracing and the sink of the old one. -/
theorem reset_goesOnLike_new
    (made : Machine.new c = .ok start)
    (opened : ∀ command ∈ history, command ≠ .close) :
    ∃ fresh,
      (latest (history.flatMap
          (·.registrations c.methods.toInt.toNat))).foldlM enroll start =
        .ok fresh ∧
      (start.after history).reset.GoesOnLike (start.after history).output
        (start.after history).trace
        { fresh with
          budget := (start.after history).budget
          tracing := (start.after history).tracing
          sink := (start.after history).sink } := by
  obtain ⟨-, -, rfl⟩ := new_eq_ok_iff.mp made
  have size : (blank c).methods.size = c.methods.toInt.toNat :=
    Array.size_replicate
  obtain ⟨shaped, methods⟩ := after_enrolled (blank_shaped c) opened
  rw [size] at methods
  refine ⟨_, foldlM_enroll rfl ?_, ?_⟩
  · intro r member
    obtain ⟨command, -, taken⟩ :=
      List.mem_flatMap.mp (mem_of_mem_latest member)
    rw [size]
    exact List.all_eq_true.mp List.all_takeWhile r taken
  · have same :
        ((blank c).after history).reset =
          headed
            { blank c with
              methods := enrolled (blank c).methods (latest (history.flatMap
                (·.registrations c.methods.toInt.toNat)))
              budget := ((blank c).after history).budget
              tracing := ((blank c).after history).tracing
              sink := ((blank c).after history).sink }
            ((blank c).after history).output
            ((blank c).after history).trace := by
      rw [reset_eq shaped, methods, enrolled_latest]
      simp [headed, blank]
    rw [same]
    exact ⟨answers_headed _ _ _, after_headed _ _ _⟩

/-- A machine with room for one suspended caller. -/
def shallow : Machine :=
  blank { stack := 8, depth := 1, methods := 2, globals := 1 }

/-- A history with registrations that are refused and others that are
replaced, at the end of which a nested call fails. -/
def wear : List Command :=
  [.setMethod 0 ⟨9, 0, 0⟩,
   .setMethod 2 ⟨1, 0, 0⟩,
   .seed {
     magic := Image.expectedMagic
     version := Image.expectedVersion
     entry := 0
     code := none
     methods :=
       #[⟨"outer", 1, 1, 1, 0⟩, ⟨"inner", 0, 2, 0, 0⟩, ⟨"", 0, -1, 0, 0⟩]
     globals := #[⟨0, 5⟩]
     stack := #[]
     checksum := Image.sum #[] },
   .setSlot 3 7,
   .setGlobal 0 6,
   .adjust 20 true .drop,
   .run #[0x10020, 0x23, 0x20] 0]

theorem shallow_reset :
    (shallow.after wear).callers.size = 1 ∧
      ∃ fresh,
        List.foldlM enroll shallow [⟨1, ⟨1, 1, 0⟩⟩, ⟨0, ⟨2, 0, 0⟩⟩] =
          .ok fresh ∧
        (shallow.after wear).reset.GoesOnLike (shallow.after wear).output
          (shallow.after wear).trace
          { fresh with budget := 20, tracing := true, sink := .drop } := by
  refine ⟨by decide, ?_⟩
  exact reset_goesOnLike_new
    (show Machine.new shallow.capacities = .ok shallow from rfl)
    (show ∀ command ∈ wear, command ≠ .close by decide)

end Machine

end WindowMachine
