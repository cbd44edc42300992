import WindowMachine.Proofs.Machine.Data
import WindowMachine.Proofs.Machine.Resets
import WindowMachine.Proofs.Machine.Verdicts

/-!
# Straight-line programs in pieces

A straight-line program does one instruction after the other, so what it makes
of the data of a machine is a fold over its words, which can be cut anywhere.
A machine can also run the pieces one by one, each with an end of its own and
on top of what the one before left.  Only the first of these runs may have to
set the top of the stack; from then on the entry frame of a run is the frame
that the machine is in already.
-/

namespace WindowMachine

/-! ## Straight-line code -/

/-- Whether an operation leads to the next word and to no other one. -/
def Operation.goesStraight : Operation → Bool
  | .cmp | .gt | .gte | .jumpIf | .jump | .call | .ret | .halt => false
  | _ => true

/-- Whether a word has an operation that leads to the next word. -/
def Word.goesStraight (w : Word) : Bool :=
  (Operation.ofByte? (Instruction.decode w).opcode).any (·.goesStraight)

/-- The word that ends a program. -/
def Word.final : Word := Operation.halt.byte.toUInt32

/-- Some words as a program that ends behind them. -/
def withEnd (words : List Word) : Array Word :=
  (words ++ [Word.final]).toArray

theorem Word.goesStraight_iff {w : Word} :
    w.goesStraight = true ↔
      ∃ op, Operation.ofByte? (Instruction.decode w).opcode = some op ∧
        op.goesStraight = true := by
  simp [goesStraight, Option.any_eq_true]

theorem Operation.worksOnData_of_goesStraight {op : Operation}
    (straight : op.goesStraight = true) : op.worksOnData = true := by
  cases op with
  | call | ret =>
      cases straight
  | _ =>
      rfl

namespace Machine

variable {m d start : Machine} {c : Capacities} {i : Instruction}
  {op : Operation} {e : Effect} {w : Word} {rest words : List Word}
  {pieces : List (List Word)}

theorem Admits.changesData (admits : m.Admits i op e)
    (straight : op.goesStraight = true) : e.changesData = true := by
  cases admits with
  | skip compares =>
      cases op with
      | cmp | gt | gte =>
          cases straight
      | _ =>
          cases compares
  | jump | jumpIf | enter | leave | halt =>
      cases straight
  | _ =>
      rfl

theorem apply_of_changesData (changes : e.changesData = true) :
    m.breakdown? e = none ∧ (m.apply e).halted = m.halted ∧
      (m.apply e).frame.pc = m.frame.pc := by
  cases e with
  | jump | enter | leave | halt =>
      cases changes
  | print value =>
      rw [apply_print]
      exact ⟨rfl, rfl, rfl⟩
  | _ =>
      exact ⟨rfl, rfl, rfl⟩

/-! ## Words as a fold -/

/-- A machine after the instruction of a word, if that succeeds. -/
def work? (m : Machine) (w : Word) : Option Machine :=
  (m.effect (Instruction.decode w)).toOption.map m.apply

/-- A machine after the instructions of some words, if all of them
succeed. -/
def workAll? (m : Machine) (words : List Word) : Option Machine :=
  words.foldlM work? m

theorem workAll?_append (m : Machine) (words rest : List Word) :
    m.workAll? (words ++ rest) =
      (m.workAll? words).bind fun n => n.workAll? rest :=
  List.foldlM_append

theorem work?_eq_some_iff :
    m.work? w = some d ↔
      ∃ e, m.effect (Instruction.decode w) = .ok e ∧ m.apply e = d := by
  simp [work?, toOption_eq_some_iff]

theorem effect_data (straight : w.goesStraight = true) :
    m.data.effect (Instruction.decode w) =
      m.effect (Instruction.decode w) := by
  obtain ⟨op, known, goes⟩ := Word.goesStraight_iff.mp straight
  simp only [effect, known]
  exact operationEffect_data (Operation.worksOnData_of_goesStraight goes)

theorem changesData_of_effect (straight : w.goesStraight = true)
    (worked : m.effect (Instruction.decode w) = .ok e) :
    ∃ op, m.Admits (Instruction.decode w) op e ∧ e.changesData = true := by
  obtain ⟨op, known, admits⟩ := effect_admits worked
  obtain ⟨other, alsoKnown, goes⟩ := Word.goesStraight_iff.mp straight
  obtain rfl := Option.some.inj (known.symm.trans alsoKnown)
  exact ⟨op, admits, admits.changesData goes⟩

/-! ## Steps -/

theorem effect_fetched (straight : w.goesStraight = true) :
    (m.fetched (Instruction.decode w)).effect (Instruction.decode w) =
      m.data.effect (Instruction.decode w) := by
  rw [← effect_data straight, data_fetched]

/-- A word that works on the data of a machine is a step to the next one. -/
theorem step_of_work (fetches : m.next? = some (Instruction.decode w))
    (straight : w.goesStraight = true) (works : m.data.work? w = some d) :
    m.step.2 = .running ∧ m.step.1.data = d ∧
      m.step.1.frame.pc = m.frame.pc + 1 := by
  obtain ⟨e, worked, rfl⟩ := work?_eq_some_iff.mp works
  rw [← effect_fetched straight] at worked
  obtain ⟨op, -, changes⟩ := changesData_of_effect straight worked
  obtain ⟨stands, halted, pc⟩ := apply_of_changesData
    (m := m.fetched (Instruction.decode w)) changes
  rw [fetched_halted, halted_of_next? fetches] at halted
  rw [step_eq_execute fetches, execute_eq, worked]
  simp [perform, stands, halted, pc, data_apply changes]

theorem step_of_not_work (fetches : m.next? = some (Instruction.decode w))
    (straight : w.goesStraight = true) (fails : m.data.work? w = none) :
    ∃ why, m.step.2 = .failed why := by
  cases worked : m.data.effect (Instruction.decode w) with
  | ok e =>
      have works := work?_eq_some_iff.mpr ⟨e, worked, rfl⟩
      rw [fails] at works
      cases works
  | error cause =>
      rw [← effect_fetched straight] at worked
      rw [step_eq_execute fetches, execute_eq, worked]
      exact ⟨_, rfl⟩

/-- Whether a machine without a budget has come to some words, which are the
last ones of its program. -/
structure Faces (m : Machine) (words : List Word) : Prop where
  opened : m.closed = false
  running : m.halted = false
  unlimited : ¬ 0 < m.budget
  size : m.code.size < 2 ^ 63
  lower : 0 ≤ m.frame.pc.toInt
  words : m.code.toList.drop m.frame.pc.toInt.toNat = words

theorem Faces.next? (faces : m.Faces (w :: rest)) :
    m.next? = some (Instruction.decode w) := by
  have found := congrArg List.head? faces.words
  rw [List.head?_drop, List.head?_cons, Array.getElem?_toList] at found
  have lower := faces.lower
  have unspent : m.spent = false := by
    simp [spent, faces.unlimited]
  apply (next?_eq_some_iff faces.opened faces.running).mpr
  exact ⟨unspent, w,
    wordAt?_eq_some_iff.mpr ⟨_, by omega, found⟩, rfl⟩

theorem Faces.step (faces : m.Faces (w :: rest))
    (goes : m.step.2 = .running)
    (pc : m.step.1.frame.pc = m.frame.pc + 1) : m.step.1.Faces rest := by
  obtain ⟨-, closed, halted, budget⟩ := step_running goes
  have next := toInt_next_pc faces.next? faces.size
  have lower := faces.lower
  have behind := congrArg List.tail faces.words
  rw [List.tail_drop, List.tail_cons] at behind
  exact {
    opened := closed.trans faces.opened
    running := halted
    unlimited := by
      rw [budget]
      exact faces.unlimited
    size := by
      rw [(step_keeps m).1]
      exact faces.size
    lower := by
      rw [pc]
      omega
    words := by
      have place : (m.frame.pc + 1).toInt.toNat =
          m.frame.pc.toInt.toNat + 1 := by
        omega
      rw [(step_keeps m).1, pc, place, behind] }

/-- The end of a program changes no data. -/
theorem Faces.step_final (faces : m.Faces [Word.final]) :
    m.step.2 = .ended ∧ m.step.1.data = m.data ∧
      m.step.1.steps = m.steps + 1 := by
  have fetches := faces.next?
  have worked : (m.fetched (Instruction.decode Word.final)).effect
      (Instruction.decode Word.final) = .ok .halt :=
    effect_eq_ok_iff.mpr ⟨.halt, by decide, rfl⟩
  rw [step_eq_execute fetches, execute_eq, worked]
  have data := data_fetched (m := m) (Instruction.decode Word.final)
  have steps := fetched_steps m (Instruction.decode Word.final)
  exact ⟨rfl, data, steps⟩

/-! ## Runs of one piece -/

/-- Whether a run comes to its end just in case some words all work, and with
what they make of the data. -/
structure WorksOut (r : Run) (result : Option Machine) (count : Nat) :
    Prop where
  done : r.ending = .done ↔ result.isSome = true
  leaves (d : Machine) : result = some d →
    r.machine.data = d ∧ r.count = count

theorem Faces.loop (faces : m.Faces (words ++ [Word.final]))
    (straight : ∀ w ∈ words, Word.goesStraight w = true) {fuel : Nat}
    (enough : words.length < fuel) :
    WorksOut (loop fuel m) (m.data.workAll? words)
      (m.steps + words.length + 1) := by
  induction words generalizing m fuel with
  | nil =>
      obtain ⟨fuel, rfl⟩ :=
        Nat.exists_eq_succ_of_ne_zero (Nat.ne_zero_of_lt enough)
      obtain ⟨ends, data, steps⟩ := faces.step_final
      rcases stepped : m.step with ⟨n, outcome⟩
      rw [stepped] at ends data steps
      obtain rfl : outcome = .ended := ends
      simp only [Machine.loop, stepped]
      refine ⟨by simp [workAll?], ?_⟩
      rintro d ⟨⟩
      exact ⟨data, steps⟩
  | cons w rest inductionHypothesis =>
      obtain ⟨fuel, rfl⟩ :=
        Nat.exists_eq_succ_of_ne_zero (Nat.ne_zero_of_lt enough)
      have fetches := Faces.next? faces
      have first := straight w List.mem_cons_self
      have shorter : rest.length < fuel := by
        simpa using enough
      simp only [workAll?, List.foldlM_cons]
      cases works : m.data.work? w with
      | none =>
          obtain ⟨why, fails⟩ := step_of_not_work fetches first works
          rcases stepped : m.step with ⟨n, outcome⟩
          rw [stepped] at fails
          obtain rfl : outcome = .failed why := fails
          simp only [Machine.loop, stepped]
          exact ⟨by simp, by simp⟩
      | some d =>
          obtain ⟨goes, data, pc⟩ := step_of_work fetches first works
          have ahead : m.Faces (w :: (rest ++ [Word.final])) := faces
          have later := inductionHypothesis (ahead.step goes pc)
            (fun other member =>
              straight other (List.mem_cons_of_mem _ member)) shorter
          obtain ⟨counted, -⟩ := step_running goes
          rcases stepped : m.step with ⟨n, outcome⟩
          rw [stepped] at goes data counted later
          obtain rfl : outcome = .running := goes
          obtain rfl := data
          simp only [Machine.loop, stepped]
          have count : n.steps + rest.length + 1 =
              m.steps + (w :: rest).length + 1 := by
            change n.steps = m.steps + 1 at counted
            rw [counted, List.length_cons]
            omega
          rw [count] at later
          exact later

/-! ## Machines between two runs -/

/-- Whether an open machine without a budget is in the frame in which it would
run its next program. -/
structure Ready (m : Machine) : Prop where
  opened : m.closed = false
  unlimited : ¬ 0 < m.budget
  base : m.frame.base = 0
  limit : m.frame.limit = Int64.ofNat m.stack.size
  size : m.stack.size < 2 ^ 63
  lower : -1 ≤ m.frame.top.toInt
  upper : m.frame.top.toInt < m.stack.size

/-- What keeps the frame and the size of the stack keeps a machine ready. -/
theorem Ready.of_top {n : Machine} (ready : m.Ready)
    (closed : n.closed = m.closed) (budget : n.budget = m.budget)
    (base : n.frame.base = m.frame.base)
    (limit : n.frame.limit = m.frame.limit)
    (size : n.stack.size = m.stack.size)
    (lower : -1 ≤ n.frame.top.toInt)
    (upper : n.frame.top.toInt < m.stack.size) : n.Ready where
  opened := closed.trans ready.opened
  unlimited := by
    rw [budget]
    exact ready.unlimited
  base := base.trans ready.base
  limit := by
    rw [limit, size, ready.limit]
  size := by
    rw [size]
    exact ready.size
  lower := lower
  upper := by
    rw [size]
    exact upper

theorem Ready.apply (ready : m.Ready) (admits : m.Admits i op e)
    (changes : e.changesData = true) : (m.apply e).Ready := by
  have lower := ready.lower
  have upper := ready.upper
  have size := ready.size
  have one : (1 : Int64).toInt = 1 := rfl
  cases admits with
  | skip | jump | jumpIf | enter | leave | halt =>
      cases changes
  | idle =>
      exact ready
  | store | setGlobal =>
      exact ready.of_top rfl rfl rfl rfl (by simp) lower upper
  | print =>
      rw [apply_print]
      exact ready.of_top rfl rfl rfl rfl rfl lower upper
  | push _ free =>
      obtain ⟨index, inside⟩ := position?_eq_some_iff.mp free
      exact ready.of_top rfl rfl rfl rfl (by simp)
        (show -1 ≤ (m.frame.top + 1).toInt by omega)
        (show (m.frame.top + 1).toInt < m.stack.size by omega)
  | pop _ held =>
      obtain ⟨index, -⟩ := position?_eq_some_iff.mp held
      have top : (m.frame.top - 1).toInt = m.frame.top.toInt - 1 :=
        toInt_sub_of_fits (by omega) (by omega)
      exact ready.of_top rfl rfl rfl rfl (by simp)
        (show -1 ≤ (m.frame.top - 1).toInt by omega)
        (show (m.frame.top - 1).toInt < m.stack.size by omega)

theorem Ready.work? (ready : m.Ready) (straight : w.goesStraight = true)
    (works : m.work? w = some d) : d.Ready := by
  obtain ⟨e, worked, rfl⟩ := work?_eq_some_iff.mp works
  obtain ⟨op, admits, changes⟩ := changesData_of_effect straight worked
  exact ready.apply admits changes

theorem Ready.workAll? (ready : m.Ready)
    (straight : ∀ w ∈ words, Word.goesStraight w = true)
    (works : m.workAll? words = some d) : d.Ready := by
  induction words generalizing m with
  | nil =>
      cases works
      exact ready
  | cons w rest inductionHypothesis =>
      simp only [Machine.workAll?, List.foldlM_cons, Option.bind_eq_bind,
        Option.bind_eq_some_iff] at works
      obtain ⟨n, first, later⟩ := works
      exact inductionHypothesis
        (ready.work? (straight w List.mem_cons_self) first)
        (fun other member => straight other (List.mem_cons_of_mem _ member))
        later

theorem ready_data_iff : m.data.Ready ↔ m.Ready := by
  constructor
  · rintro ⟨opened, unlimited, base, limit, size, lower, upper⟩
    exact ⟨opened, unlimited, base, limit, size, lower, upper⟩
  · rintro ⟨opened, unlimited, base, limit, size, lower, upper⟩
    exact ⟨opened, unlimited, base, limit, size, lower, upper⟩

/-- A run of a ready machine starts in the frame that is there. -/
theorem Ready.resume_eq (ready : m.Ready) (code : Array Word) :
    m.resume code 0 =
      { m with
        code := code
        callers := #[]
        frame := { m.frame with pc := 0 }
        steps := 0
        halted := false } := by
  have minusOne : (-1 : Int64).toInt = -1 := rfl
  have size : (Int64.ofNat m.stack.size).toInt = m.stack.size :=
    Int64.toInt_ofNat_of_lt ready.size
  have inside : -1 ≤ m.frame.top ∧
      m.frame.top < Int64.ofNat (m.load code 0).stack.size := by
    rw [Int64.le_iff_toInt_le, Int64.lt_iff_toInt_lt]
    have lower := ready.lower
    have upper := ready.upper
    simp only [load]
    omega
  have frame : ({ m.entryFrame 0 with top := m.frame.top } : Frame) =
      { m.frame with pc := 0 } := by
    simp only [entryFrame, ready.base, ready.limit]
  rw [resume, if_pos inside, ← frame]
  rfl

/-- A run on any machine starts on one that is ready. -/
theorem Shaped.resume_ready (shaped : m.Shaped c)
    (usable : c.defect? = none) (unlimited : ¬ 0 < m.budget)
    (code : Array Word) : (m.resume code 0).Ready := by
  obtain ⟨positive, -, -, -, ⟨topLower, topUpper⟩, -⟩ :=
    Capacities.defect?_eq_none_iff.mp usable
  have limit := c.stack.toInt_lt
  have stack := shaped.stack
  have minusOne : (-1 : Int64).toInt = -1 := rfl
  have size : (Int64.ofNat m.stack.size).toInt = m.stack.size :=
    Int64.toInt_ofNat_of_lt (by omega)
  have loaded : (m.load code 0).Ready := {
    opened := shaped.opened
    unlimited := unlimited
    base := rfl
    limit := rfl
    size := by
      show m.stack.size < 2 ^ 63
      omega
    lower := by
      show -1 ≤ m.capacities.entryTop.toInt
      rw [shaped.capacities]
      exact topLower
    upper := by
      show m.capacities.entryTop.toInt < m.stack.size
      rw [shaped.capacities]
      omega }
  rw [Machine.resume]
  split
  · rename_i inside
    rw [Int64.le_iff_toInt_le, Int64.lt_iff_toInt_lt] at inside
    change _ ∧ _ < (Int64.ofNat m.stack.size).toInt at inside
    exact loaded.of_top rfl rfl rfl rfl rfl
      (show -1 ≤ m.frame.top.toInt by omega)
      (show m.frame.top.toInt < m.stack.size by omega)
  · exact loaded

theorem Ready.proceed (ready : m.Ready)
    (straight : ∀ w ∈ words, Word.goesStraight w = true)
    (addressable : words.length < 2 ^ 62) :
    WorksOut (m.proceed (withEnd words) 0) (m.data.workAll? words)
      (words.length + 1) := by
  have opened := ready.opened
  have size : (withEnd words).size = words.length + 1 := by
    simp [withEnd]
  have faces : (m.resume (withEnd words) 0).Faces
      (words ++ [Word.final]) := by
    rw [ready.resume_eq]
    exact {
      opened := opened
      running := rfl
      unlimited := ready.unlimited
      size := by
        show (withEnd words).size < 2 ^ 63
        omega
      lower := Int.le_refl _
      words := rfl }
  have enough : words.length < m.patience := by
    simp only [patience, if_neg ready.unlimited]
    simpa using addressable
  have whole := faces.loop straight enough
  have data : (m.resume (withEnd words) 0).data = m.data := by
    rw [ready.resume_eq]
    rfl
  have steps : (m.resume (withEnd words) 0).steps = 0 := by
    rw [ready.resume_eq]
  rw [data, steps, Nat.zero_add] at whole
  have nonempty : (withEnd words).isEmpty = false := by
    simp [withEnd]
  rw [Machine.proceed, opened, nonempty]
  exact whole

/-! ## Runs of all pieces -/

/-- The runs of some pieces, each on the machine that the one before left. -/
def proceedEach : Machine → List (List Word) → List Run
  | _, [] => []
  | m, piece :: rest =>
    let run := m.proceed (withEnd piece) 0
    run :: proceedEach run.machine rest

/-- The machine that the last of some runs leaves. -/
def leftBy (m : Machine) (runs : List Run) : Machine :=
  (runs.map (·.machine)).getLastD m

/-- How many instructions some runs have executed together. -/
def totalCount (runs : List Run) : Nat :=
  runs.foldr (fun r total => r.count + total) 0

theorem leftBy_cons (m : Machine) (r : Run) (runs : List Run) :
    m.leftBy (r :: runs) = r.machine.leftBy runs := by
  rw [leftBy, List.map_cons, List.getLastD_cons, leftBy]

theorem totalCount_cons (r : Run) (runs : List Run) :
    totalCount (r :: runs) = r.count + totalCount runs :=
  rfl

/-- Whether runs of some pieces all come to their end just in case the words
of the pieces all work, and with what they make of the data. -/
structure AllWorkOut (m : Machine) (runs : List Run) (result : Option Machine)
    (count : Nat) : Prop where
  done : (∀ r ∈ runs, r.ending = .done) ↔ result.isSome = true
  leaves (d : Machine) : result = some d →
    (m.leftBy runs).data = d ∧ totalCount runs = count

theorem Ready.proceedEach (ready : m.Ready)
    (straight : ∀ w ∈ pieces.flatten, Word.goesStraight w = true)
    (addressable : pieces.flatten.length < 2 ^ 62) :
    AllWorkOut m (m.proceedEach pieces) (m.data.workAll? pieces.flatten)
      (pieces.flatten.length + pieces.length) := by
  induction pieces generalizing m with
  | nil =>
      exact ⟨by simp [Machine.proceedEach, Machine.workAll?],
        by simp [Machine.proceedEach, Machine.workAll?, leftBy, totalCount]⟩
  | cons piece rest inductionHypothesis =>
      simp only [List.flatten_cons, List.mem_append, List.length_append,
        or_imp, forall_and] at straight addressable ⊢
      have first := ready.proceed straight.1 (by omega)
      simp only [Machine.proceedEach, workAll?_append]
      cases works : m.data.workAll? piece with
      | none =>
          have fails : (m.proceed (withEnd piece) 0).ending ≠ .done := by
            simpa [works] using first.done
          exact ⟨by simp [fails], by simp⟩
      | some d =>
          obtain ⟨data, count⟩ := first.leaves d works
          have done : (m.proceed (withEnd piece) 0).ending = .done :=
            first.done.mpr (by simp [works])
          have stillReady : (m.proceed (withEnd piece) 0).machine.Ready := by
            rw [← ready_data_iff, data]
            exact (ready_data_iff.mpr ready).workAll? straight.1 works
          have later := inductionHypothesis stillReady straight.2 (by omega)
          rw [data] at later
          refine ⟨?_, ?_⟩
          · simpa [done] using later.done
          · intro e worksLater
            obtain ⟨left, counts⟩ := later.leaves e worksLater
            rw [leftBy_cons, totalCount_cons, counts, count]
            exact ⟨left, by rw [List.length_cons]; omega⟩

/-! ## The main result -/

/-- Whether two machines have the same stack, globals, return register and
window, and have put out the same text. -/
structure LeftAlike (m n : Machine) : Prop where
  stack : n.stack = m.stack
  globals : n.globals = m.globals
  result : n.result = m.result
  base : n.frame.base = m.frame.base
  top : n.frame.top = m.frame.top
  limit : n.frame.limit = m.frame.limit
  output : n.output = m.output

theorem leftAlike_of_data {n : Machine} (same : n.data = m.data) :
    m.LeftAlike n where
  stack := congrArg (·.stack) same
  globals := congrArg (·.globals) same
  result := congrArg (·.result) same
  base := congrArg (·.frame.base) same
  top := congrArg (·.frame.top) same
  limit := congrArg (·.frame.limit) same
  output := congrArg (·.output) same

/-- Whether a run of a machine comes to the same as runs of some pieces, each
of which executes an end of its own. -/
structure ComesToPieces (m : Machine) (whole : Run)
    (pieces : List (List Word)) : Prop where
  done : whole.ending = .done ↔
    ∀ r ∈ m.proceedEach pieces, r.ending = .done
  leaves : whole.ending = .done →
    whole.machine.LeftAlike (m.leftBy (m.proceedEach pieces))
  counts : whole.ending = .done →
    totalCount (m.proceedEach pieces) = whole.count + (pieces.length - 1)

theorem Ready.comesToPieces (ready : m.Ready) (nonempty : pieces ≠ [])
    (straight : ∀ w ∈ pieces.flatten, Word.goesStraight w = true)
    (addressable : pieces.flatten.length < 2 ^ 62) :
    m.ComesToPieces (m.proceed (withEnd pieces.flatten) 0) pieces := by
  have whole := ready.proceed straight addressable
  have each := ready.proceedEach straight addressable
  refine ⟨whole.done.trans each.done.symm, ?_, ?_⟩
  · intro done
    obtain ⟨d, works⟩ := Option.isSome_iff_exists.mp (whole.done.mp done)
    have one := (whole.leaves d works).1
    have many := (each.leaves d works).1
    exact leftAlike_of_data (many.trans one.symm)
  · intro done
    obtain ⟨d, works⟩ := Option.isSome_iff_exists.mp (whole.done.mp done)
    rw [(whole.leaves d works).2, (each.leaves d works).2]
    have positive := List.length_pos_iff.mpr nonempty
    omega

/-- Where a machine would start its next program is where it starts it. -/
theorem resume_resume (m : Machine) (code : Array Word)
    (ready : (m.resume #[] 0).Ready) :
    (m.resume #[] 0).resume code 0 = m.resume code 0 := by
  rw [ready.resume_eq]
  simp only [resume]
  split
  · rw [if_pos ‹_›]
    rfl
  · rw [if_neg ‹_›]
    rfl

theorem resume_closed_budget (m : Machine) (code : Array Word)
    (entry : Int64) :
    (m.resume code entry).closed = m.closed ∧
      (m.resume code entry).budget = m.budget := by
  simp only [resume]
  split
  · exact ⟨rfl, rfl⟩
  · exact ⟨rfl, rfl⟩

theorem proceed_resume (m : Machine) (words : List Word)
    (ready : (m.resume #[] 0).Ready) :
    (m.resume #[] 0).proceed (withEnd words) 0 =
      m.proceed (withEnd words) 0 := by
  obtain ⟨closed, budget⟩ := resume_closed_budget m #[] 0
  have opened := closed.symm.trans ready.opened
  have nonempty : (withEnd words).isEmpty = false := by
    simp [withEnd]
  simp only [proceed, closed, opened, nonempty, patience, budget,
    resume_resume m _ ready]
  rfl

theorem comesToPieces_of_resume (ready : (m.resume #[] 0).Ready)
    (nonempty : pieces ≠ [])
    (straight : ∀ w ∈ pieces.flatten, Word.goesStraight w = true)
    (addressable : pieces.flatten.length < 2 ^ 62) :
    m.ComesToPieces (m.proceed (withEnd pieces.flatten) 0) pieces := by
  have comes := ready.comesToPieces nonempty straight addressable
  rw [proceed_resume m _ ready] at comes
  cases pieces with
  | nil =>
      exact absurd rfl nonempty
  | cons piece rest =>
      have same : (m.resume #[] 0).proceedEach (piece :: rest) =
          m.proceedEach (piece :: rest) := by
        simp only [proceedEach, proceed_resume m _ ready]
      obtain ⟨done, leaves, counts⟩ := comes
      rw [same] at done leaves counts
      exact ⟨done, leaves, counts⟩

theorem after_closed_or_shaped {history : List Command}
    (made : Machine.new c = .ok start) :
    (start.after history).closed = true ∨
      (start.after history).Shaped c := by
  obtain ⟨-, -, rfl⟩ := new_eq_ok_iff.mp made
  refine @after_keeps (fun n => n.closed = true ∨ n.Shaped c) _
    (fun _ => True) history ?_ (fun _ _ => trivial)
    (.inr (blank_shaped c))
  rintro before command - (closed | shaped)
  · exact .inl (obey_closed closed)
  · by_cases closes : command = .close
    · rw [closes]
      exact .inl rfl
    · exact .inr (shaped.obey closes)

/-- A straight-line program can be cut into pieces that run one after the
other: on any reachable machine that is open and has no budget, they come to
the same as the whole.  The bound is the number of words of four bytes that
there are addresses for. -/
theorem proceed_comesToPieces {history : List Command}
    (made : Machine.new c = .ok start)
    (opened : (start.after history).closed = false)
    (unlimited : ¬ 0 < (start.after history).budget)
    (nonempty : pieces ≠ [])
    (straight : ∀ w ∈ pieces.flatten, Word.goesStraight w = true)
    (addressable : pieces.flatten.length < 2 ^ 62) :
    (start.after history).ComesToPieces
      ((start.after history).proceed (withEnd pieces.flatten) 0) pieces := by
  have shaped : (start.after history).Shaped c := by
    have kept : (start.after history).closed = true ∨
        (start.after history).Shaped c := after_closed_or_shaped made
    rcases kept with closed | shaped
    · rw [opened] at closed
      cases closed
    · exact shaped
  have usable := (new_eq_ok_iff.mp made).1
  exact comesToPieces_of_resume (shaped.resume_ready usable unlimited _)
    nonempty straight addressable

/-- A history that leaves values on the stack of a small machine. -/
def groundwork : List Command :=
  [.setGlobal 0 6, .adjust 0 true .keep, .proceed #[0x15, 0x15, 0x24] 0]

/-- Two numbers, nothing, and their sum, which is printed. -/
def sumInPieces : List (List Word) :=
  [[0x00000118, 0x0005021A], [], [0x02010000, 0x15, 0x23]]

theorem shallow_comesToPieces :
    ((shallow.after groundwork).proceed
        (withEnd sumInPieces.flatten) 0).ending = .done ∧
      (shallow.after groundwork).ComesToPieces
        ((shallow.after groundwork).proceed
          (withEnd sumInPieces.flatten) 0) sumInPieces := by
  have straight : sumInPieces.flatten.all Word.goesStraight = true := by
    decide
  refine ⟨by decide, ?_⟩
  exact proceed_comesToPieces
    (show Machine.new shallow.capacities = .ok shallow from rfl)
    (by decide) (by decide) (by decide) (List.all_eq_true.mp straight)
    (by decide)

end Machine

end WindowMachine
