import WindowMachine.Assembly
import WindowMachine.Proofs.Checks

/-!
# Addresses of labels

The address of a line is the number of instructions before it.  The first
pass finds the address of every label without ever counting backwards: what
it knows after some lines reflects these lines, and one more line, whatever
label and whatever directive or instruction it holds, keeps it so.
-/

namespace WindowMachine

open Source (Line Operand Phrase Statement)

namespace Assembly

/-! ## Lines -/

/-- How many lines hold an instruction. -/
def instructionCount (lines : List Line) : Nat :=
  lines.countP fun line => line.instruction?.isSome

/-- Whether the line at a place declares a label. -/
def Declares (lines : List Line) (place : Nat) (name : String) : Prop :=
  ∃ line, lines[place]? = some line ∧ line.label = some name

section Lines

variable {lines more : List Line} {line : Line}
  {place : Nat} {name : String}

@[simp]
theorem instructionCount_append :
    instructionCount (lines ++ more) =
      instructionCount lines + instructionCount more := by
  simp [instructionCount]

theorem declares_append_singleton :
    Declares (lines ++ [line]) place name ↔
      Declares lines place name ∨
        place = lines.length ∧ line.label = some name := by
  unfold Declares
  rcases Nat.lt_trichotomy place lines.length with before | here | after
  · rw [List.getElem?_append_left before]
    simp [Nat.ne_of_lt before]
  · subst here
    simp
  · rw [List.getElem?_eq_none (by simp; omega),
      List.getElem?_eq_none (by omega)]
    simp [Nat.ne_of_gt after]

theorem Declares.place_lt (declares : Declares lines place name) :
    place < lines.length := by
  obtain ⟨line, found, -⟩ := declares
  exact (List.getElem?_eq_some_iff.mp found).1

/-- The instruction of a line stands behind those of the lines before it. -/
theorem instructions_getElem? {p : Phrase}
    (found : lines[place]? = some line)
    (holds : line.instruction? = some p) :
    (instructions lines)[instructionCount (lines.take place)]? =
      some p := by
  induction lines generalizing place with
  | nil =>
      simp at found
  | cons first rest inductionHypothesis =>
      cases place with
      | zero =>
          obtain rfl : first = line := by simpa using found
          simp [instructions, instructionCount, holds]
      | succ place =>
          have behind := inductionHypothesis
            (show rest[place]? = some line by simpa using found)
          cases instruction : first.instruction? with
          | none =>
              simpa [instructions, instructionCount, instruction]
                using behind
          | some q =>
              simpa [instructions, instructionCount, instruction]
                using behind

theorem length_instructions :
    (instructions lines).length = instructionCount lines := by
  simp [instructions, instructionCount, List.length_filterMap_eq_countP]

end Lines

/-! ## One line -/

namespace Layout

variable {l next : Layout} {line : Line} {lines : List Line}

/-- Registering adds a method whose index no other one has. -/
theorem register_eq_ok {place : Nat} {m : NamedMethod}
    (registered : l.register place m = .ok next) :
    next = { l with methods := l.methods.push m } ∧
      ∀ other ∈ l.methods.toList, other.index ≠ m.index := by
  simp only [register] at registered
  split at registered
  · cases registered
  · rename_i free
    cases registered
    refine ⟨rfl, ?_⟩
    intro other member
    have all := Array.find?_eq_none.mp free other (by simpa using member)
    simpa using all

/-- What the directives do, each with what it takes for that. -/
inductive DirectiveCase (l : Layout) (p : Phrase) : Layout → Prop
  | entry {o : Operand} :
      p.name = ".entry" →
      p.operands = [o] →
      DirectiveCase l p { l with entry := some o }
  | method {next : Layout} :
      p.name = ".method" →
      l.methodDirective p = .ok next →
      DirectiveCase l p next
  | global {index : Int64} {bits : Slot} :
      p.name = ".global" →
      data p = .ok (index, bits) →
      DirectiveCase l p
        { l with globals := l.globals.push ⟨index, Slot.asInt bits⟩ }
  | stack {index : Int64} {bits : Slot} :
      p.name = ".stack" →
      data p = .ok (index, bits) →
      DirectiveCase l p { l with stack := l.stack.push ⟨index, bits⟩ }

theorem directive_case {p : Phrase} (laid : l.directive p = .ok next) :
    l.DirectiveCase p next := by
  simp only [directive] at laid
  split at laid
  · rename_i name
    split at laid
    · cases laid
      exact .entry name ‹_›
    · cases laid
  · split at laid
    · exact .method ‹_› laid
    · split at laid
      · obtain ⟨⟨index, bits⟩, read, laid⟩ := bind_eq_ok_iff.mp laid
        cases laid
        exact .global ‹_› read
      · split at laid
        · obtain ⟨⟨index, bits⟩, read, laid⟩ := bind_eq_ok_iff.mp laid
          cases laid
          exact .stack ‹_› read
        · cases laid

theorem methodDirective_pushes {p : Phrase}
    (laid : l.methodDirective p = .ok next) :
    ∃ m, next = { l with methods := l.methods.push m } := by
  simp only [methodDirective] at laid
  split at laid
  · obtain ⟨m, -, registered⟩ := bind_eq_ok_iff.mp laid
    exact ⟨m, (register_eq_ok registered).1⟩
  · obtain ⟨m, -, registered⟩ := bind_eq_ok_iff.mp laid
    exact ⟨m, (register_eq_ok registered).1⟩
  · cases laid

/-- A directive moves neither the address nor a label. -/
theorem directive_keeps {p : Phrase} (laid : l.directive p = .ok next) :
    next.address = l.address ∧ next.labels = l.labels := by
  cases directive_case laid with
  | entry | global | stack =>
      exact ⟨rfl, rfl⟩
  | method _ laid =>
      obtain ⟨m, rfl⟩ := methodDirective_pushes laid
      exact ⟨rfl, rfl⟩

/-- The labels that a line declares at an address. -/
def declared (line : Line) (address : Nat) : List (String × Nat) :=
  line.label.toList.map fun name => (name, address)

/-- What a line does once its label is declared. -/
def carryOut (l : Layout) : Option Statement → Except SourceFault Layout
  | some (.directive p) => l.directive p
  | some (.instruction _) => .ok { l with address := l.address + 1 }
  | none => .ok l

theorem line_eq_ok_iff :
    l.line line = .ok next ↔
      (∀ name, line.label = some name → l.label? name = none) ∧
        carryOut { l with labels := declared line l.address ++ l.labels }
          line.statement = .ok next := by
  cases label : line.label with
  | none =>
      simp only [Layout.line, label, declared, Option.toList_none,
        List.map_nil, List.nil_append, reduceCtorEq, false_implies,
        implies_true, true_and]
      rfl
  | some name =>
      simp only [Layout.line, label, declared, declare,
        Option.some.injEq, forall_eq']
      cases known : l.label? name with
      | none =>
          simp only [true_and]
          rfl
      | some target =>
          simp [bind_eq_ok_iff]

/-- What a line does once its label is declared: what its directive does, or
else nothing but to move the address. -/
inductive LineCase (l : Layout) (line : Line) : Layout → Prop
  | plain {next : Layout} :
      (∀ p, line.statement ≠ some (.directive p)) →
      next.methods = l.methods →
      next.globals = l.globals →
      next.stack = l.stack →
      next.entry = l.entry →
      LineCase l line next
  | directive {p : Phrase} {next : Layout} :
      line.statement = some (.directive p) →
      Layout.directive
        { l with labels := declared line l.address ++ l.labels } p =
          .ok next →
      LineCase l line next

theorem line_case (laid : l.line line = .ok next) :
    l.LineCase line next := by
  obtain ⟨-, laid⟩ := line_eq_ok_iff.mp laid
  cases statement : line.statement with
  | none =>
      rw [statement] at laid
      cases laid
      exact .plain (by simp [statement]) rfl rfl rfl rfl
  | some body =>
      rw [statement] at laid
      cases body with
      | instruction p =>
          cases laid
          exact .plain (by simp [statement]) rfl rfl rfl rfl
      | directive p =>
          exact .directive statement laid

theorem carryOut_keeps
    (laid : l.carryOut line.statement = .ok next) :
    next.address = l.address + instructionCount [line] ∧
      next.labels = l.labels := by
  cases statement : line.statement with
  | none =>
      rw [statement] at laid
      cases laid
      simp [instructionCount, Line.instruction?, statement]
  | some body =>
      rw [statement] at laid
      cases body with
      | directive p =>
          obtain ⟨sameAddress, sameLabels⟩ := directive_keeps laid
          simp [sameAddress, sameLabels, instructionCount,
            Line.instruction?, statement]
      | instruction p =>
          cases laid
          simp [instructionCount, Line.instruction?, statement]

/-! ## All lines -/

/-- What the first pass knows after some lines: the number of instructions,
and for every label the number of those before the one line that declares
it. -/
structure Reflects (l : Layout) (lines : List Line) : Prop where
  address : l.address = instructionCount lines
  label? (name : String) (target : Nat) :
    l.label? name = some target ↔
      ∃ place, Declares lines place name ∧
        target = instructionCount (lines.take place)
  unique {name : String} {place other : Nat} :
    Declares lines place name → Declares lines other name → place = other

theorem reflects_nil : ({} : Layout).Reflects [] where
  address := rfl
  label? name target := by
    simp [Layout.label?, Declares]
  unique declares := by
    simp [Declares] at declares

/-- A label that a line may declare is found at once, and the earlier ones
are still found. -/
theorem label?_after_line {name : String} {target : Nat}
    (fresh : ∀ name, line.label = some name → l.label? name = none)
    (labels : next.labels = declared line l.address ++ l.labels) :
    next.label? name = some target ↔
      l.label? name = some target ∨
        line.label = some name ∧ target = l.address := by
  cases label : line.label with
  | none =>
      simp [Layout.label?, labels, declared, label]
  | some own =>
      have lookup : next.label? name =
          if name = own then some l.address else l.label? name := by
        simp only [Layout.label?, labels, declared, label,
          Option.toList_some, List.map_cons, List.map_nil,
          List.cons_append, List.nil_append, List.lookup_cons]
        by_cases same : name = own
        · simp [same]
        · simp [beq_eq_false_iff_ne.mpr same, same]
      by_cases same : name = own
      · subst same
        simp [lookup, fresh name label, eq_comm]
      · simp [lookup, same, Ne.symm same]

theorem reflects_line (reflects : l.Reflects lines)
    (laid : l.line line = .ok next) :
    next.Reflects (lines ++ [line]) := by
  obtain ⟨fresh, laid⟩ := line_eq_ok_iff.mp laid
  obtain ⟨address, labels⟩ := carryOut_keeps laid
  -- A second declaration would have been refused.
  have undeclared {place : Nat} {name : String}
      (declares : Declares lines place name) :
      line.label ≠ some name := by
    intro label
    have known := (reflects.label? name _).mpr ⟨place, declares, rfl⟩
    rw [fresh name label] at known
    cases known
  refine ⟨?_, ?_, ?_⟩
  · rw [address, reflects.address, instructionCount_append]
  · intro name target
    rw [label?_after_line fresh labels, reflects.label?, reflects.address]
    constructor
    · rintro (⟨place, declares, rfl⟩ | ⟨label, rfl⟩)
      · have inside := declares.place_lt
        refine ⟨place, declares_append_singleton.mpr (.inl declares), ?_⟩
        rw [List.take_append_of_le_length (by omega)]
      · refine ⟨lines.length,
          declares_append_singleton.mpr (.inr ⟨rfl, label⟩), ?_⟩
        simp
    · rintro ⟨place, declares, rfl⟩
      rcases declares_append_singleton.mp declares with
        earlier | ⟨rfl, label⟩
      · have inside := earlier.place_lt
        refine .inl ⟨place, earlier, ?_⟩
        rw [List.take_append_of_le_length (by omega)]
      · exact .inr ⟨label, by simp⟩
  · intro name place other declares declaresOther
    rcases declares_append_singleton.mp declares with
      earlier | ⟨rfl, label⟩
    · rcases declares_append_singleton.mp declaresOther with
        otherEarlier | ⟨rfl, label⟩
      · exact reflects.unique earlier otherEarlier
      · exact absurd label (undeclared earlier)
    · rcases declares_append_singleton.mp declaresOther with
        otherEarlier | ⟨rfl, -⟩
      · exact absurd label (undeclared otherEarlier)
      · rfl

/-- What holds before the first line, and is kept by every line, holds after
all lines. -/
theorem ofLines_induction {Holds : Layout → List Line → Prop}
    (start : Holds {} [])
    (step : ∀ {l next : Layout} {seen : List Line} {line : Line},
      Holds l seen → l.line line = .ok next → Holds next (seen ++ [line]))
    (laid : Layout.ofLines lines = .ok l) : Holds l lines := by
  have generalised : ∀ (rest seen : List Line) (first last : Layout),
      Holds first seen → rest.foldlM Layout.line first = .ok last →
        Holds last (seen ++ rest) := by
    intro rest
    induction rest with
    | nil =>
        intro seen first last holds done
        cases done
        simpa using holds
    | cons line rest inductionHypothesis =>
        intro seen first last holds laid
        rw [List.foldlM_cons, bind_eq_ok_iff] at laid
        obtain ⟨middle, stepped, laid⟩ := laid
        have continued :=
          inductionHypothesis _ _ _ (step holds stepped) laid
        simpa using continued
  simpa using generalised lines [] {} l start laid

theorem ofLines_reflects (laid : Layout.ofLines lines = .ok l) :
    l.Reflects lines :=
  ofLines_induction reflects_nil reflects_line laid

end Layout

end Assembly

end WindowMachine
