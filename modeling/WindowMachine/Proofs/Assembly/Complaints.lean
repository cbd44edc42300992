import WindowMachine.Proofs.Assembly.Directives
import WindowMachine.Proofs.Source.Places

/-!
# Complaints and the lines they name

Assembling stops at the first fault, which may show in the first pass, in the
second one or only when the entry is settled.  Wherever that is, the number it
is reported with is the number of the line that is at fault: the one with the
second declaration of a label, a method or an index, the one with a directive
or an instruction that cannot be understood, or the one with an operand that
has no value, a wrong one or no declaration.
-/

namespace WindowMachine

open Source (Line Operand Phrase Statement)

namespace Assembly

/-! ## What is wrong with a line -/

/-- What is wrong with an operand by itself: it has not the value asked for,
or one out of the bounds. -/
inductive OperandOffends (o : Operand) : Complaint → Prop
  | register {fault : Source.OperandFault} :
      o.registerIndex = .error fault →
      OperandOffends o (.operand fault)
  | integer {fault : Source.OperandFault} :
      o.intValue = .error fault →
      OperandOffends o (.operand fault)
  | bits {fault : Source.OperandFault} :
      o.floatBits = .error fault →
      OperandOffends o (.operand fault)
  | outOfRange {value low high : Int} :
      o.intValue = .ok value →
      value < low ∨ high < value →
      OperandOffends o (.outOfRange value low high)

/-- What is wrong with the line at a place, next to the other lines. -/
inductive Offends (lines : List Line) (place : Nat) (l : Line) :
    Complaint → Prop
  | duplicateLabel {name : String} {earlier : Nat} :
      l.label = some name →
      Declares lines earlier name →
      earlier < place →
      Offends lines place l (.duplicateLabel name)
  | entryOperands {p : Phrase} :
      directive? ".entry" l = some p →
      p.operands.length ≠ 1 →
      Offends lines place l .entryOperands
  | methodOperands {p : Phrase} :
      methodPhrase? l = some p →
      p.operands.length ≠ 3 →
      p.operands.length ≠ 4 →
      Offends lines place l .methodOperands
  | methodName {p : Phrase} {o : Operand} :
      methodPhrase? l = some p →
      p.operands[0]? = some o →
      o.symbol? = none →
      Offends lines place l (.methodName o.text)
  | duplicateMethod {p q : Phrase} {name : String} {earlier : Nat} :
      methodPhrase? l = some p →
      Names p name →
      (earlier, q) ∈ methodDirectives lines →
      Names q name →
      earlier < place →
      Offends lines place l (.duplicateMethod name)
  | methodIndexTaken {p : Phrase} {table : Layout} {m owner : NamedMethod} :
      methodPhrase? l = some p →
      Layout.ofLines (lines.take place) = .ok table →
      Indexes table.methods.toList p m →
      owner ∈ table.methods.toList →
      owner.index = m.index →
      Offends lines place l (.methodIndexTaken m.index owner.name)
  | dataOperands {p : Phrase} :
      l.statement = some (.directive p) →
      p.name = ".global" ∨ p.name = ".stack" →
      p.operands.length ≠ 2 →
      Offends lines place l (.dataOperands p.name)
  | unknownDirective {p : Phrase} :
      l.statement = some (.directive p) →
      p.name ∉ [".entry", ".method", ".global", ".stack"] →
      Offends lines place l (.unknownDirective p.name)
  | unknownInstruction {p : Phrase} :
      l.instruction? = some p →
      Operation.ofMnemonic? p.name = none →
      Offends lines place l (.unknownInstruction p.name)
  | operandCount {p : Phrase} {op : Operation} :
      l.instruction? = some p →
      Operation.ofMnemonic? p.name = some op →
      p.operands.length ≠ op.operands →
      Offends lines place l (.operandCount op p.operands.length)
  | operand {body : Statement} {o : Operand} {complaint : Complaint} :
      l.statement = some body →
      o ∈ body.phrase.operands →
      OperandOffends o complaint →
      Offends lines place l complaint
  | unknownMethod {p : Phrase} {o : Operand} {name : String} :
      l.instruction? = some p →
      Operation.ofMnemonic? p.name = some .call →
      o ∈ p.operands →
      o.symbol? = some name →
      (∀ declaration ∈ methodDirectives lines,
        ¬ Names declaration.2 name) →
      Offends lines place l (.unknownMethod name)
  | undefinedLabel {p : Phrase} {o : Operand} {name : String} :
      l.instruction? = some p →
      o ∈ p.operands →
      o.symbol? = some name →
      (∀ target, ¬ Declares lines target name) →
      Offends lines place l (.undefinedLabel name)
  | labelTooFar {p : Phrase} {o : Operand} {name : String} {target : Nat}
      {offset : Int} :
      l.instruction? = some p →
      o ∈ p.operands →
      o.symbol? = some name →
      Declares lines target name →
      offset = instructionCount (lines.take target) -
        (instructionCount (lines.take place) + 1) →
      offset < minS16 ∨ maxS16 < offset →
      Offends lines place l (.labelTooFar name offset)
  | undefinedEntry {p : Phrase} {o : Operand} {name : String} :
      directive? ".entry" l = some p →
      p.operands.head? = some o →
      o.symbol? = some name →
      directives ".entry" (lines.drop (place + 1)) = [] →
      (∀ target, ¬ Declares lines target name) →
      (∀ declaration ∈ methodDirectives lines,
        ¬ Names declaration.2 name) →
      Offends lines place l (.undefinedEntry name)

/-- Whether a fault names a line of some number, with a complaint that is
justified. -/
def Blames (number : Nat) (justified : Complaint → Prop) :
    SourceFault → Prop
  | .onLine line complaint => line = number ∧ justified complaint
  | .malformed _ => False

/-! ## Operands -/

section Operands

variable {o : Operand}

theorem integer_fails (low high : Int) :
    FailsOnly (Blames o.pos.line (OperandOffends o))
      (integer o low high) := by
  simp only [integer]
  cases value : o.intValue with
  | error fault =>
      exact failsOnly_error ⟨rfl, .integer value⟩
  | ok n =>
      by_cases outside : n < low ∨ high < n
      · simp only [outside, if_true]
        exact failsOnly_error ⟨rfl, .outOfRange value outside⟩
      · simp only [outside, if_false]
        exact failsOnly_ok n

theorem register_fails :
    FailsOnly (Blames o.pos.line (OperandOffends o)) (register o) := by
  simp only [register]
  cases value : o.registerIndex with
  | error fault =>
      exact failsOnly_error ⟨rfl, .register value⟩
  | ok r =>
      exact failsOnly_ok r

end Operands

section Line

variable {lines : List Line} {place : Nat} {l : Line} {p : Phrase}
  (standsOn : l.StandsOn (place + 1))

include standsOn

theorem operand_fails {α : Type} {result : Except SourceFault α}
    {body : Statement} {o : Operand} (statement : l.statement = some body)
    (member : o ∈ body.phrase.operands)
    (fails : FailsOnly (Blames o.pos.line (OperandOffends o)) result) :
    FailsOnly (Blames (place + 1) (Offends lines place l)) result := by
  refine fails.mono fun why blames => ?_
  cases why with
  | malformed why =>
      exact blames
  | onLine line complaint =>
      obtain ⟨number, offends⟩ := blames
      refine ⟨?_, .operand statement member offends⟩
      rw [number, (standsOn.statement body statement).operands o member]

/-! ## The first pass -/

section Directives

variable (directive : l.statement = some (.directive p))

include directive

theorem data_fails (name : p.name = ".global" ∨ p.name = ".stack") :
    FailsOnly (Blames (place + 1) (Offends lines place l))
      (Layout.data p) := by
  have number := (standsOn.statement _ directive).phrase
  simp only [Layout.data]
  split
  · rename_i index value operands
    have indexMember : index ∈ p.operands := by simp [operands]
    have valueMember : value ∈ p.operands := by simp [operands]
    apply FailsOnly.bind
    · exact operand_fails standsOn directive indexMember (integer_fails _ _)
    · intro n
      split
      · cases bits : value.floatBits with
        | error fault =>
            apply operand_fails standsOn directive valueMember
            exact failsOnly_error ⟨rfl, .bits bits⟩
        | ok bits =>
            exact failsOnly_ok _
      · apply FailsOnly.bind
        · exact operand_fails standsOn directive valueMember
            (integer_fails _ _)
        · intro n
          exact failsOnly_ok _
  · rename_i other
    refine failsOnly_error ⟨number, .dataOperands directive name ?_⟩
    intro two
    obtain ⟨index, value, operands⟩ := List.length_eq_two.mp two
    exact other index value operands

end Directives

section Methods

variable {st table : Layout}
  (laid : Layout.ofLines (lines.take place) = .ok st)
  (methods : table.methods = st.methods)
  (directive : l.statement = some (.directive p))
  (named : p.name = ".method")

omit standsOn in
include laid methods in
/-- A method of the table has been declared on an earlier line. -/
theorem declared_earlier {m : NamedMethod}
    (member : m ∈ table.methods.toList) :
    ∃ earlier q, (earlier, q) ∈ methodDirectives lines ∧
      Names q m.name ∧ earlier < place := by
  have tabulates := Layout.ofLines_tabulates laid
  rw [methods] at member
  obtain ⟨k, found⟩ := List.mem_iff_getElem?.mp member
  obtain ⟨earlier, q, declared, row⟩ := tabulates.exists_row found
  obtain ⟨line, taken, phrase⟩ :=
    mem_methodDirectives_iff.mp (List.mem_of_getElem? declared)
  obtain ⟨below, taken⟩ :
      earlier < place ∧ lines[earlier]? = some line := by
    simpa [List.getElem?_take] using taken
  exact ⟨earlier, q, mem_methodDirectives_iff.mpr ⟨line, taken, phrase⟩,
    row.describes.name, below⟩

include laid methods directive named

theorem describe_fails {name args locals : Operand}
    {index : Option Operand}
    (operands : p.operands = name :: args :: locals :: index.toList) :
    FailsOnly (Blames (place + 1) (Offends lines place l))
      (table.describe p name args locals index) := by
  have number := (standsOn.statement _ directive).phrase
  have method : methodPhrase? l = some p := by
    simp [methodPhrase?, directive, named]
  have argsMember : args ∈ p.operands := by simp [operands]
  have localsMember : locals ∈ p.operands := by simp [operands]
  have counted {o : Operand} (member : o ∈ p.operands) :
      FailsOnly (Blames (place + 1) (Offends lines place l))
        (count o maxU16) :=
    operand_fails standsOn directive member (integer_fails _ _)
  simp only [Layout.describe]
  cases symbol : name.symbol? with
  | none =>
      exact failsOnly_error
        ⟨number, .methodName method (by simp [operands]) symbol⟩
  | some own =>
      simp only []
      cases known : table.method? own with
      | some other =>
          have same : other.name = own := by
            simpa using Array.find?_some known
          obtain ⟨earlier, q, declared, names, below⟩ :=
            declared_earlier laid methods
              (by simpa using Array.mem_of_find?_eq_some known)
          rw [same] at names
          exact failsOnly_error ⟨number, .duplicateMethod method
            ⟨name, by simp [operands], symbol⟩ declared names below⟩
      | none =>
          apply (counted argsMember).bind
          intro a
          apply (counted localsMember).bind
          intro b
          cases index with
          | none =>
              exact failsOnly_ok _
          | some o =>
              apply FailsOnly.bind
              · exact (counted (by simp [operands])).map
              · intro n
                exact failsOnly_ok _

theorem register_method_fails {m : NamedMethod}
    (indexes : Indexes table.methods.toList p m) :
    FailsOnly (Blames (place + 1) (Offends lines place l))
      (table.register p.pos.line m) := by
  have number := (standsOn.statement _ directive).phrase
  have method : methodPhrase? l = some p := by
    simp [methodPhrase?, directive, named]
  simp only [Layout.register]
  cases taken : table.methods.find? (fun other => other.index == m.index) with
  | none =>
      exact failsOnly_ok _
  | some owner =>
      have member : owner ∈ table.methods.toList := by
        simpa using Array.mem_of_find?_eq_some taken
      have same : owner.index = m.index := by
        simpa using Array.find?_some taken
      rw [methods] at indexes member
      exact failsOnly_error
        ⟨number, .methodIndexTaken method laid indexes member same⟩

theorem methodDirective_fails :
    FailsOnly (Blames (place + 1) (Offends lines place l))
      (table.methodDirective p) := by
  have number := (standsOn.statement _ directive).phrase
  have method : methodPhrase? l = some p := by
    simp [methodPhrase?, directive, named]
  have registered {name args locals : Operand} {index : Option Operand}
      (operands : p.operands = name :: args :: locals :: index.toList) :
      FailsOnly (Blames (place + 1) (Offends lines place l))
        (table.describe p name args locals index >>=
          table.register p.pos.line) := by
    apply FailsOnly.bind_ok
    · exact describe_fails standsOn laid methods directive named operands
    · intro m described
      obtain ⟨-, indexes, -⟩ := Layout.describe_eq_ok operands described
      exact register_method_fails standsOn laid methods directive named
        indexes
  simp only [Layout.methodDirective]
  split
  · rename_i name args locals operands
    exact registered (by simpa using operands)
  · rename_i name args locals index operands
    exact registered (by simpa using operands)
  · rename_i three four
    refine failsOnly_error ⟨number, .methodOperands method ?_ ?_⟩
    · intro count
      obtain ⟨name, args, locals, operands⟩ := List.length_eq_three.mp count
      exact three name args locals operands
    · intro count
      cases split : p.operands with
      | nil =>
          simp [split] at count
      | cons name others =>
          have three : others.length = 3 := by simpa [split] using count
          obtain ⟨args, locals, index, rfl⟩ := List.length_eq_three.mp three
          exact four name args locals index split

omit named in
theorem directive_fails :
    FailsOnly (Blames (place + 1) (Offends lines place l))
      (table.directive p) := by
  have number := (standsOn.statement _ directive).phrase
  simp only [Layout.directive]
  split
  · rename_i entry
    split
    · exact failsOnly_ok _
    · rename_i other
      refine failsOnly_error ⟨number,
        .entryOperands (p := p) (by simp [directive?, directive, entry]) ?_⟩
      intro one
      obtain ⟨o, operands⟩ := List.length_eq_one_iff.mp one
      exact other o operands
  · rename_i notEntry
    split
    · rename_i named
      exact methodDirective_fails standsOn laid methods directive named
    · rename_i notMethod
      split
      · rename_i global
        apply (data_fails standsOn directive (.inl global)).bind
        intro seed
        exact failsOnly_ok _
      · rename_i notGlobal
        split
        · rename_i stack
          apply (data_fails standsOn directive (.inr stack)).bind
          intro seed
          exact failsOnly_ok _
        · rename_i notStack
          refine failsOnly_error ⟨number, .unknownDirective directive ?_⟩
          simp [notEntry, notMethod, notGlobal, notStack]

omit directive named in
theorem carryOut_fails :
    FailsOnly (Blames (place + 1) (Offends lines place l))
      (table.carryOut l.statement) := by
  cases statement : l.statement with
  | none =>
      exact failsOnly_ok table
  | some body =>
      cases body with
      | instruction p =>
          exact failsOnly_ok _
      | directive p =>
          exact directive_fails standsOn laid methods statement

end Methods

/-- What a line fails for in the first pass is wrong with this line. -/
theorem line_fails {st : Layout}
    (laid : Layout.ofLines (lines.take place) = .ok st) :
    FailsOnly (Blames (place + 1) (Offends lines place l)) (st.line l) := by
  have reflects := Layout.ofLines_reflects laid
  cases label : l.label with
  | none =>
      have same : st.line l = st.carryOut l.statement := by
        simp only [Layout.line, label]
        rfl
      rw [same]
      exact carryOut_fails standsOn laid rfl
  | some name =>
      cases known : st.label? name with
      | none =>
          have same : st.line l =
              Layout.carryOut
                { st with labels := (name, st.address) :: st.labels }
                l.statement := by
            simp only [Layout.line, label, Layout.declare, known]
            rfl
          rw [same]
          exact carryOut_fails standsOn laid rfl
      | some target =>
          have same : st.line l =
              .error (.onLine l.pos.line (.duplicateLabel name)) := by
            simp only [Layout.line, label, Layout.declare, known]
            rfl
          obtain ⟨earlier, ⟨line, taken, own⟩, -⟩ :=
            (reflects.label? name target).mp known
          obtain ⟨below, taken⟩ :
              earlier < place ∧ lines[earlier]? = some line := by
            simpa [List.getElem?_take] using taken
          rw [same]
          exact failsOnly_error ⟨standsOn.start,
            .duplicateLabel label ⟨line, taken, own⟩ below⟩

/-! ## The second pass -/

omit standsOn in
theorem undeclared {st : Layout} {name : String}
    (laid : Layout.ofLines lines = .ok st)
    (unknown : st.label? name = none) (target : Nat) :
    ¬ Declares lines target name := by
  intro declares
  have known := ((Layout.ofLines_reflects laid).label? name _).mpr
    ⟨target, declares, rfl⟩
  rw [unknown] at known
  cases known

omit standsOn in
theorem unnamed {st : Layout} {name : String}
    (laid : Layout.ofLines lines = .ok st)
    (unknown : st.method? name = none) :
    ∀ declaration ∈ methodDirectives lines, ¬ Names declaration.2 name := by
  have tabulates := Layout.ofLines_tabulates laid
  rintro ⟨target, q⟩ declared names
  obtain ⟨k, found⟩ := List.mem_iff_getElem?.mp declared
  have bound := (List.getElem?_eq_some_iff.mp found).1
  have inTable := List.getElem?_eq_getElem
    (show k < st.methods.toList.length by rw [tabulates.length]; exact bound)
  have row := tabulates.row found inTable
  exact Layout.method?_eq_none unknown (List.mem_of_getElem? inTable)
    (row.describes.name.unique names)

section Instructions

variable {st : Layout} {o : Operand} {op : Operation}
  (laid : Layout.ofLines lines = .ok st)
  (phrase : l.instruction? = some p) (member : o ∈ p.operands)

omit standsOn in
include phrase in
theorem statement_of_instruction? :
    l.statement = some (.instruction p) := by
  unfold Line.instruction? at phrase
  split at phrase
  · rename_i own statement
    cases phrase
    exact statement
  · cases phrase

include phrase member

theorem integer_operand_fails (low high : Int) :
    FailsOnly (Blames (place + 1) (Offends lines place l))
      (integer o low high) :=
  operand_fails standsOn (statement_of_instruction? phrase) member
    (integer_fails low high)

theorem operand_line : o.pos.line = place + 1 :=
  (standsOn.statement _ (statement_of_instruction? phrase)).operands o member

include laid

theorem offset_fails {low high : Int} (lower : low ≤ minS16)
    (upper : maxS16 ≤ high) :
    FailsOnly (Blames (place + 1) (Offends lines place l))
      (offset st (instructionCount (lines.take place)) o low high) := by
  have number := operand_line standsOn phrase member
  simp only [offset]
  cases symbol : o.symbol? with
  | none =>
      exact integer_operand_fails standsOn phrase member low high
  | some name =>
      simp only []
      cases known : st.label? name with
      | none =>
          exact failsOnly_error ⟨number,
            .undefinedLabel phrase member symbol (undeclared laid known)⟩
      | some address =>
          obtain ⟨target, declares, rfl⟩ :=
            ((Layout.ofLines_reflects laid).label? name address).mp known
          simp only []
          split
          · rename_i outside
            exact failsOnly_error ⟨number,
              .labelTooFar phrase member symbol declares rfl (by omega)⟩
          · exact failsOnly_ok _

theorem unsigned_fails (mnemonic : Operation.ofMnemonic? p.name = some op) :
    FailsOnly (Blames (place + 1) (Offends lines place l))
      (unsigned st op o) := by
  have number := operand_line standsOn phrase member
  unfold unsigned
  split
  · rename_i name symbol
    cases known : st.method? name with
    | none =>
        exact failsOnly_error ⟨number,
          .unknownMethod phrase mnemonic member symbol (unnamed laid known)⟩
    | some m =>
        exact failsOnly_ok _
  · exact (integer_operand_fails standsOn phrase member 0 maxU16).map

omit member in
/-- What an instruction fails for in the second pass is wrong with its
line. -/
theorem encode_fails :
    FailsOnly (Blames (place + 1) (Offends lines place l))
      (encode st (instructionCount (lines.take place)) p) := by
  have number :=
    (standsOn.statement _ (statement_of_instruction? phrase)).phrase
  simp only [encode]
  cases mnemonic : Operation.ofMnemonic? p.name with
  | none =>
      exact failsOnly_error ⟨number, .unknownInstruction phrase mnemonic⟩
  | some op =>
      simp only []
      split
      · rename_i other
        exact failsOnly_error ⟨number, .operandCount phrase mnemonic other⟩
      · simp only [wordOf]
        apply FailsOnly.bind
        · apply failsOnly_mapM
          intro o member
          exact operand_fails standsOn (statement_of_instruction? phrase)
            (List.mem_of_mem_take member) register_fails
        · intro regs
          have last {o : Operand} {more : List Operand}
              (split : p.operands.drop op.registers = o :: more) :
              o ∈ p.operands := by
            apply List.mem_of_mem_drop
            rw [split]
            exact List.mem_cons_self
          split
          · apply FailsOnly.bind
            · exact unsigned_fails standsOn laid phrase (last ‹_›) mnemonic
            · exact fun n => failsOnly_ok _
          · apply FailsOnly.bind
            · exact offset_fails standsOn laid phrase (last ‹_›)
                (Int.le_refl _) (Int.le_refl _)
            · exact fun n => failsOnly_ok _
          · apply FailsOnly.bind
            · exact integer_operand_fails standsOn phrase (last ‹_›) 0 maxU24
            · exact fun n => failsOnly_ok _
          · apply FailsOnly.bind
            · exact offset_fails standsOn laid phrase (last ‹_›)
                (by decide) (by decide)
            · exact fun n => failsOnly_ok _
          · exact failsOnly_ok _
          · exact failsOnly_ok _

end Instructions

end Line

theorem encodeFrom_eq_error {st : Layout} {seen : Array Word}
    {phrases : List Phrase} {why : SourceFault}
    (failed : encodeFrom st seen phrases = .error why) :
    ∃ k p, phrases[k]? = some p ∧
      encode st (seen.size + k) p = .error why := by
  induction phrases generalizing seen with
  | nil =>
      cases failed
  | cons p rest inductionHypothesis =>
      simp only [encodeFrom] at failed
      split at failed
      · rename_i cause fails
        cases failed
        exact ⟨0, p, rfl, fails⟩
      · obtain ⟨k, q, found, fails⟩ := inductionHypothesis failed
        refine ⟨k + 1, q, found, ?_⟩
        rwa [Array.size_push, Nat.add_assoc, Nat.add_comm 1 k] at fails

/-- Every instruction stands on a line, behind the instructions before it. -/
theorem exists_line_of_instructions {lines : List Line} {k : Nat}
    {p : Phrase} (found : (instructions lines)[k]? = some p) :
    ∃ place l, lines[place]? = some l ∧ l.instruction? = some p ∧
      k = instructionCount (lines.take place) := by
  induction lines generalizing k with
  | nil =>
      simp [instructions] at found
  | cons first rest inductionHypothesis =>
      cases holds : first.instruction? with
      | none =>
          obtain ⟨place, l, inside, own, rfl⟩ := inductionHypothesis
            (show (instructions rest)[k]? = some p by
              simpa [instructions, holds] using found)
          exact ⟨place + 1, l, inside, own,
            by simp [instructionCount, holds]⟩
      | some q =>
          cases k with
          | zero =>
              obtain rfl : q = p := by
                simpa [instructions, holds] using found
              exact ⟨0, first, rfl, holds, rfl⟩
          | succ k =>
              obtain ⟨place, l, inside, own, rfl⟩ := inductionHypothesis
                (show (instructions rest)[k]? = some p by
                  simpa [instructions, holds] using found)
              exact ⟨place + 1, l, inside, own,
                by simp [instructionCount, holds]⟩

/-! ## The entry -/

theorem directives_cons (name : String) (l : Line) (lines : List Line) :
    directives name (l :: lines) =
      (directive? name l).toList ++ directives name lines := by
  cases found : directive? name l with
  | none =>
      simp [directives, found]
  | some p =>
      simp [directives, found]

theorem exists_line_of_last {name : String} {lines : List Line} {p : Phrase}
    (last : (directives name lines).getLast? = some p) :
    ∃ place l, lines[place]? = some l ∧ directive? name l = some p ∧
      directives name (lines.drop (place + 1)) = [] := by
  induction lines with
  | nil =>
      cases last
  | cons first rest inductionHypothesis =>
      rw [directives_cons, List.getLast?_append] at last
      cases behind : (directives name rest).getLast? with
      | none =>
          rw [behind, Option.none_or] at last
          have own : directive? name first = some p := by
            cases found : directive? name first with
            | none =>
                simp [found] at last
            | some q =>
                simpa [found] using last
          exact ⟨0, first, rfl, own, List.getLast?_eq_none_iff.mp behind⟩
      | some q =>
          rw [behind, Option.some_or] at last
          obtain ⟨place, l, found, own, none⟩ :=
            inductionHypothesis (behind.trans last)
          exact ⟨place + 1, l, found, own, none⟩

/-! ## All lines -/

/-- Whether a fault names the line that is at fault. -/
def NamesLine (lines : List Line) (why : SourceFault) : Prop :=
  ∃ place l, lines[place]? = some l ∧
    Blames (place + 1) (Offends lines place l) why

section Text

variable {lines : List Line} {st : Layout}
  (numbered : ∀ {place : Nat} {l : Line}, lines[place]? = some l →
    l.StandsOn (place + 1))

include numbered

theorem layout_fails :
    FailsOnly (NamesLine lines) (Layout.ofLines lines) := by
  intro why failed
  obtain ⟨place, l, state, found, laid, fails⟩ := foldlM_eq_error failed
  exact ⟨place, l, found, line_fails (numbered found) laid why fails⟩

theorem encodeFrom_fails (laid : Layout.ofLines lines = .ok st) :
    FailsOnly (NamesLine lines) (encodeFrom st #[] (instructions lines)) := by
  intro why failed
  obtain ⟨k, p, found, fails⟩ := encodeFrom_eq_error failed
  obtain ⟨place, l, inside, phrase, rfl⟩ := exists_line_of_instructions found
  rw [Array.size_empty, Nat.zero_add] at fails
  exact ⟨place, l, inside,
    encode_fails (numbered inside) laid phrase why fails⟩

theorem entryAddress_fails (laid : Layout.ofLines lines = .ok st) :
    FailsOnly (NamesLine lines) (entryAddress st) := by
  have collects := Layout.ofLines_collects laid
  simp only [entryAddress]
  cases written : st.entry with
  | none =>
      exact failsOnly_ok _
  | some o =>
      have operand := collects.entry.symm.trans written
      obtain ⟨p, last, first⟩ := Option.bind_eq_some_iff.mp operand
      obtain ⟨place, l, found, entry, later⟩ := exists_line_of_last last
      have directive : l.statement = some (.directive p) := by
        unfold directive? at entry
        split at entry
        · rename_i own statement
          split at entry
          · cases entry
            exact statement
          · cases entry
        · cases entry
      have member : o ∈ p.operands := List.mem_of_head? first
      have number : o.pos.line = place + 1 :=
        ((numbered found).statement _ directive).operands o member
      simp only []
      split
      · have counted : FailsOnly (NamesLine lines) (count o maxInt32) :=
          (operand_fails (numbered found) directive member
            (integer_fails 0 maxInt32)).mono
              fun why blames => ⟨place, l, found, blames⟩
        exact counted.map
      · rename_i name symbol
        split
        · exact failsOnly_ok _
        · exact failsOnly_ok _
        · rename_i noLabel noMethod
          exact failsOnly_error ⟨place, l, found, number,
            .undefinedEntry entry first symbol later
              (undeclared laid noLabel) (unnamed laid noMethod)⟩

/-- Assembling fails for nothing but what is wrong with the line that it
names. -/
theorem ofLines_fails : FailsOnly (NamesLine lines) (ofLines lines) := by
  simp only [ofLines]
  apply (layout_fails numbered).bind_ok
  intro st laid
  apply (encodeFrom_fails numbered laid).bind
  intro code
  apply (entryAddress_fails numbered laid).bind
  intro entry
  exact failsOnly_ok _

end Text

/-- A text that can be read has one line for each of its newlines, counted
with the one at its end.  Every place in a line has the number of the line,
which is read as its physical line is by itself.  So a fault that assembling
the text comes to names the physical line with what is wrong. -/
theorem faults_name_lines {source : List UInt8} {lines : List Line}
    (parsed : Source.parse source = .ok lines) :
    lines.length = (Source.terminated source).count 0x0A ∧
      (∀ (place : Nat) (l : Line), lines[place]? = some l →
        l.StandsOn (place + 1) ∧
          ∃ piece own,
            (Source.physicalLines source)[place]? = some piece ∧
              Source.parse piece = .ok [own] ∧
                own.unplaced = l.unplaced) ∧
        FailsOnly (NamesLine lines) (assemble source) := by
  have readOff := Source.parse_readOff parsed
  have standsOn {place : Nat} {l : Line} (found : lines[place]? = some l) :
      l.StandsOn (place + 1) ∧ ∃ piece own,
        (Source.physicalLines source)[place]? = some piece ∧
          Source.parse piece = .ok [own] ∧ own.unplaced = l.unplaced := by
    have inside := (List.getElem?_eq_some_iff.mp found).1
    rw [readOff.length] at inside
    have piece := List.getElem?_eq_getElem inside
    obtain ⟨stands, -, own, alone, same⟩ := readOff.each found piece
    rw [Nat.add_comm] at stands
    exact ⟨stands, _, own, piece, alone, same⟩
  refine ⟨?_, fun place l => standsOn, ?_⟩
  · rw [readOff.length, Source.length_physicalLines]
  · simp only [assemble, parsed]
    exact ofLines_fails fun found => (standsOn found).1

/-- A source with an instruction that lacks an operand, behind remarks, an
empty line, a carriage return and a label. -/
def remarkedSource : List UInt8 :=
  ("; café\r\n" ++
    "\n" ++
    "main:\tmov r0, r1 ; ☕\r\n" ++
    "  ; add r0\n" ++
    "add r0, r1\n" ++
    "end").toUTF8.toList

theorem remarkedSource_named :
    ∃ lines, Source.parse remarkedSource = .ok lines ∧ lines.length = 6 ∧
      NamesLine lines (.onLine 5 (.operandCount .add 2)) := by
  have parsed : Source.parse remarkedSource =
      .ok ((Source.parse remarkedSource).toOption.getD []) :=
    toOption_eq_some_iff.mp (by decide +kernel)
  obtain ⟨length, -, fails⟩ := faults_name_lines parsed
  refine ⟨_, parsed, ?_, fails _ ?_⟩
  · rw [length]
    decide +kernel
  · exact failure?_eq_some_iff.mp (by decide +kernel)

end Assembly

end WindowMachine
