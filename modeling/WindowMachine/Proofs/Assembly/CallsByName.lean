import WindowMachine.Proofs.Assembly.Methods
import WindowMachine.Proofs.Machine.Seeding

/-!
# Calls that reach the method they name

An index that has been cut to sixteen bits could name another method, or
none.  It does not on a machine to which the whole image could be applied:
every index then lies inside the method table, which has no more entries than
sixteen bits can name.  Since no two methods of an image have the same index,
none has overwritten another.
-/

namespace WindowMachine

open Source (Line Phrase)

/-! ## Executing a call -/

namespace Machine

/-- Whether a call leads a machine to a method: it is the one registered at
the number of the call, and executing the call enters its frame or fails as
that frame does, never for want of a method. -/
structure Resolves (m : Machine) (i : Instruction) (method : Method) :
    Prop where
  found : m.method? i.imm.toInt64 = some method
  effect : (m.fetched i).effect i = (m.calleeFrame method).map .enter
  known (why : Failure) : m.next? = some i →
    m.step.2 = .failed why → why.condition? ≠ some .unknownMethod

variable {m : Machine} {i : Instruction} {method : Method}

theorem calleeFrame_condition {cause : Failure}
    (refused : m.calleeFrame method = .error cause) :
    cause.condition? = some .outOfRange ∨
      cause.condition? = some .callStackOverflow := by
  simp only [calleeFrame] at refused
  split at refused
  · cases refused
    exact .inl rfl
  · split at refused
    · cases refused
      exact .inl rfl
    · split at refused
      · cases refused
        exact .inr rfl
      · cases refused

theorem effect_call (calls : Operation.ofByte? i.opcode = some .call)
    (found : m.method? i.imm.toInt64 = some method) :
    (m.fetched i).effect i = (m.calleeFrame method).map .enter := by
  simp only [effect, calls, operationEffect, callEffect, fetched_method?,
    found, fetched_calleeFrame]
  cases m.calleeFrame method with
  | error cause =>
      rfl
  | ok callee =>
      rfl

theorem resolves_of_found
    (calls : Operation.ofByte? i.opcode = some .call)
    (found : m.method? i.imm.toInt64 = some method) :
    m.Resolves i method := by
  have worked := effect_call calls found
  refine ⟨found, worked, ?_⟩
  intro why fetches failed unknown
  rw [step_eq_execute fetches, execute_eq, worked] at failed
  cases built : m.calleeFrame method with
  | ok callee =>
      simp only [built, Except.map, perform] at failed
      split at failed
      · cases failed
      · split at failed
        · cases failed
        · cases failed
  | error cause =>
      simp only [built, Except.map, StepOutcome.failed.injEq] at failed
      subst failed
      rw [Failure.condition?] at unknown
      rcases calleeFrame_condition built with range | depth
      · rw [range] at unknown
        cases unknown
      · rw [depth] at unknown
        cases unknown

end Machine

namespace Assembly

variable {lines : List Line} {img : Image} {name : String}

/-! ## The method of a name -/

/-- Whether a method is the one that the directive at a place declares under
a name, and no other directive does. -/
structure DeclaredAs (lines : List Line) (name : String) (place : Nat)
    (p : Phrase) (method : Method) : Prop where
  declared : (place, p) ∈ methodDirectives lines
  names : Names p name
  only (other : Nat) (q : Phrase) :
    (other, q) ∈ methodDirectives lines → Names q name →
    (other, q) = (place, p)
  entry : method.entry = Int64.ofNat (instructionCount (lines.take place))
  args : ∃ o, p.operands[1]? = some o ∧
    o.intValue = .ok method.args.toInt
  locals : ∃ o, p.operands[2]? = some o ∧
    o.intValue = .ok method.locals.toInt

theorem declaredAs_of_methodByName? {entry : NamedMethod}
    (laid : ofLines lines = .ok img)
    (named : img.methodByName? name = some entry) :
    ∃ place p, DeclaredAs lines name place p entry.method := by
  obtain ⟨l, layout, -⟩ := ofLines_eq_ok laid
  have tabulates := Layout.ofLines_tabulates layout
  rw [Image.methodByName?, ofLines_methods laid layout] at named
  obtain ⟨rfl, -, place, p, before, declared, row⟩ :=
    tabulates.lookup named
  refine ⟨place, p, declared, row.describes.name, ?_, row.entry,
    row.describes.args, row.describes.locals⟩
  intro other q otherDeclared otherNames
  exact tabulates.declaration_unique otherDeclared declared otherNames
    row.describes.name

/-! ## The method at an index -/

/-- A machine to which an image could be applied holds each method of the
image at its index, and the index is one that a call can hold. -/
theorem applied_method? {c : Capacities} {start m : Machine}
    {history : List Command} {entry : NamedMethod}
    (laid : ofLines lines = .ok img)
    (made : Machine.new c = .ok start)
    (applied : img.applyTo (start.after history) = (m, none))
    (member : entry ∈ img.methods.toList) :
    m.method? entry.index = some entry.method ∧ IndexFits entry := by
  obtain ⟨l, layout, -⟩ := ofLines_eq_ok laid
  have fresh := (Layout.ofLines_tabulates layout).pairwise_fresh
  rw [← ofLines_methods laid layout] at fresh
  obtain ⟨seeded, folded, same⟩ := Image.applyTo_eq_none applied
  have found : m.method? entry.index = some entry.method := by
    rw [Machine.method?_congr same]
    exact Image.foldlM_method? folded (fresh.imp And.right) member
  have size : m.methods.size ≤ 2 ^ 16 := by
    have grown : m.methods.size ≤ (start.after history).methods.size := by
      have obeyed := @Machine.obey_methods_size (start.after history)
        (.seed img)
      rwa [Machine.obey, applied] at obeyed
    exact Nat.le_trans grown (Machine.after_methods_size made history)
  obtain ⟨place, inside, -⟩ := Machine.method?_eq_some_iff.mp found
  obtain ⟨index, below⟩ := position?_eq_some_iff.mp inside
  refine ⟨found, ?_, ?_⟩
  · omega
  · simp only [maxU16]
    omega

theorem toInt64_eq_index {imm : Int32} {entry : NamedMethod}
    (fits : IndexFits entry)
    (value : imm.toInt = (UInt16.ofInt entry.index.toInt).toNat) :
    imm.toInt64 = entry.index := by
  apply Int64.toInt_inj.mp
  rw [Int32.toInt_toInt64, value, toNat_ofInt_u16 fits.1 fits.2]

/-! ## Calls -/

/-- On every machine to which an image could be applied, and as long as no
method is registered anew, each call by name leads to the method that its
source declares under that name. -/
theorem call_reaches_method {source : List UInt8} {c : Capacities}
    {start m : Machine} {history : List Command}
    (accepted : assemble source = .ok img)
    (made : Machine.new c = .ok start)
    (applied : img.applyTo (start.after history) = (m, none)) :
    ∃ lines, Source.parse source = .ok lines ∧
      ∀ place name, CallsByName lines place name →
        ∃ w declaration p method,
          img.words[instructionCount (lines.take place)]? = some w ∧
            DeclaredAs lines name declaration p method ∧
              ∀ later : List Command,
                (∀ command ∈ later, command.LeavesMethods) →
                (m.after later).Resolves (Instruction.decode w)
                  method := by
  obtain ⟨lines, parsed, laid⟩ := assemble_eq_ok accepted
  refine ⟨lines, parsed, ?_⟩
  intro place name calls
  obtain ⟨w, entry, word, named, opcode, value⟩ :=
    callsByName_word laid calls
  obtain ⟨declaration, p, declaredAs⟩ :=
    declaredAs_of_methodByName? laid named
  have member : entry ∈ img.methods.toList := by
    simpa using Array.mem_of_find?_eq_some named
  obtain ⟨found, fits⟩ := applied_method? laid made applied member
  refine ⟨w, declaration, p, entry.method, word, declaredAs, ?_⟩
  intro later leaves
  apply Machine.resolves_of_found
  · rw [opcode, Operation.ofByte?_byte]
  · rw [toInt64_eq_index fits value,
      Machine.method?_congr (Machine.after_methods leaves)]
    exact found

/-- A source that calls a method before it declares it, with a written index
and one that is counted on. -/
def forwardSource : List UInt8 :=
  ("call g\n" ++
    "end\n" ++
    ".method f, 0, 1, 5\n" ++
    "ret r0\n" ++
    ".method g, 0, 2\n" ++
    "ret r1\n").toUTF8.toList

def forwardImage : Image where
  magic := Image.expectedMagic
  version := Image.expectedVersion
  entry := 0
  code := some #[0x00060020, 0x00000024, 0x00000021, 0x00000121]
  methods := #[⟨"f", 5, 2, 0, 1⟩, ⟨"g", 6, 3, 0, 2⟩]
  globals := #[]
  stack := #[]
  checksum := Vector.replicate 32 0

def forwardCapacities : Capacities :=
  { stack := 8, depth := 1, methods := 7, globals := 1 }

/-- A machine with another method in place, and then the image applied. -/
def forwardMachine : Machine :=
  (forwardImage.applyTo
    ((Machine.blank forwardCapacities).after [.setMethod 6 ⟨0, 0, 0⟩])).1

def forwardLines : List Line :=
  (Source.parse forwardSource).toOption.getD []

/-- The phrase of the first line. -/
def forwardCall : Phrase :=
  ⟨"call", [⟨.symbol, "g", ⟨1, 6, 5⟩⟩], {}⟩

theorem forwardSource_reached :
    CallsByName forwardLines 0 "g" ∧
      ∃ declaration p,
        DeclaredAs forwardLines "g" declaration p ⟨3, 0, 2⟩ ∧
          (forwardMachine.after [.load forwardImage.words 0]).Resolves
            (Instruction.decode 0x00060020) ⟨3, 0, 2⟩ := by
  have accepted : assemble forwardSource = .ok forwardImage :=
    toOption_eq_some_iff.mp (by decide +kernel)
  have parsed : Source.parse forwardSource = .ok forwardLines :=
    toOption_eq_some_iff.mp (by decide +kernel)
  have calls : CallsByName forwardLines 0 "g" :=
    ⟨⟨{}, none, some (.instruction forwardCall)⟩, forwardCall, _,
      by decide +kernel, rfl, by decide, rfl, rfl⟩
  obtain ⟨lines, same, reaches⟩ := call_reaches_method accepted
    (show Machine.new forwardCapacities = .ok _ from rfl)
    (show forwardImage.applyTo _ = (forwardMachine, none) from
      Prod.ext rfl (by decide))
  obtain rfl : forwardLines = lines := by
    simpa [parsed] using same
  obtain ⟨w, declaration, p, method, word, declaredAs, resolves⟩ :=
    reaches 0 "g" calls
  obtain rfl : 0x00060020 = w := by
    simpa [forwardImage, Image.words, instructionCount] using word
  have resolved := resolves [.load forwardImage.words 0]
    (by simp [Command.LeavesMethods])
  have registered :
      (forwardMachine.after [.load forwardImage.words 0]).method?
        (Instruction.decode 0x00060020).imm.toInt64 = some ⟨3, 0, 2⟩ := by
    decide
  obtain rfl := Option.some.inj (registered.symm.trans resolved.found)
  exact ⟨calls, declaration, p, declaredAs, resolved⟩

end Assembly

end WindowMachine
