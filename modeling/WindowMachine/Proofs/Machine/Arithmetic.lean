import WindowMachine.Proofs.Instruction.Fields
import WindowMachine.Proofs.Machine.Effects

/-!
# Integer arithmetic

Registers hold 32-bit integers, and sums, differences and products wrap
around.  Quotients are truncated towards zero, and only a zero divisor makes a
division fail.  An operation on integers works out all that it needs before it
writes anything, so its three registers may be one and the same, and its
immediate form does what the form with registers does.
-/

namespace WindowMachine

namespace Operation

/-- What an operation on two integers makes of them. -/
def integers? : Operation → Option (Int32 → Int32 → Except Failure Int32)
  | .add => some fun x y => .ok (x + y)
  | .sub => some fun x y => .ok (x - y)
  | .mul => some fun x y => .ok (x * y)
  | .div => some intDiv
  | .mod => some intMod
  | .exp => some fun x y => .ok (intPower x y)
  | _ => none

/-- The form of an operation that has a number in the place of its second
operand. -/
def immediate? : Operation → Option Operation
  | .add => some .addImm
  | .sub => some .subImm
  | .mul => some .mulImm
  | .div => some .divImm
  | .mod => some .modImm
  | .exp => some .expImm
  | _ => none

variable {op immediate : Operation}

theorem exists_integers (form : op.immediate? = some immediate) :
    ∃ f, op.integers? = some f := by
  cases op with
  | add | sub | mul | div | mod | exp =>
      exact ⟨_, rfl⟩
  | _ =>
      cases form

theorem format_of_integers {f : Int32 → Int32 → Except Failure Int32}
    (integers : op.integers? = some f) : op.format = .regs := by
  cases op with
  | add | sub | mul | div | mod | exp =>
      rfl
  | _ =>
      cases integers

theorem format_of_immediate (form : op.immediate? = some immediate) :
    immediate.format = .regU16 := by
  cases op with
  | add | sub | mul | div | mod | exp =>
      cases form
      rfl
  | _ =>
      cases form

end Operation

namespace Machine

variable {m : Machine} {i : Instruction} {op immediate : Operation}
  {f : Int32 → Int32 → Except Failure Int32}

/-! ## Effects -/

theorem operationEffect_integers (integers : op.integers? = some f) :
    m.operationEffect i op = m.fromTwo i (onIntsChecked f) := by
  cases op with
  | add | sub | mul | div | mod | exp =>
      cases integers
      rfl
  | _ =>
      cases integers

theorem operationEffect_immediate (form : op.immediate? = some immediate)
    (integers : op.integers? = some f) :
    m.operationEffect i immediate =
      m.update i (onIntsChecked f · (Slot.ofInt i.imm)) := by
  cases op with
  | add | sub | mul | div | mod | exp =>
      cases form
      cases integers
      rfl
  | _ =>
      cases form

@[simp]
theorem fetched_fromTwo (j : Instruction)
    (f : Slot → Slot → Except Failure Slot) :
    (m.fetched i).fromTwo j f = m.fromTwo j f := by
  simp only [fromTwo, fetched_locate, fetched_readBits]

@[simp]
theorem fetched_update (j : Instruction) (f : Slot → Except Failure Slot) :
    (m.fetched i).update j f = m.update j f := by
  simp only [update, fetched_locate, bitsAt, fetched_stack]

theorem asInt_ofInt (value : Int32) :
    Slot.asInt (Slot.ofInt value) = value :=
  Int32.toInt32_toUInt32 value

/-- The effect of writing a result to a slot. -/
def storing (slot : Nat) (result : Except Failure Int32) :
    Except Failure Effect :=
  result.map fun value => .store slot (Slot.ofInt value)

theorem fromTwo_eq_storing {x y : Int32} {slot : Nat}
    (target : m.locate i.a = .ok slot)
    (left : m.register i.b = .ok x) (right : m.register i.c = .ok y) :
    m.fromTwo i (onIntsChecked f) = storing slot (f x y) := by
  obtain ⟨leftBits, readLeft, rfl⟩ := register_eq_ok_iff.mp left
  obtain ⟨rightBits, readRight, rfl⟩ := register_eq_ok_iff.mp right
  simp only [fromTwo, target, readLeft, readRight, onIntsChecked, storing]
  cases result : f (Slot.asInt leftBits) (Slot.asInt rightBits) with
  | ok value | error cause =>
      simp [result, bind, Except.bind, pure, Except.pure, Except.map]

theorem update_eq_storing {y : Int32} {slot : Nat}
    (target : m.locate i.a = .ok slot) :
    m.update i (onIntsChecked f · (Slot.ofInt y)) =
      storing slot (f (Slot.asInt (m.bitsAt slot)) y) := by
  simp only [update, target, onIntsChecked, storing, asInt_ofInt]
  cases result : f (Slot.asInt (m.bitsAt slot)) y with
  | ok value | error cause =>
      simp [result, bind, Except.bind, pure, Except.pure, Except.map]

/-! ## Steps -/

/-- Whether a step writes a number to the first register of its instruction,
changes nothing else but what a fetch changes, and goes on. -/
structure Stores (m : Machine) (i : Instruction) (value : Int32) :
    Prop where
  goesOn : m.step.2 = .running
  written : m.step.1.register i.a = .ok value
  nothingElse : ∃ slot, m.locate i.a = .ok slot ∧
    m.step.1 = (m.fetched i).apply (.store slot (Slot.ofInt value))

/-- Whether a step has a result: it stores the number, or fails for the cause
and has written nothing. -/
def ResultsIn (m : Machine) (i : Instruction) :
    Except Failure Int32 → Prop
  | .ok value => m.Stores i value
  | .error cause =>
      m.step = (m.fetched i, .failed (.fault m.frame.pc i.opcode cause))

theorem step_of_effect_error {cause : Failure}
    (fetches : m.next? = some i)
    (worked : (m.fetched i).effect i = .error cause) :
    m.step =
      (m.fetched i, .failed (.fault m.frame.pc i.opcode cause)) := by
  rw [step_eq_execute fetches, execute_eq, worked]

theorem step_of_effect_store {slot : Nat} {bits : Slot}
    (fetches : m.next? = some i)
    (worked : (m.fetched i).effect i = .ok (.store slot bits)) :
    m.step = ((m.fetched i).apply (.store slot bits), .running) := by
  have running := halted_of_next? fetches
  rw [step_eq_execute fetches, execute_eq, worked]
  simp [perform, breakdown?, apply, running]

theorem register_apply_store {r : UInt8} {slot : Nat} {value : Int32}
    (target : m.locate r = .ok slot) :
    (m.apply (.store slot (Slot.ofInt value))).register r = .ok value := by
  have place := locate_eq_ok_iff.mp target
  have inside := place.2.1
  have located :
      (m.apply (.store slot (Slot.ofInt value))).locate r = .ok slot :=
    locate_eq_ok_iff.mpr (by simpa [apply] using place)
  have held :
      (m.apply (.store slot (Slot.ofInt value))).bitsAt slot =
        Slot.ofInt value := by
    simp [bitsAt, apply, inside]
  rw [register, located]
  simp [bind, Except.bind, pure, Except.pure, held, asInt_ofInt]

theorem resultsIn_of_storing {slot : Nat} {result : Except Failure Int32}
    (fetches : m.next? = some i) (target : m.locate i.a = .ok slot)
    (worked : (m.fetched i).effect i = storing slot result) :
    m.ResultsIn i result := by
  cases result with
  | error cause =>
      exact step_of_effect_error fetches worked
  | ok value =>
      have stepped := step_of_effect_store fetches worked
      refine ⟨?_, ?_, slot, target, ?_⟩
      · rw [stepped]
      · rw [stepped]
        exact register_apply_store (by simpa using target)
      · rw [stepped]

end Machine

/-! ## Results -/

namespace Operation

/-- Whether an operation makes a certain result of two integers, on every
machine that is about to execute it, whichever of its registers are the
same. -/
def Yields (op : Operation) (x y : Int32)
    (result : Except Failure Int32) : Prop :=
  ∀ (m : Machine) (a b c : UInt8) (slot : Nat),
    m.next? = some (Instruction.decode (Word.ofRegs op.byte a b c)) →
    m.locate a = .ok slot →
    m.register b = .ok x →
    m.register c = .ok y →
    m.ResultsIn (Instruction.decode (Word.ofRegs op.byte a b c)) result

variable {op : Operation} {f : Int32 → Int32 → Except Failure Int32}

theorem decode_ofRegs_of_integers (integers : op.integers? = some f)
    (a b c : UInt8) :
    Instruction.decode (Word.ofRegs op.byte a b c) =
      ⟨op.byte, .regs, a, b, c, 0⟩ :=
  Instruction.decode_ofRegs
    (by rw [Opcode.format_byte, format_of_integers integers]) a b c

theorem yields_of_integers {x y : Int32} {result : Except Failure Int32}
    (integers : op.integers? = some f) (value : f x y = result) :
    op.Yields x y result := by
  intro m a b c slot fetches target left right
  subst value
  have decoded := decode_ofRegs_of_integers integers a b c
  rw [decoded] at fetches ⊢
  apply Machine.resultsIn_of_storing fetches target
  simp only [Machine.effect, ofByte?_byte,
    Machine.operationEffect_integers integers, Machine.fetched_fromTwo]
  exact Machine.fromTwo_eq_storing target left right

end Operation

/-! ## Quotients and remainders -/

/-- A quotient and a remainder of two integers: the quotient is truncated
towards zero, and the only one that does not fit wraps around. -/
structure Divides (x y quotient remainder : Int32) : Prop where
  truncated : ¬ (x = Int32.minValue ∧ y = -1) →
    quotient.toInt = x.toInt.tdiv y.toInt
  wrapped : x = Int32.minValue → y = -1 → quotient = Int32.minValue
  signed : remainder ≠ 0 → remainder.toInt.sign = x.toInt.sign
  smaller : remainder.toInt.natAbs < y.toInt.natAbs
  restored : quotient * y + remainder = x

namespace Divides

variable {x y : Int32}

theorem toInt_ne_zero (nonzero : y ≠ 0) : y.toInt ≠ 0 :=
  fun zero => nonzero (Int32.toInt_inj.mp zero)

theorem sign_mod (nonzero : x % y ≠ 0) :
    (x % y).toInt.sign = x.toInt.sign := by
  have remains := toInt_ne_zero nonzero
  rw [Int32.toInt_mod] at remains ⊢
  rw [Int.sign_tmod, if_neg]
  exact fun divides => remains (Int.tmod_eq_zero_of_dvd divides)

theorem mul_add_mod (x y : Int32) : x / y * y + x % y = x := by
  apply Int32.toInt_inj.mp
  calc (x / y * y + x % y).toInt
      = (x.toInt.tdiv y.toInt * y.toInt +
          x.toInt.tmod y.toInt).bmod (2 ^ 32) := by
        rw [Int32.toInt_add, Int32.toInt_mul, Int32.toInt_div,
          Int32.toInt_mod, Int.bmod_mul_bmod, Int.bmod_add_bmod]
    _ = x.toInt.bmod (2 ^ 32) := by
        rw [Int.tdiv_mul_add_tmod]
    _ = x.toInt :=
        Int32.toInt_bmod x

theorem of_ne_zero (nonzero : y ≠ 0) : Divides x y (x / y) (x % y) where
  truncated := by
    intro fits
    by_cases least : x = Int32.minValue
    · exact Int32.toInt_div_of_ne_right x y fun one => fits ⟨least, one⟩
    · exact Int32.toInt_div_of_ne_left x y least
  wrapped := by
    rintro rfl rfl
    exact Int32.minValue_div_neg_one
  signed := sign_mod
  smaller := by
    rw [Int32.toInt_mod, Int.natAbs_tmod]
    exact Nat.mod_lt _ (Int.natAbs_pos.mpr (toInt_ne_zero nonzero))
  restored := mul_add_mod x y

end Divides

/-! ## Numbers in place of registers -/

/-- Outcomes that are the same, except that failures may name different
opcodes. -/
inductive StepOutcome.Alike : StepOutcome → StepOutcome → Prop
  | same (outcome : StepOutcome) :
      Alike outcome outcome
  | failed (pc : Int64) (opcode other : UInt8) (cause : Failure) :
      Alike (.failed (.fault pc opcode cause))
        (.failed (.fault pc other cause))

/-- A machine with other code. -/
def Machine.recoded (m : Machine) (code : Array Word) : Machine :=
  { m with code := code }

/-- Whether the immediate form of an operation does to a register what the
operation does to it with another register that holds the number: the same
slots are written, or both fail for the same cause. -/
def Operation.Mirrors (op immediate : Operation) : Prop :=
  ∀ (m : Machine) (code : Array Word) (a t : UInt8) (number : UInt16)
    (value : Int32),
    m.next? =
      some (Instruction.decode
        (Word.ofRegU16 immediate.byte a number)) →
    (m.recoded code).next? =
      some (Instruction.decode (Word.ofRegs op.byte a a t)) →
    m.register t = .ok value →
    value.toInt = number.toNat →
    m.step.2.Alike (m.recoded code).step.2 ∧
      (m.recoded code).step.1 =
        { m.step.1 with
          code := code
          trace := (m.recoded code).step.1.trace }

namespace Machine

variable {m : Machine} {i j : Instruction} {code : Array Word}

@[simp]
theorem recoded_fromTwo (j : Instruction)
    (f : Slot → Slot → Except Failure Slot) :
    (m.recoded code).fromTwo j f = m.fromTwo j f :=
  rfl

/-- Whether the second operand comes out of a register or out of the
instruction makes no difference to the effect. -/
theorem fromTwo_eq_update {f : Int32 → Int32 → Except Failure Int32}
    {y : Int32} (first : j.a = i.a) (second : j.b = i.a)
    (right : m.register j.c = .ok y) :
    m.fromTwo j (onIntsChecked f) =
      m.update i (onIntsChecked f · (Slot.ofInt y)) := by
  cases target : m.locate i.a with
  | error cause =>
      simp [fromTwo, update, first, target, bind, Except.bind]
  | ok slot =>
      have left : m.register i.a = .ok (Slot.asInt (m.bitsAt slot)) := by
        simp [register, target, bind, Except.bind, pure, Except.pure]
      rw [update_eq_storing target]
      apply fromTwo_eq_storing
      · rw [first]
        exact target
      · rw [second]
        exact left
      · exact right

/-- Two instructions with the same effect, which writes a slot if it does
anything, take machines that differ in their code to the same places. -/
theorem steps_alike (fetches : m.next? = some i)
    (alsoFetches : (m.recoded code).next? = some j)
    (same : ((m.recoded code).fetched j).effect j =
      (m.fetched i).effect i)
    (stores : ∀ e, (m.fetched i).effect i = .ok e →
      ∃ slot bits, e = .store slot bits) :
    m.step.2.Alike (m.recoded code).step.2 ∧
      (m.recoded code).step.1 =
        { m.step.1 with
          code := code
          trace := (m.recoded code).step.1.trace } := by
  have rest : (m.recoded code).fetched j =
      { m.fetched i with
        code := code
        trace := ((m.recoded code).fetched j).trace } := by
    rw [fetched_eq, fetched_eq m i]
    rfl
  cases worked : (m.fetched i).effect i with
  | error cause =>
      rw [step_of_effect_error fetches worked,
        step_of_effect_error alsoFetches (same.trans worked)]
      exact ⟨.failed _ _ _ _, rest⟩
  | ok e =>
      obtain ⟨slot, bits, rfl⟩ := stores e worked
      rw [step_of_effect_store fetches worked,
        step_of_effect_store alsoFetches (same.trans worked)]
      refine ⟨.same _, ?_⟩
      rw [rest]
      rfl

end Machine

namespace Operation

variable {op immediate : Operation}

theorem toInt32_toUInt32_of_toInt {number : UInt16} {value : Int32}
    (held : value.toInt = number.toNat) :
    number.toUInt32.toInt32 = value := by
  have bound := number.toNat_lt
  have small : number.toUInt32.toNat < 2 ^ 31 := by
    rw [UInt16.toNat_toUInt32]
    omega
  apply Int32.toInt_inj.mp
  rw [toInt_toInt32_of_small small, held, UInt16.toNat_toUInt32]

theorem mirrors_of_immediate (form : op.immediate? = some immediate) :
    op.Mirrors immediate := by
  intro m code a t number value fetches alsoFetches held same
  obtain ⟨f, integers⟩ := exists_integers form
  have format : Opcode.format immediate.byte = .regU16 := by
    rw [Opcode.format_byte, format_of_immediate form]
  rw [Instruction.decode_ofRegU16 format,
    toInt32_toUInt32_of_toInt same] at fetches
  rw [decode_ofRegs_of_integers integers] at alsoFetches
  apply Machine.steps_alike fetches alsoFetches
  · simp only [Machine.effect, ofByte?_byte,
      Machine.operationEffect_integers integers,
      Machine.operationEffect_immediate form integers,
      Machine.fetched_fromTwo, Machine.fetched_update,
      Machine.recoded_fromTwo]
    exact Machine.fromTwo_eq_update rfl rfl held
  · intro e worked
    simp only [Machine.effect, ofByte?_byte,
      Machine.operationEffect_immediate form integers] at worked
    obtain ⟨slot, bits, -, rfl⟩ := Machine.update_stores worked
    exact ⟨slot, bits, rfl⟩

/-! ## Exactness -/

/-- What is exact about the operations on two integers. -/
structure Exact (x y : Int32) : Prop where
  sum : ∃ value, add.Yields x y (.ok value) ∧
    value.toInt = (x.toInt + y.toInt).bmod (2 ^ 32)
  difference : ∃ value, sub.Yields x y (.ok value) ∧
    value.toInt = (x.toInt - y.toInt).bmod (2 ^ 32)
  product : ∃ value, mul.Yields x y (.ok value) ∧
    value.toInt = (x.toInt * y.toInt).bmod (2 ^ 32)
  byZero : y = 0 →
    div.Yields x y (.error (.plain .divisionByZero)) ∧
      mod.Yields x y (.error (.plain .divisionByZero))
  division : y ≠ 0 → ∃ quotient remainder,
    div.Yields x y (.ok quotient) ∧ mod.Yields x y (.ok remainder) ∧
      Divides x y quotient remainder

theorem exact (x y : Int32) : Exact x y where
  sum := ⟨x + y, yields_of_integers rfl rfl, Int32.toInt_add x y⟩
  difference := ⟨x - y, yields_of_integers rfl rfl, Int32.toInt_sub x y⟩
  product := ⟨x * y, yields_of_integers rfl rfl, Int32.toInt_mul x y⟩
  byZero := fun zero =>
    ⟨yields_of_integers rfl (if_pos zero),
      yields_of_integers rfl (if_pos zero)⟩
  division := fun nonzero =>
    ⟨x / y, x % y, yields_of_integers rfl (if_neg nonzero),
      yields_of_integers rfl (if_neg nonzero), .of_ne_zero nonzero⟩

/-- Sums, differences and products are exact but for wrapping around,
quotients and remainders are those of a division that truncates, which fails
for a zero divisor only, and every immediate form does what the form with
registers does. -/
theorem integer_arithmetic_exact :
    (∀ x y, Exact x y) ∧
      ∀ op immediate : Operation, op.immediate? = some immediate →
        op.Mirrors immediate :=
  ⟨exact, fun _ _ => mirrors_of_immediate⟩

end Operation

namespace Machine

/-- A machine whose first registers hold the least integer, minus one, zero
and seven. -/
def calculator (code : Array Word) : Machine :=
  { blank
      { stack := 4, depth := 1, methods := 1, globals := 1, entryTop := 3 }
    with
    stack := #[0x80000000, 0xFFFFFFFF, 0, 7]
    code := code }

/-- Dividing the least integer by minus one in place leaves it as it is, and
seven is divided neither by the number zero nor by a register that holds
it. -/
theorem calculator_divides :
    (calculator #[0x01000003]).step.1.register 0 = .ok Int32.minValue ∧
      (calculator #[0x02030303]).step.2 =
        .failed (.fault 0 0x03 (.plain .divisionByZero)) ∧
      (calculator #[0x0000030A]).step.2.Alike
        (calculator #[0x02030303]).step.2 := by
  obtain ⟨exact, mirrors⟩ := Operation.integer_arithmetic_exact
  refine ⟨?_, ?_, ?_⟩
  · obtain ⟨quotient, remainder, yields, -, divides⟩ :=
      (exact Int32.minValue (-1)).division (by decide)
    rw [← divides.wrapped rfl rfl]
    exact (yields (calculator #[0x01000003]) 0 0 1 0 (by decide) rfl
      rfl rfl).written
  · have failed := ((exact 7 0).byZero rfl).1
      (calculator #[0x02030303]) 3 3 2 3 (by decide) rfl rfl rfl
    exact congrArg Prod.snd failed
  · exact (mirrors .div .divImm rfl (calculator #[0x0000030A])
      #[0x02030303] 3 2 0 0 (by decide) (by decide) rfl rfl).1

end Machine

end WindowMachine
