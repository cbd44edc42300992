import Mathlib.Data.List.Forall2
import WindowMachine.Proofs.Assembly.Methods

/-!
# Data and entry directives

The first pass takes one seed from each data directive, and it remembers the
operand of the last entry directive.  A seed has the index that is written and
the bits of the value: those of a number with a point are those of the nearest
one of single precision, and those of an integer are the integer itself, cut
to 32 bits.  An integer may be signed or unsigned, so it is cut only if it is
negative.
-/

namespace WindowMachine

open Source (Line Operand Phrase Statement)

namespace Assembly

/-! ## Directives -/

/-- The directive of a line, if it has a certain name. -/
def directive? (name : String) (line : Line) : Option Phrase :=
  match line.statement with
  | some (.directive p) => if p.name = name then some p else none
  | _ => none

/-- The directives of a name in some lines. -/
def directives (name : String) (lines : List Line) : List Phrase :=
  lines.filterMap (directive? name)

/-- The operand of the last entry directive. -/
def entryOperand? (lines : List Line) : Option Operand :=
  (directives ".entry" lines).getLast?.bind fun p => p.operands.head?

/-- The bits that an operand stands for. -/
inductive GivesBits (o : Operand) (bits : Slot) : Prop
  | integer {n : Int} :
      o.intValue = .ok n →
      minInt32 ≤ n →
      n ≤ maxUInt32 →
      (bits.toNat : Int) = n % 2 ^ 32 →
      GivesBits o bits
  | float :
      o.kind = .float →
      o.floatBits = .ok bits →
      GivesBits o bits

/-- Whether a data directive puts some bits at an index. -/
structure Seeds (p : Phrase) (index : Int64) (bits : Slot) : Prop where
  operands : ∃ place value, p.operands = [place, value] ∧
    place.intValue = .ok index.toInt ∧ GivesBits value bits
  lower : 0 ≤ index.toInt
  upper : index.toInt ≤ maxInt32

section Directives

variable {lines : List Line} {line : Line} {name : String}

theorem directives_append_singleton :
    directives name (lines ++ [line]) =
      directives name lines ++ (directive? name line).toList := by
  cases found : directive? name line with
  | none =>
      simp [directives, found]
  | some p =>
      simp [directives, found]

theorem directive?_eq_none
    (none : ∀ p, line.statement ≠ some (.directive p)) :
    directive? name line = .none := by
  unfold directive?
  split
  · exact absurd ‹_› (none _)
  · rfl

theorem toNat_ofInt_u32 (n : Int) :
    ((UInt32.ofInt n).toNat : Int) = n % 2 ^ 32 := by
  simp only [UInt32.ofInt, UInt32.toNat_ofNat']
  omega

theorem data_eq_ok {p : Phrase} {index : Int64} {bits : Slot}
    (read : Layout.data p = .ok (index, bits)) : Seeds p index bits := by
  simp only [Layout.data] at read
  split at read
  · rename_i place value operands
    obtain ⟨n, counted, read⟩ := bind_eq_ok_iff.mp read
    obtain ⟨written, lower, upper⟩ := integer_eq_ok_iff.mp counted
    have exactly : (Int64.ofInt n).toInt = n := by
      simp only [maxInt32] at upper
      exact Int64.toInt_ofInt_of_le (by omega) (by omega)
    have seeds (gives : GivesBits value bits)
        (same : Int64.ofInt n = index) : Seeds p index bits := by
      subst same
      refine ⟨⟨place, value, operands, ?_, gives⟩, ?_, ?_⟩
      · rw [exactly, written]
      · rw [exactly]
        exact lower
      · rw [exactly]
        exact upper
    split at read
    · rename_i float
      split at read
      · cases read
      · rename_i read
        cases read
        exact seeds (.float float ‹_›) rfl
    · obtain ⟨v, counted, read⟩ := bind_eq_ok_iff.mp read
      obtain ⟨value, low, high⟩ := integer_eq_ok_iff.mp counted
      cases read
      exact seeds (.integer value low high (toNat_ofInt_u32 v)) rfl
  · cases read

end Directives

/-! ## The first pass -/

namespace Layout

variable {l next : Layout} {lines : List Line}

/-- What the first pass knows of data and of the entry after some lines. -/
structure Collects (l : Layout) (lines : List Line) : Prop where
  globals : List.Forall₂
    (fun p (g : GlobalSeed) => Seeds p g.index (Slot.ofInt g.value))
    (directives ".global" lines) l.globals.toList
  stack : List.Forall₂ (fun p (s : StackSeed) => Seeds p s.index s.bits)
    (directives ".stack" lines) l.stack.toList
  entry : l.entry = entryOperand? lines

theorem collects_nil : ({} : Layout).Collects [] where
  globals := .nil
  stack := .nil
  entry := rfl

theorem ofInt_asInt (bits : Slot) : Slot.ofInt (Slot.asInt bits) = bits :=
  UInt32.toUInt32_toInt32 bits

/-- A line whose directive is none of these. -/
theorem Collects.keep {line : Line} (collects : l.Collects lines)
    (other : ∀ name, name ≠ ".method" → directive? name line = none)
    (globals : next.globals = l.globals) (stack : next.stack = l.stack)
    (entry : next.entry = l.entry) :
    next.Collects (lines ++ [line]) where
  globals := by
    rw [directives_append_singleton, other _ (by simp), globals]
    simpa using collects.globals
  stack := by
    rw [directives_append_singleton, other _ (by simp), stack]
    simpa using collects.stack
  entry := by
    rw [entry, collects.entry, entryOperand?, entryOperand?,
      directives_append_singleton, other _ (by simp)]
    simp

theorem collects_directive {line : Line} {p : Phrase}
    (collects : l.Collects lines)
    (statement : line.statement = some (.directive p))
    (laid : l.directive p = .ok next) :
    next.Collects (lines ++ [line]) := by
  have found (name : String) : directive? name line =
      if p.name = name then some p else none := by
    simp [directive?, statement]
  cases directive_case laid with
  | entry name operands =>
      refine ⟨?_, ?_, ?_⟩
      · simpa [directives_append_singleton, found, name]
          using collects.globals
      · simpa [directives_append_singleton, found, name]
          using collects.stack
      · simp [entryOperand?, directives_append_singleton, found, name,
          operands]
  | method name laid =>
      obtain ⟨m, rfl⟩ := methodDirective_pushes laid
      refine collects.keep ?_ rfl rfl rfl
      intro other different
      rw [found, name, if_neg (Ne.symm different)]
  | @global index bits name read =>
      have seeds := data_eq_ok read
      rw [← ofInt_asInt bits] at seeds
      refine ⟨?_, ?_, ?_⟩
      · simpa [directives_append_singleton, found, name]
          using List.rel_append collects.globals (.cons seeds .nil)
      · simpa [directives_append_singleton, found, name]
          using collects.stack
      · simpa [entryOperand?, directives_append_singleton, found, name]
          using collects.entry
  | stack name read =>
      have seeds := data_eq_ok read
      refine ⟨?_, ?_, ?_⟩
      · simpa [directives_append_singleton, found, name]
          using collects.globals
      · simpa [directives_append_singleton, found, name]
          using List.rel_append collects.stack (.cons seeds .nil)
      · simpa [entryOperand?, directives_append_singleton, found, name]
          using collects.entry

theorem collects_line {line : Line} (collects : l.Collects lines)
    (laid : l.line line = .ok next) :
    next.Collects (lines ++ [line]) := by
  cases line_case laid with
  | plain none _ globals stack entry =>
      exact collects.keep (fun _ _ => directive?_eq_none none) globals stack
        entry
  | directive statement laid =>
      have labelled : Layout.Collects
          { l with labels := declared line l.address ++ l.labels } lines :=
        ⟨collects.globals, collects.stack, collects.entry⟩
      exact collects_directive labelled statement laid

theorem ofLines_collects (laid : Layout.ofLines lines = .ok l) :
    l.Collects lines :=
  ofLines_induction collects_nil collects_line laid

end Layout

end Assembly

end WindowMachine
