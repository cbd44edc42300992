import WindowMachine.Proofs.Source.Scanning
import WindowMachine.Source.Line

/-!
# How much a text can hold

A token takes at least one byte of a text, and a line with a directive or an
instruction at least two tokens, of which the last line may lack the second.
A text therefore holds about half as many directives and instructions as it
has bytes.
-/

namespace WindowMachine.Source

/-- How many lines hold a directive or an instruction. -/
def statementCount (lines : List Line) : Nat :=
  lines.countP fun l => l.statement.isSome

variable {tokens rest : List Token} {lines : List Line}

/-! ## Tokens that a line leaves -/

theorem moreOperands_suffix (seen : Array Operand) (tokens : List Token) :
    (moreOperands seen tokens).2 <:+ tokens := by
  fun_induction moreOperands seen tokens with
  | case1 seen comma t more separates o found inductionHypothesis =>
      exact inductionHypothesis.trans ⟨[comma, t], rfl⟩
  | case2 | case3 | case4 =>
      exact List.suffix_rfl

theorem operands_suffix (tokens : List Token) :
    (operands tokens).2 <:+ tokens := by
  cases tokens with
  | nil =>
      exact List.suffix_rfl
  | cons t rest =>
      cases read : operand? t with
      | none =>
          simp [operands, read]
      | some o =>
          simpa [operands, read] using
            (moreOperands_suffix #[o] rest).trans (List.suffix_cons t rest)

theorem label_suffix (tokens : List Token) :
    (label tokens).2 <:+ tokens := by
  cases tokens with
  | nil =>
      exact List.suffix_rfl
  | cons t rest =>
      by_cases isLabel : t.kind = .label
      · simp [label, isLabel]
      · simp [label, isLabel]

theorem statement_suffix (tokens : List Token) :
    (statement tokens).2 <:+ tokens := by
  cases tokens with
  | nil =>
      exact List.suffix_rfl
  | cons t rest =>
      have later := (operands_suffix rest).trans (List.suffix_cons t rest)
      cases kind : t.kind <;> simp [statement, kind, later]

/-! ## Tokens of a line -/

theorem length_statement (tokens : List Token) :
    (statement tokens).2.length +
      (if (statement tokens).1.isSome then 1 else 0) ≤ tokens.length := by
  cases tokens with
  | nil =>
      exact Nat.le_refl _
  | cons t rest =>
      have shorter := (operands_suffix rest).length_le
      cases kind : t.kind <;> simp [statement, kind, shorter]

/-- A line takes a token for its directive or instruction, and one for its end
unless it is the last one. -/
theorem length_line {pos : Position} {l : Line}
    (read : line pos tokens = .ok (l, rest)) :
    statementCount [l] ≤ tokens.length ∧
      (rest ≠ [] → statementCount [l] + 1 + rest.length ≤ tokens.length) := by
  have labelled := (label_suffix tokens).length_le
  have bodied := length_statement (label tokens).2
  simp only [line] at read
  split at read
  · rename_i left
    cases read
    rw [left] at bodied
    simp only [statementCount, List.countP_singleton]
    exact ⟨by omega, fun more => absurd rfl more⟩
  · rename_i t left split
    split at read
    · cases read
      rw [split] at bodied
      simp only [List.length_cons] at bodied
      simp only [statementCount, List.countP_singleton]
      exact ⟨by omega, fun _ => by omega⟩
    · cases read

/-! ## Lines of a text -/

theorem statementCount_linesFrom {fuel : Nat} {seen read : Array Line}
    (done : linesFrom fuel seen tokens = .ok read) :
    2 * statementCount read.toList ≤
      2 * statementCount seen.toList + tokens.length + 1 := by
  fun_induction linesFrom fuel seen tokens with
  | case1 | case2 =>
      cases done
      omega
  | case3 =>
      cases done
  | case4 fuel seen t rest l left taken inductionHypothesis =>
      have later := inductionHypothesis done
      obtain ⟨last, more⟩ := length_line taken
      have one : statementCount [l] ≤ 1 := List.countP_le_length
      simp only [Array.toList_push, statementCount, List.countP_append]
        at later last more one ⊢
      by_cases empty : left = []
      · subst empty
        simp only [List.length_nil] at later
        omega
      · have few := more empty
        omega

theorem size_scanFrom (fuel : Nat) (seen : Array Token) (pos : Position)
    (bytes : List UInt8) :
    (scanFrom fuel seen pos bytes).tokens.size ≤ seen.size + fuel := by
  fun_induction scanFrom fuel seen pos bytes with
  | case1 | case2 | case3 =>
      exact Nat.le_add_right _ _
  | case4 fuel seen pos rest nonempty kind length found bytes
      inductionHypothesis =>
      rw [Array.size_push] at inductionHypothesis
      omega

theorem length_terminated (bytes : List UInt8) :
    (terminated bytes).length ≤ bytes.length + 1 := by
  unfold terminated
  split
  · exact Nat.le_succ _
  · simp

/-- There is no more than one directive or instruction for two bytes. -/
theorem statementCount_parse {bytes : List UInt8}
    (parsed : parse bytes = .ok lines) :
    2 * statementCount lines ≤ bytes.length + 2 := by
  simp only [parse] at parsed
  split at parsed
  · cases parsed
  · simp only [Except.map] at parsed
    split at parsed
    · cases parsed
    · rename_i read done
      cases parsed
      have counted := statementCount_linesFrom done
      have kept := List.length_filter_le (fun t => !t.kind.isSkipped)
        (scan (terminated bytes)).tokens.toList
      have tokens := size_scanFrom (terminated bytes).length #[] {}
        (terminated bytes)
      have ended := length_terminated bytes
      simp only [scan, statementCount, List.countP_nil, Array.length_toList,
        List.size_toArray, List.length_nil] at counted kept tokens ⊢
      omega

end WindowMachine.Source
