/-!
# Pieces that a stop ends

A text is cut into lines at its newlines, whether it is a list of bytes or of
characters.  Joined again, each with a newline behind it, the lines give the
text back; and lines without a newline are the lines of the text that they are
joined to.
-/

namespace WindowMachine.Text

variable {α : Type} [DecidableEq α] {stop : α}

/-- The pieces that a stop ends.  What follows the last one is a piece if
there is anything. -/
def pieces (stop : α) : List α → List (List α)
  | [] => []
  | x :: rest =>
    if x = stop then [] :: pieces stop rest
    else
      match pieces stop rest with
      | [] => [[x]]
      | first :: more => (x :: first) :: more

theorem stop_not_mem_pieces (stop : α) (xs : List α) :
    ∀ piece ∈ pieces stop xs, stop ∉ piece := by
  fun_induction pieces stop xs with
  | case1 =>
      simp
  | case2 rest inductionHypothesis =>
      simpa using inductionHypothesis
  | case3 x rest other nothing inductionHypothesis =>
      simpa using Ne.symm other
  | case4 x rest other first more found inductionHypothesis =>
      rw [found] at inductionHypothesis
      simpa [Ne.symm other] using inductionHypothesis

/-- What ends with a stop consists of its pieces, each with a stop behind
it. -/
theorem flatMap_pieces {xs : List α} (ends : ∀ x ∈ xs.getLast?, x = stop) :
    (pieces stop xs).flatMap (· ++ [stop]) = xs := by
  have behind {x : α} {rest : List α}
      (ends : ∀ y ∈ (x :: rest).getLast?, y = stop) :
      ∀ y ∈ rest.getLast?, y = stop := by
    intro y last
    exact ends y (by simp [List.getLast?_cons, Option.mem_def.mp last])
  fun_induction pieces stop xs with
  | case1 =>
      rfl
  | case2 rest inductionHypothesis =>
      simp [inductionHypothesis (behind ends)]
  | case3 x rest other nothing inductionHypothesis =>
      have empty := inductionHypothesis (behind ends)
      rw [nothing] at empty
      subst empty
      exact absurd (ends x rfl) other
  | case4 x rest other first more found inductionHypothesis =>
      have same := inductionHypothesis (behind ends)
      rw [found] at same
      simpa using same

theorem count_flatMap_stop {parts : List (List α)}
    (free : ∀ piece ∈ parts, stop ∉ piece) :
    (parts.flatMap (· ++ [stop])).count stop = parts.length := by
  induction parts with
  | nil =>
      rfl
  | cons piece parts inductionHypothesis =>
      obtain ⟨own, others⟩ := List.forall_mem_cons.mp free
      simp [List.count_eq_zero.mpr own, inductionHypothesis others]

end WindowMachine.Text
