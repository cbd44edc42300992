import WindowMachine.Proofs.Source.Places

/-!
# Texts behind other texts

No token goes on behind a newline, and no line either.  A text with a newline
at its end is therefore read in the same way, places included, whatever is
written behind it, and what is written there is read on its own but for its
places.
-/

namespace WindowMachine.Source

/-! ## Tokens -/

section Tokens

variable {front back : List UInt8}

theorem firstKind?_append_ended {b : UInt8} {bytes : List UInt8}
    (ended : ∀ x ∈ (b :: bytes).getLast?, x = 0x0A) (rest : List UInt8) :
    firstKind? (b :: bytes ++ rest) = firstKind? (b :: bytes) := by
  by_cases newline : b = 0x0A
  · rw [newline, List.cons_append, firstKind?_eol, firstKind?_eol]
  · obtain ⟨init, last, split⟩ : ∃ init last, b :: bytes = init ++ [last] :=
      ⟨_, _, (List.dropLast_concat_getLast (by simp)).symm⟩
    obtain rfl : last = 0x0A := ended last (by simp [split])
    cases init with
    | nil =>
        exact absurd (List.cons.inj split).1 newline
    | cons c init =>
        obtain ⟨rfl, rfl⟩ := List.cons.inj split
        change firstKind? (b :: (init ++ [0x0A]) ++ rest) =
          firstKind? (b :: init ++ 0x0A :: [])
        rw [List.cons_append, List.append_assoc]
        exact (firstKind?_append_newline newline).trans
          (firstKind?_append_newline newline).symm

/-- The tokens of a text that a newline ends come first, and then those of
what stands behind it. -/
theorem scanFrom_append {fuel : Nat} {seen : Array Token} {pos : Position}
    (whole : (scanFrom fuel seen pos front).stuck = none)
    (ended : ∀ x ∈ front.getLast?, x = 0x0A) :
    ∀ enough, (front ++ back).length ≤ enough →
      ∃ left next, back.length ≤ left ∧
        scanFrom enough seen pos (front ++ back) =
          scanFrom left (scanFrom fuel seen pos front).tokens next back := by
  fun_induction scanFrom fuel seen pos front with
  | case1 fuel seen pos =>
      exact fun enough holds => ⟨enough, pos, holds, rfl⟩
  | case2 | case3 =>
      cases whole
  | case4 fuel seen pos rest nonempty kind length found bytes
      inductionHypothesis =>
      intro enough holds
      obtain ⟨measured, positive⟩ := length_of_firstKind? found
      have within : length ≤ rest.length := measured ▸ kind.length_le rest
      cases rest with
      | nil =>
          exact absurd rfl nonempty
      | cons b rest =>
          have foundBefore := firstKind?_append_ended ended back
          rw [found] at foundBefore
          rw [List.length_append, List.length_cons] at holds
          rw [List.length_cons] at within
          obtain ⟨enough, rfl⟩ : ∃ less, enough = less + 1 :=
            ⟨enough - 1, by omega⟩
          obtain ⟨left, next, enoughLeft, same⟩ := inductionHypothesis whole
            (by
              rw [List.getLast?_drop]
              split
              · simp
              · exact ended)
            enough (by
              rw [List.length_append, List.length_drop, List.length_cons]
              omega)
          refine ⟨left, next, enoughLeft, ?_⟩
          rw [scanFrom_succ foundBefore, List.take_append_of_le_length within,
            List.drop_append_of_le_length within]
          exact same

end Tokens

/-! ## Lines -/

section Lines

variable {tokens left : List Token} {seen read : Array Line} {fuel : Nat}

theorem line_suffix {pos : Position} {l : Line}
    (taken : line pos tokens = .ok (l, left)) : left <:+ tokens := by
  have suffix : (statement (label tokens).2).2 <:+ tokens :=
    (statement_suffix _).trans (label_suffix tokens)
  simp only [line] at taken
  split at taken
  · cases taken
    exact List.nil_suffix
  · rename_i t rest split
    split at taken
    · cases taken
      rw [split] at suffix
      exact (List.suffix_cons t left).trans suffix
    · cases taken

/-- Lines are added to those that have been read, and each of them is read
from some of the tokens. -/
theorem linesFrom_extends (done : linesFrom fuel seen tokens = .ok read) :
    ∃ lines, read.toList = seen.toList ++ lines ∧
      ∀ l ∈ lines, ∃ own pos left,
        own <:+ tokens ∧ line pos own = .ok (l, left) := by
  fun_induction linesFrom fuel seen tokens with
  | case1 | case2 =>
      cases done
      exact ⟨[], by simp, by simp⟩
  | case3 =>
      cases done
  | case4 fuel seen t rest l left taken inductionHypothesis =>
      obtain ⟨lines, same, each⟩ := inductionHypothesis done
      refine ⟨l :: lines, by simp [same], List.forall_mem_cons.mpr
        ⟨⟨t :: rest, t.pos, left, List.suffix_rfl, taken⟩, ?_⟩⟩
      intro other member
      obtain ⟨own, pos, more, suffix, took⟩ := each other member
      exact ⟨own, pos, more, suffix.trans (line_suffix taken), took⟩

/-- The lines of a text that a newline ends come first, and then those of
what stands behind it. -/
theorem linesFrom_append {pieces : List (List UInt8)}
    (free : ∀ piece ∈ pieces, 0x0A ∉ piece)
    (text : spelled (tokens.map Token.lexeme) =
      pieces.flatMap (· ++ [0x0A]))
    (legible : Legible (tokens.map Token.lexeme) [])
    (enough : (shown tokens).length ≤ fuel)
    (done : linesFrom fuel seen (shown tokens) = .ok read)
    (back : List Token) {more : Nat}
    (holds : (shown tokens).length + back.length ≤ more) :
    ∃ left, back.length ≤ left ∧
      linesFrom more seen (shown tokens ++ back) =
        linesFrom left read back := by
  induction pieces generalizing tokens fuel seen more with
  | nil =>
      cases tokens with
      | nil =>
          have same : seen = read := by
            cases fuel <;> simpa [shown, linesFrom] using done
          exact ⟨more, by simpa [shown] using holds, by simp [shown, same]⟩
      | cons t tokens =>
          have positive := (length_of_firstKind? legible.1).2
          simp only [List.map_cons, spelled_cons, List.flatMap_nil,
            List.append_eq_nil_iff] at text
          rw [text.1] at positive
          cases positive
  | cons piece pieces inductionHypothesis =>
      obtain ⟨own, others⟩ := List.forall_mem_cons.mp free
      have split : spelled (tokens.map Token.lexeme) =
          piece ++ 0x0A :: pieces.flatMap (· ++ [0x0A]) := by
        simpa using text
      obtain ⟨front, eol, rest, first⟩ := exists_firstLine own split legible
      have ends : eol.kind = .eol := congrArg Lexeme.kind first.ends
      have inner := eol_not_mem_shown first.inner
      rw [first.shown] at enough done holds ⊢
      rw [List.length_append, List.length_cons] at enough holds
      obtain ⟨fuel, rfl⟩ : ∃ less, fuel = less + 1 := ⟨fuel - 1, by omega⟩
      obtain ⟨more, rfl⟩ : ∃ less, more = less + 1 := ⟨more - 1, by omega⟩
      obtain ⟨t, -, continued⟩ := linesFrom_succ (shown front) eol
      rw [continued] at done
      split at done
      · cases done
      · rename_i l behind taken
        obtain ⟨complete, same, rfl⟩ :=
          (line_eq_ok_iff inner ends).mp taken
        -- The line is the same whatever comes behind its end.
        have again : line t.pos (shown front ++ eol :: (shown rest ++ back)) =
            .ok (l, shown rest ++ back) :=
          (line_eq_ok_iff inner ends).mpr ⟨complete, same, rfl⟩
        rw [List.append_assoc, List.cons_append, continued, again]
        exact inductionHypothesis others first.rest first.behind (by omega)
          done (by omega)

end Lines

/-! ## Texts -/

section Texts

variable {source more : List UInt8} {lines all : List Line}

/-- What stands behind a text of known lines is scanned from some place on,
and its lines are added to them. -/
theorem parse_append (parsed : parse source = .ok lines)
    (ended : more.getLast? = some 0x0A) :
    ∃ fuel seen next, more.length ≤ fuel ∧
      scan (terminated (terminated source ++ more)) =
          scanFrom fuel seen next more ∧
        ∀ tokens,
          scanFrom fuel seen next more = ⟨seen ++ tokens.toArray, none⟩ →
          ∃ left, (shown tokens).length ≤ left ∧
            parse (terminated source ++ more) =
              (linesFrom left lines.toArray (shown tokens)).map
                Array.toList := by
  obtain ⟨tokens, scanned, text, legible, -, done⟩ := parse_eq_ok parsed
  have whole : terminated (terminated source ++ more) =
      terminated source ++ more := by
    rw [terminated, if_pos (by simp [ended])]
  have untilEnd : (scan (terminated source)).stuck = none := by
    rw [scanned]
  obtain ⟨fuel, next, enough, same⟩ := scanFrom_append untilEnd
    (by simp [getLast?_terminated]) _ (Nat.le_refl _)
  rw [← scan, ← scan, scanned] at same
  refine ⟨fuel, tokens.toArray, next, enough, by rw [whole, same], ?_⟩
  intro others scannedOthers
  rw [scannedOthers] at same
  obtain ⟨left, holds, continued⟩ := linesFrom_append
    (newline_not_mem_physicalLines source)
    (by rw [text, flatMap_physicalLines]) legible (Nat.le_refl _) done
    (shown others) (Nat.le_refl _)
  refine ⟨left, holds, ?_⟩
  have together : (tokens.toArray ++ others.toArray).toList.filter
      (fun t => !t.kind.isSkipped) = shown tokens ++ shown others := by
    simp [shown]
  simp only [parse, whole, same, together, List.length_append, continued]

theorem getLast?_spelled_line (l : Line) :
    (spelled l.lexemes).getLast? = some 0x0A := by
  obtain ⟨init, split⟩ : ∃ init, l.lexemes = init ++ [.eol] := by
    cases label : l.label with
    | none =>
        cases statement : l.statement with
        | none =>
            exact ⟨[], by simp [Line.lexemes, label, statement]⟩
        | some body =>
            exact ⟨body.lexemes, by simp [Line.lexemes, label, statement]⟩
    | some name =>
        cases statement : l.statement with
        | none =>
            exact ⟨[labelLexeme name],
              by simp [Line.lexemes, label, statement]⟩
        | some body =>
            exact ⟨labelLexeme name :: .space :: body.lexemes,
              by simp [Line.lexemes, label, statement]⟩
  simp [split, Lexeme.eol]

/-- A line that is printed behind a text is read behind its lines. -/
theorem parse_append_line {l : Line} (parsed : parse source = .ok lines)
    (printable : l.Printable) :
    ∃ own, parse (terminated source ++ spelled l.lexemes) =
        .ok (lines ++ [own]) ∧ own.unplaced = l.unplaced := by
  obtain ⟨fuel, seen, next, enough, -, continued⟩ :=
    parse_append parsed (getLast?_spelled_line l)
  obtain ⟨tokens, same, scanned⟩ :=
    scanFrom_legible (legible_line printable) enough seen next
  obtain ⟨left, holds, read⟩ := continued tokens scanned
  have kept : (shown tokens).map Token.lexeme =
      [l].flatMap fun l => kept l.lexemes := by
    rw [List.flatMap_singleton, ← same, kept, List.filter_map]
    rfl
  have one : [l].length ≤ left := by
    have lengths := congrArg List.length kept
    rw [List.length_map] at lengths
    exact Nat.le_trans (lengths ▸ length_le_kept [l]) holds
  obtain ⟨own, done, ownSame⟩ := linesFrom_of_lexemes
    (List.forall_mem_singleton.mpr printable) kept one lines.toArray
  obtain ⟨own, rfl, unplaced⟩ := List.map_eq_singleton_iff.mp ownSame
  exact ⟨own, by simp [read, done, Except.map], unplaced⟩

/-- What stands behind a text of known lines, if it can be read. -/
theorem parse_append_eq_ok (parsed : parse source = .ok lines)
    (ended : more.getLast? = some 0x0A)
    (done : parse (terminated source ++ more) = .ok all) :
    ∃ tokens left, spelled (tokens.map Token.lexeme) = more ∧
      Legible (tokens.map Token.lexeme) [] ∧ (shown tokens).length ≤ left ∧
        linesFrom left lines.toArray (shown tokens) = .ok all.toArray := by
  obtain ⟨fuel, seen, next, -, scanned, continued⟩ :=
    parse_append parsed ended
  obtain ⟨whole, scannedWhole, -⟩ := parse_eq_ok done
  rw [scanned] at scannedWhole
  obtain ⟨tokens, split, text, legible, -⟩ :=
    of_scanFrom (congrArg Scan.stuck scannedWhole)
  rw [scannedWhole] at split
  obtain rfl : whole = seen.toList ++ tokens := split
  have same : (seen.toList ++ tokens).toArray = seen ++ tokens.toArray := by
    simp [← List.append_toArray]
  rw [same] at scannedWhole
  obtain ⟨left, holds, read⟩ := continued tokens scannedWhole
  rw [done] at read
  obtain ⟨own, taken, rfl⟩ := map_eq_ok_iff.mp read.symm
  exact ⟨tokens, left, text, legible, holds, taken⟩

end Texts

end WindowMachine.Source
