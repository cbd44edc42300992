import WindowMachine.Proofs.Source.Rules
import WindowMachine.Source.Line

/-!
# Nothing is lost between tokens

A text is cut into tokens from its front on, blanks and comments among them.
Each takes at least one byte, stands where the one before it ends, and is what
the first rule that matches there makes of the text.  Reading ends at the end
of the text, or at the first place where no rule matches, and there the text
is refused.
-/

namespace WindowMachine.Source

/-! ## Places behind tokens -/

section Places

variable {b : UInt8} {text : List UInt8} {kind : Kind}

theorem starts_ascii (starts : kind.starts b = true) : b.toNat < 0x80 := by
  have table : ∀ kind : Kind, ∀ n < 256,
      kind.starts (UInt8.ofNat n) = true → n < 0x80 := by
    intro kind
    cases kind
    all_goals decide +kernel
  apply table kind b.toNat b.toNat_lt
  rwa [UInt8.ofNat_toNat]

/-- Every token starts with a byte of ASCII. -/
theorem ascii_of_firstKind? {length : Nat}
    (found : firstKind? text = some (kind, length)) :
    ∀ b ∈ text.head?, b.toNat < 0x80 := by
  rintro b first
  obtain ⟨rest, rfl⟩ : ∃ rest, text = b :: rest :=
    List.head?_eq_some_iff.mp first
  obtain ⟨fits, positive⟩ := length_of_firstKind? found
  cases starts : kind.starts b with
  | true =>
      exact starts_ascii starts
  | false =>
      rw [Kind.length_of_starts_false starts] at fits
      omega

/-- What stands in the last line of some bytes. -/
def lastLine (bytes : List UInt8) : List UInt8 :=
  (bytes.reverse.takeWhile (· != 0x0A)).reverse

theorem lastLine_append_of_free (front : List UInt8) {back : List UInt8}
    (free : 0x0A ∉ back) :
    lastLine (front ++ back) = lastLine front ++ back := by
  have passes : ∀ b ∈ back.reverse, (b != 0x0A) = true := by
    intro b member
    rw [bne_iff_ne]
    rintro rfl
    exact free (List.mem_reverse.mp member)
  rw [lastLine, List.reverse_append, List.takeWhile_append_of_pos passes,
    List.reverse_append, List.reverse_reverse, lastLine]

theorem lastLine_of_free {bytes : List UInt8} (free : 0x0A ∉ bytes) :
    lastLine bytes = bytes :=
  lastLine_append_of_free [] free

theorem lastLine_append_of_mem (front : List UInt8) {back : List UInt8}
    (broken : 0x0A ∈ back) : lastLine (front ++ back) = lastLine back := by
  have shorter : (back.reverse.takeWhile (· != 0x0A)).length ≠
      back.reverse.length := by
    intro same
    have whole := (List.takeWhile_sublist _).eq_of_length same
    have passes : back.reverse.all (· != 0x0A) = true :=
      whole ▸ List.all_takeWhile
    have fails := List.all_eq_true.mp passes 0x0A (List.mem_reverse.mpr broken)
    exact absurd fails (by decide)
  rw [lastLine, List.reverse_append, List.takeWhile_append, if_neg shorter,
    lastLine]

/-- The place behind a token is that after the token, seen from its start. -/
theorem Position.after_append (p : Position) (front : List UInt8)
    {back : List UInt8} (ascii : ∀ b ∈ back.head?, b.toNat < 0x80) :
    p.after (front ++ back) = (p.after front).after back := by
  have breaks : (front ++ back).count 0x0A =
      front.count 0x0A + back.count 0x0A := List.count_append
  have column (q : Position) (bytes : List UInt8) : q.after bytes =
      ⟨q.line + bytes.count 0x0A,
        (if bytes.count 0x0A = 0 then q.column else 1) +
          Utf8.count (lastLine bytes),
        q.offset + bytes.length⟩ := rfl
  simp only [column, breaks, List.length_append, Nat.add_assoc]
  by_cases broken : 0x0A ∈ back
  · have some := List.count_pos_iff.mpr broken
    rw [lastLine_append_of_mem front broken, if_neg (by omega),
      if_neg (by omega)]
  · have none := List.count_eq_zero.mpr broken
    -- Characters are counted in two parts, as none goes on in the second.
    rw [lastLine_append_of_free front broken, lastLine_of_free broken,
      Utf8.count_append ascii, none]
    simp [Nat.add_assoc]

theorem offset_after (bytes : List UInt8) :
    (({} : Position).after bytes).offset = bytes.length :=
  Nat.zero_add _

end Places

/-! ## Tokens of a text -/

/-- A text that is cut into tokens and a rest. -/
structure Cut (text : List UInt8) (tokens : List Token) (rest : List UInt8) :
    Prop where
  whole : tokens.flatMap Token.bytes ++ rest = text
  nonempty : ∀ t ∈ tokens, t.bytes ≠ []
  /-- A token starts where those before it end. -/
  offset : ∀ before t, before ++ [t] <+: tokens →
    t.pos.offset = (before.flatMap Token.bytes).length
  /-- Its line and its column are those of this place. -/
  place : ∀ before t, before ++ [t] <+: tokens →
    t.pos = ({} : Position).after (before.flatMap Token.bytes)
  /-- It is what the first rule that matches there makes of the text. -/
  first : ∀ t ∈ tokens, FirstMatch (text.drop t.pos.offset) t.lexeme

section Cut

variable {text rest : List UInt8} {tokens : List Token} {x : Lexeme}

theorem cut_nil (text : List UInt8) : Cut text [] text where
  whole := rfl
  nonempty := by simp
  offset := by simp
  place := by simp
  first := by simp

/-- One more token is cut off from the rest. -/
theorem Cut.push (cut : Cut text tokens (x.bytes ++ rest))
    (first : FirstMatch (x.bytes ++ rest) x) :
    Cut text (tokens ++ [⟨x.kind, x.bytes,
      ({} : Position).after (tokens.flatMap Token.bytes)⟩]) rest := by
  have positive := (length_of_firstKind? (firstMatch_iff.mp first).1).2
  have place : ∀ before t, before ++ [t] <+: tokens ++ [⟨x.kind, x.bytes,
      ({} : Position).after (tokens.flatMap Token.bytes)⟩] →
      t.pos = ({} : Position).after (before.flatMap Token.bytes) := by
    intro before t front
    rcases List.prefix_concat_iff.mp front with whole | earlier
    · obtain ⟨rfl, same⟩ := List.append_inj' whole rfl
      simp only [List.cons.injEq, and_true] at same
      rw [same]
    · exact cut.place before t earlier
  refine ⟨?_, ?_, ?_, place, ?_⟩
  · simp [cut.whole]
  · intro t member
    rcases List.mem_append.mp member with earlier | last
    · exact cut.nonempty t earlier
    · rw [List.mem_singleton.mp last]
      exact List.length_pos_iff.mp positive
  · intro before t front
    rw [place before t front, offset_after]
  · intro t member
    rcases List.mem_append.mp member with earlier | last
    · exact cut.first t earlier
    · rw [List.mem_singleton.mp last]
      simp only [offset_after, ← cut.whole, List.drop_left]
      exact first

/-- What remains of a text is read until no rule matches.  The fuel is never
used up before, as every token takes some of the bytes that remain. -/
theorem scanFrom_cut {fuel : Nat} {seen : Array Token} {pos : Position}
    (cut : Cut text seen.toList rest)
    (place : pos = ({} : Position).after (seen.toList.flatMap Token.bytes))
    (enough : rest.length ≤ fuel) :
    ∃ tokens left, Cut text tokens left ∧
      (left = [] ∧ scanFrom fuel seen pos rest = ⟨tokens.toArray, none⟩ ∨
        left ≠ [] ∧ firstKind? left = none ∧
          scanFrom fuel seen pos rest = ⟨tokens.toArray,
            some (({} : Position).after (tokens.flatMap Token.bytes),
              left)⟩) := by
  induction fuel generalizing seen pos rest with
  | zero =>
      obtain rfl := List.length_eq_zero_iff.mp (Nat.le_zero.mp enough)
      exact ⟨seen.toList, [], cut, .inl ⟨rfl, rfl⟩⟩
  | succ fuel inductionHypothesis =>
      cases found : firstKind? rest with
      | none =>
          cases rest with
          | nil =>
              exact ⟨seen.toList, [], cut, .inl ⟨rfl, rfl⟩⟩
          | cons b more =>
              refine ⟨seen.toList, b :: more, cut, .inr ⟨by simp, found, ?_⟩⟩
              simp only [scanFrom, found, place]
      | some result =>
          obtain ⟨kind, length⟩ := result
          obtain ⟨fits, positive⟩ := length_of_firstKind? found
          have bound := Kind.length_le kind rest
          obtain ⟨bytes, more, rfl, rfl⟩ : ∃ bytes more,
              rest = bytes ++ more ∧ length = bytes.length :=
            ⟨rest.take length, rest.drop length,
              (List.take_append_drop length rest).symm,
              by rw [List.length_take, Nat.min_eq_left (by omega)]⟩
          have first : FirstMatch (bytes ++ more) ⟨kind, bytes⟩ :=
            firstMatch_iff.mpr ⟨found, List.prefix_append bytes more⟩
          have next : Cut text _ more := cut.push (x := ⟨kind, bytes⟩) first
          rw [← place] at next
          have ascii : ∀ b ∈ bytes.head?, b.toNat < 0x80 := by
            intro b member
            apply ascii_of_firstKind? found
            rw [List.head?_append, Option.mem_def.mp member]
            rfl
          rw [scanFrom_succ found, List.take_left, List.drop_left]
          apply inductionHypothesis
          · simpa using next
          · rw [place, ← Position.after_append _ _ ascii]
            simp
          · rw [List.length_append] at enough
            omega

end Cut

/-! ## Refusals -/

section Refusals

theorem refusal_cases (taken : Nat) (body : Option Statement) (t : Token)
    (rest : List Token) :
    ∃ token expected,
      refusal taken body t rest = .unexpected token expected := by
  unfold refusal
  rcases body with _ | ⟨p | p⟩
  all_goals
    dsimp only
    split
    · exact ⟨_, _, rfl⟩
    · split
      · split
        · exact ⟨_, _, rfl⟩
        · exact ⟨_, _, rfl⟩
      · exact ⟨_, _, rfl⟩

theorem line_error {pos : Position} {tokens : List Token} {e : Malformed}
    (failed : line pos tokens = .error e) :
    ∃ token expected, e = .unexpected token expected := by
  simp only [line] at failed
  split at failed
  · cases failed
  · split at failed
    · cases failed
    · cases failed
      exact refusal_cases _ _ _ _

theorem linesFrom_error {fuel : Nat} {seen : Array Line} {tokens : List Token}
    {e : Malformed} (failed : linesFrom fuel seen tokens = .error e) :
    ∃ token expected, e = .unexpected token expected := by
  fun_induction linesFrom fuel seen tokens with
  | case1 | case2 =>
      cases failed
  | case3 fuel seen t rest other refused =>
      cases failed
      exact line_error refused
  | case4 fuel seen t rest l left taken inductionHypothesis =>
      exact inductionHypothesis failed

/-- A text is refused as unreadable just where reading its tokens stops. -/
theorem parse_unreadable_iff {source rest : List UInt8} {pos : Position} :
    parse source = .error (.unreadable pos rest) ↔
      (scan (terminated source)).stuck = some (pos, rest) := by
  rw [parse]
  cases stuck : (scan (terminated source)).stuck with
  | some place =>
      simp [Prod.ext_iff]
  | none =>
      simp only
      constructor
      · intro failed
        cases lines : linesFrom _ #[] _ with
        | ok read =>
            rw [lines] at failed
            cases failed
        | error e =>
            rw [lines] at failed
            obtain ⟨token, expected, rfl⟩ := linesFrom_error lines
            cases failed
      · intro impossible
        cases impossible

end Refusals

/-- The tokens of a text are all of it, or all of it up to the first place
where no rule matches, and the text is refused there. -/
theorem scan_lossless (source : List UInt8) :
    ∃ tokens rest, Cut (terminated source) tokens rest ∧
      (rest = [] ∧ scan (terminated source) = ⟨tokens.toArray, none⟩ ∧
          (∀ pos left, parse source ≠ .error (.unreadable pos left)) ∨
        rest ≠ [] ∧ (∀ rule ∈ rules, rule.regex.front? rest = none) ∧
          ∃ pos, pos.offset = (tokens.flatMap Token.bytes).length ∧
            pos = ({} : Position).after (tokens.flatMap Token.bytes) ∧
            scan (terminated source) = ⟨tokens.toArray, some (pos, rest)⟩ ∧
              parse source = .error (.unreadable pos rest)) := by
  have start : Cut (terminated source) (#[] : Array Token).toList
      (terminated source) := cut_nil _
  have place : ({} : Position) = ({} : Position).after
      ((#[] : Array Token).toList.flatMap Token.bytes) := rfl
  obtain ⟨tokens, rest, cut, ending⟩ :=
    scanFrom_cut start place (Nat.le_refl _)
  refine ⟨tokens, rest, cut, ?_⟩
  rcases ending with ⟨ended, scanned⟩ | ⟨more, none, scanned⟩
  · refine .inl ⟨ended, scanned, ?_⟩
    intro pos left refused
    rw [parse_unreadable_iff, scan, scanned] at refused
    cases refused
  · refine .inr ⟨more, firstKind?_eq_none_iff.mp none, _, offset_after _, rfl,
      scanned, ?_⟩
    rw [parse_unreadable_iff, scan, scanned]

end WindowMachine.Source
