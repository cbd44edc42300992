import WindowMachine.Proofs.Text.Utf8

/-!
# Regular expressions

Matching is leftmost first: among the pieces of text that an expression can
match at a place, the one counts to which a search with backtracking comes
first.  The search prefers the first of two alternatives and repeats as often
as it can.  `ways` lists the places behind all matches in the order of that
search, and `front?` is the match at the front of a byte string, which is read
character by character.

A repetition is greedy, but gives characters back where what follows does not
match otherwise.  The lemmas say when nothing is gained by that: what follows
refuses every place inside the repetition.  An expression of ASCII alone can be
matched on bytes.
-/

namespace WindowMachine.Text

/-! ## Sets of characters -/

/-- The characters of some ranges, or all others. -/
structure CharSet where
  ranges : List (Char × Char)
  inverted : Bool
  deriving DecidableEq, Repr

namespace CharSet

def has (set : CharSet) (c : Char) : Bool :=
  set.ranges.any (fun range => range.1 ≤ c && c ≤ range.2) != set.inverted

/-- Whether a set has the character with the number of a byte. -/
def hasByte (set : CharSet) (b : UInt8) : Bool := set.has (Char.ofNat b.toNat)

/-- Whether a set has the character that a piece shows. -/
def hasPiece (set : CharSet) (piece : Utf8.Piece) : Bool :=
  set.has piece.shown

/-- The characters of some ranges. -/
def among (ranges : List (Char × Char)) : CharSet := ⟨ranges, false⟩

/-- Some characters. -/
def oneOf (chars : List Char) : CharSet := among (chars.map fun c => (c, c))

/-- All characters but one. -/
def except (c : Char) : CharSet := ⟨[(c, c)], true⟩

/-- The characters that words have. -/
def word : CharSet := among [('0', '9'), ('A', 'Z'), ('_', '_'), ('a', 'z')]

/-- Whether a set is seen to have characters of ASCII alone. -/
def isNarrow (set : CharSet) : Bool :=
  !set.inverted && set.ranges.all fun range => range.2.toNat < 0x80

theorem has_except (c d : Char) : (except d).has c = (c != d) := by
  by_cases same : c = d
  · simp [except, has, same]
  · have apart : ¬ (d ≤ c ∧ c ≤ d) := fun between =>
      same (Char.le_antisymm between.2 between.1)
    rw [bne_iff_ne.mpr same, has, except, List.any_cons, List.any_nil,
      ← Bool.decide_and, decide_eq_false apart]
    rfl

/-- A byte is in a set whose ranges have its number. -/
theorem hasByte_among (ranges : List (Char × Char)) (b : UInt8) :
    (among ranges).hasByte b = true ↔ ∃ range ∈ ranges,
      range.1.toNat ≤ b.toNat ∧ b.toNat ≤ range.2.toNat := by
  have order (c d : Char) : c ≤ d ↔ c.toNat ≤ d.toNat := Iff.rfl
  simp only [hasByte, among, has, Bool.bne_false, List.any_eq_true,
    Bool.and_eq_true, decide_eq_true_eq, order, Utf8.toNat_ofNat_byte]

theorem toNat_lt_of_has {set : CharSet} {c : Char}
    (narrow : set.isNarrow = true) (has : set.has c = true) :
    c.toNat < 0x80 := by
  simp only [isNarrow, Bool.and_eq_true, Bool.not_eq_true', List.all_eq_true,
    decide_eq_true_eq] at narrow
  simp only [CharSet.has, narrow.1, Bool.bne_false, List.any_eq_true,
    Bool.and_eq_true, decide_eq_true_eq] at has
  obtain ⟨range, member, -, below⟩ := has
  have bound := narrow.2 range member
  have order : c.toNat ≤ range.2.toNat := below
  omega

end CharSet

/-! ## Matching -/

/-- Regular expressions without the repetition of other expressions than
sets. -/
inductive Regex where
  | empty
  /-- A character of a set. -/
  | one (set : CharSet)
  /-- Characters of a set, as many as there can be. -/
  | star (set : CharSet)
  | seq (front back : Regex)
  /-- One of two, the first of them if it leads to a match. -/
  | either (first second : Regex)
  /-- Where a word starts or ends. -/
  | edge
  deriving DecidableEq, Repr

/-- A place in a text: what stands before it, the nearest first, and what
stands behind it. -/
structure Cursor (α : Type) where
  before : List α
  behind : List α
  deriving DecidableEq, Repr

/-- The places that are reached by going over elements that pass a test, the
furthest first. -/
def Cursor.run {α : Type} (test : α → Bool) :
    List α → List α → List (Cursor α)
  | before, [] => [⟨before, []⟩]
  | before, x :: behind =>
    if test x then run test (x :: before) behind ++ [⟨before, x :: behind⟩]
    else [⟨before, x :: behind⟩]

/-- Whether a word starts or ends at a place. -/
def Cursor.isEdge {α : Type} (has : CharSet → α → Bool) (p : Cursor α) : Bool :=
  p.before.head?.any (has .word) != p.behind.head?.any (has .word)

namespace Regex

/-- Characters of a set, at least one and as many as there can be. -/
def many (set : CharSet) : Regex := seq (one set) (star set)

/-- An expression if it leads to a match, else nothing. -/
def optional (e : Regex) : Regex := either e empty

/-- The places behind the matches of an expression at a place, in the order in
which a search with backtracking finds them. -/
def ways {α : Type} (has : CharSet → α → Bool) :
    Regex → Cursor α → List (Cursor α)
  | empty, p => [p]
  | one set, ⟨before, x :: behind⟩ =>
    if has set x then [⟨x :: before, behind⟩] else []
  | one _, ⟨_, []⟩ => []
  | star set, p => Cursor.run (has set) p.before p.behind
  | seq front back, p => (front.ways has p).flatMap (back.ways has)
  | either first second, p => first.ways has p ++ second.ways has p
  | edge, p => if p.isEdge has then [p] else []

/-- The bytes that an expression matches at the front of a byte string. -/
def front? (e : Regex) (bytes : List UInt8) : Option (List UInt8) :=
  (e.ways CharSet.hasPiece ⟨[], (Utf8.read bytes).toList⟩).head?.map
    fun p => p.before.reverse.flatMap Utf8.Piece.bytes

end Regex

/-! ## Cursors -/

namespace Cursor

variable {α β : Type} {test : α → Bool}

/-- The place some elements further. -/
def moved (p : Cursor α) (n : Nat) : Cursor α :=
  ⟨(p.behind.take n).reverse ++ p.before, p.behind.drop n⟩

@[simp]
theorem behind_moved (p : Cursor α) (n : Nat) :
    (p.moved n).behind = p.behind.drop n := rfl

@[simp]
theorem moved_zero (p : Cursor α) : p.moved 0 = p := rfl

@[simp]
theorem moved_cons (before : List α) (x : α) (behind : List α) (n : Nat) :
    (⟨before, x :: behind⟩ : Cursor α).moved (n + 1) =
      (⟨x :: before, behind⟩ : Cursor α).moved n := by
  simp [moved]

theorem moved_moved (p : Cursor α) (m n : Nat) :
    (p.moved m).moved n = p.moved (m + n) := by
  simp [moved, List.take_add]

/-- How many elements behind a place pass a test, up to the first that does
not. -/
def span (test : α → Bool) (p : Cursor α) : Nat :=
  (p.behind.takeWhile test).length

@[simp]
theorem span_nil (before : List α) :
    (⟨before, []⟩ : Cursor α).span test = 0 := rfl

theorem span_cons (before : List α) (x : α) (behind : List α) :
    (⟨before, x :: behind⟩ : Cursor α).span test =
      if test x then (⟨x :: before, behind⟩ : Cursor α).span test + 1
      else 0 := by
  cases passes : test x with
  | false =>
      simp [span, passes]
  | true =>
      simp [span, passes]

/-- What is gone over to the end of a span stands before it. -/
theorem before_moved_span_eq (p : Cursor α) :
    (p.moved (p.span test)).before =
      (p.behind.takeWhile test).reverse ++ p.before := by
  have front : p.behind.takeWhile test <+: p.behind :=
    List.takeWhile_prefix test
  rw [moved, span, ← List.prefix_iff_eq_take.mp front]

/-- Behind a span stands something that passes the test. -/
theorem before_moved_span {p : Cursor α} (nonempty : p.span test ≠ 0) :
    ∃ last before, (p.moved (p.span test)).before = last :: before ∧
      test last = true := by
  have some : (p.behind.takeWhile test).reverse ≠ [] := by
    simpa [span] using nonempty
  obtain ⟨last, more, split⟩ := List.exists_cons_of_ne_nil some
  have member : last ∈ p.behind.takeWhile test := by
    rw [← List.mem_reverse, split]
    exact List.mem_cons_self
  refine ⟨last, more ++ p.before, ?_, ?_⟩
  · rw [before_moved_span_eq, split, List.cons_append]
  · exact List.all_eq_true.mp List.all_takeWhile last member

/-- The furthest place is behind the whole span. -/
theorem head?_run (before behind : List α) :
    (run test before behind).head? =
      some ((⟨before, behind⟩ : Cursor α).moved
        ((⟨before, behind⟩ : Cursor α).span test)) := by
  induction behind generalizing before with
  | nil =>
      rfl
  | cons x behind inductionHypothesis =>
      rw [run, span_cons]
      cases test x with
      | false =>
          rfl
      | true =>
          simp [inductionHypothesis]

/-- What goes on inside a span is refused, so that only its end remains. -/
theorem flatMap_run {f : Cursor α → List β} {last : α}
    (inside : test last = true)
    (refused : ∀ before last x behind, test last = true → test x = true →
      f ⟨last :: before, x :: behind⟩ = [])
    (before behind : List α) :
    (run test (last :: before) behind).flatMap f =
      f ((⟨last :: before, behind⟩ : Cursor α).moved
        ((⟨last :: before, behind⟩ : Cursor α).span test)) := by
  induction behind generalizing last before with
  | nil =>
      simp [run]
  | cons x behind inductionHypothesis =>
      rw [run, span_cons]
      cases passes : test x with
      | false =>
          simp
      | true =>
          -- The place before `x` comes last in the run, and is refused.
          simp [inductionHypothesis passes, refused before last x behind inside
            passes]

end Cursor

/-! ## First matches -/

namespace Regex

variable {α : Type} {has : CharSet → α → Bool} {set : CharSet} {e : Regex}
  {before behind : List α} {x : α}

@[simp]
theorem ways_one_nil : (one set).ways has ⟨before, []⟩ = [] := rfl

@[simp]
theorem ways_one_cons :
    (one set).ways has ⟨before, x :: behind⟩ =
      if has set x then [⟨x :: before, behind⟩] else [] := rfl

theorem ways_one (p : Cursor α) :
    (one set).ways has p =
      if p.behind.head?.any (has set) then [p.moved 1] else [] := by
  obtain ⟨before, behind⟩ := p
  cases behind with
  | nil =>
      rfl
  | cons x behind =>
      rfl

@[simp]
theorem ways_seq (front back : Regex) (p : Cursor α) :
    (seq front back).ways has p =
      (front.ways has p).flatMap (back.ways has) := rfl

theorem ways_edge (p : Cursor α) :
    edge.ways has p = if p.isEdge has then [p] else [] := rfl

/-- Whether an expression has no match where a character of a set precedes and
another one follows. -/
def Stops (has : CharSet → α → Bool) (e : Regex) (set : CharSet) : Prop :=
  ∀ before last x behind, has set last = true → has set x = true →
    e.ways has ⟨last :: before, x :: behind⟩ = []

theorem ways_star_seq (stops : Stops has e set) (inside : has set x = true) :
    ((star set).seq e).ways has ⟨x :: before, behind⟩ =
      e.ways has ((⟨x :: before, behind⟩ : Cursor α).moved
        ((⟨x :: before, behind⟩ : Cursor α).span (has set))) :=
  Cursor.flatMap_run inside stops before behind

theorem ways_many_seq (stops : Stops has e set) (p : Cursor α) :
    ((many set).seq e).ways has p =
      if p.span (has set) = 0 then []
      else e.ways has (p.moved (p.span (has set))) := by
  obtain ⟨before, behind⟩ := p
  cases behind with
  | nil =>
      rfl
  | cons x behind =>
      cases passes : has set x with
      | false =>
          simp [many, passes, Cursor.span_cons]
      | true =>
          have rest : ((star set).seq e).ways has ⟨x :: before, behind⟩ = _ :=
            ways_star_seq stops passes
          rw [ways_seq] at rest
          simp [many, passes, Cursor.span_cons, rest]

theorem head?_ways_star (p : Cursor α) :
    ((star set).ways has p).head? = some (p.moved (p.span (has set))) :=
  Cursor.head?_run p.before p.behind

theorem head?_ways_many (p : Cursor α) :
    ((many set).ways has p).head? =
      if p.span (has set) = 0 then none
      else some (p.moved (p.span (has set))) := by
  obtain ⟨before, behind⟩ := p
  cases behind with
  | nil =>
      rfl
  | cons x behind =>
      cases passes : has set x with
      | false =>
          simp [many, passes, Cursor.span_cons]
      | true =>
          simp [many, passes, Cursor.span_cons, head?_ways_star]

/-- Behind an expression whose first match stands nothing is given back for an
expression that always matches. -/
theorem head?_ways_seq (matched : ∀ p, ∃ q, (e.ways has p).head? = some q)
    (front : Regex) (p : Cursor α) :
    ((front.seq e).ways has p).head? =
      (front.ways has p).head?.bind fun q => (e.ways has q).head? := by
  rw [ways_seq, List.head?_flatMap]
  cases front.ways has p with
  | nil =>
      rfl
  | cons q more =>
      obtain ⟨place, found⟩ := matched q
      simp [found]

theorem head?_ways_optional (p : Cursor α) :
    ((optional e).ways has p).head? =
      some ((e.ways has p).head?.getD p) := by
  change (e.ways has p ++ [p]).head? = _
  cases e.ways has p with
  | nil =>
      rfl
  | cons q more =>
      rfl

/-- An optional character is taken if it stands there, for an expression that
cannot start with it. -/
theorem ways_optional_one_seq
    (refuses : ∀ before x behind, has set x = true →
      e.ways has ⟨before, x :: behind⟩ = [])
    (p : Cursor α) :
    ((optional (one set)).seq e).ways has p =
      e.ways has
        (p.moved (if p.behind.head?.any (has set) then 1 else 0)) := by
  change ((one set).ways has p ++ [p]).flatMap (e.ways has) = _
  obtain ⟨before, behind⟩ := p
  cases behind with
  | nil =>
      simp
  | cons x behind =>
      cases passes : has set x with
      | false =>
          simp [passes]
      | true =>
          simp [passes, refuses before x behind passes]

end Regex

/-! ## Expressions of ASCII -/

section Narrow

open Utf8

/-- Whether an expression is seen to match ASCII alone. -/
def Regex.isNarrow : Regex → Bool
  | .one set | .star set => set.isNarrow
  | .seq front back => front.isNarrow && back.isNarrow
  | .either first second => first.isNarrow && second.isNarrow
  | .empty | .edge => true

/-- The piece of a byte of ASCII. -/
def asciiPiece (b : UInt8) : Piece := ⟨some (Char.ofNat b.toNat), [b]⟩

/-- The piecewise reading of a place in a byte string behind ASCII. -/
def Cursor.read (p : Cursor UInt8) : Cursor Piece :=
  ⟨p.before.map asciiPiece, (Utf8.read p.behind).toList⟩

theorem hasPiece_asciiPiece (set : CharSet) (b : UInt8) :
    set.hasPiece (asciiPiece b) = set.hasByte b := rfl

variable {set : CharSet} {e : Regex} {b : UInt8}

theorem hasByte_of_beyond (narrow : set.isNarrow = true)
    (beyond : 0x80 ≤ b.toNat) : set.hasByte b = false := by
  rw [Bool.eq_false_iff]
  intro has
  have small := CharSet.toNat_lt_of_has narrow has
  rw [toNat_ofNat_byte] at small
  omega

theorem hasPiece_of_beyond {piece : Piece} (narrow : set.isNarrow = true)
    (beyond : 0x80 ≤ piece.shown.toNat) : set.hasPiece piece = false := by
  rw [Bool.eq_false_iff]
  intro has
  have small := CharSet.toNat_lt_of_has narrow has
  omega

theorem read_of_ascii (ascii : b.toNat < 0x80) (rest : List UInt8) :
    (Utf8.read (b :: rest)).toList =
      asciiPiece b :: (Utf8.read rest).toList := by
  have first := read_encodeChar (Char.ofNat b.toNat) rest
  rwa [encodeChar_ascii ascii] at first

theorem read_of_beyond (beyond : 0x80 ≤ b.toNat) (rest : List UInt8) :
    ∃ piece more, (Utf8.read (b :: rest)).toList = piece :: more ∧
      0x80 ≤ piece.shown.toNat := by
  rcases stray_or_char b rest with stray | ⟨c, behind, whole⟩
  · exact ⟨_, _, read_stray stray, show 0x80 ≤ replacement.toNat by decide⟩
  · have first : b ∈ String.utf8EncodeChar c := by
      obtain ⟨a, more, split⟩ :=
        List.exists_cons_of_ne_nil (encodeChar_ne_nil c)
      rw [split, List.cons_append, List.cons.injEq] at whole
      simp [split, whole.1]
    have large := mem_encodeChar first
    rw [← whole, read_encodeChar]
    exact ⟨_, _, rfl, show 0x80 ≤ c.toNat by omega⟩

/-- A byte is read as itself, or it belongs to something that no set of ASCII
has. -/
theorem read_cons_cases (b : UInt8) (rest : List UInt8) :
    (Utf8.read (b :: rest)).toList =
        asciiPiece b :: (Utf8.read rest).toList ∨
      0x80 ≤ b.toNat ∧ ∃ piece more, (Utf8.read (b :: rest)).toList =
        piece :: more ∧ 0x80 ≤ piece.shown.toNat := by
  rcases Nat.lt_or_ge b.toNat 0x80 with ascii | beyond
  · exact .inl (read_of_ascii ascii rest)
  · exact .inr ⟨beyond, read_of_beyond beyond rest⟩

theorem run_read (narrow : set.isNarrow = true) (before behind : List UInt8) :
    Cursor.run set.hasPiece (before.map asciiPiece) (Utf8.read behind).toList =
      (Cursor.run set.hasByte before behind).map Cursor.read := by
  induction behind generalizing before with
  | nil =>
      simp [Cursor.run, Cursor.read]
  | cons b rest inductionHypothesis =>
      rcases read_cons_cases b rest with
        ascii | ⟨beyond, piece, more, split, large⟩
      · have later := inductionHypothesis (b :: before)
        rw [List.map_cons] at later
        rw [ascii, Cursor.run, Cursor.run, hasPiece_asciiPiece]
        cases set.hasByte b with
        | false =>
            simp [Cursor.read, ascii]
        | true =>
            simp [Cursor.read, ascii, later]
      · -- Both runs end here, one of them before a whole character.
        rw [split, Cursor.run, Cursor.run, hasByte_of_beyond narrow beyond,
          hasPiece_of_beyond narrow large]
        simp [Cursor.read, split]

theorem any_head?_read (narrow : set.isNarrow = true) (bytes : List UInt8) :
    (Utf8.read bytes).toList.head?.any set.hasPiece =
      bytes.head?.any set.hasByte := by
  cases bytes with
  | nil =>
      simp
  | cons b rest =>
      rcases read_cons_cases b rest with
        ascii | ⟨beyond, piece, more, split, large⟩
      · simp [ascii, hasPiece_asciiPiece]
      · simp [split, hasByte_of_beyond narrow beyond,
          hasPiece_of_beyond narrow large]

theorem isEdge_read (p : Cursor UInt8) :
    p.read.isEdge CharSet.hasPiece = p.isEdge CharSet.hasByte := by
  have before : (p.before.map asciiPiece).head?.any CharSet.word.hasPiece =
      p.before.head?.any CharSet.word.hasByte := by
    cases p.before with
    | nil =>
        rfl
    | cons b rest =>
        rfl
  have narrow : CharSet.word.isNarrow = true := rfl
  have behind := any_head?_read narrow p.behind
  rw [Cursor.isEdge, Cursor.isEdge, ← before, ← behind]
  rfl

/-- An expression of ASCII matches the same whether characters or bytes are
read. -/
theorem ways_read (narrow : e.isNarrow = true) (p : Cursor UInt8) :
    e.ways CharSet.hasPiece p.read =
      (e.ways CharSet.hasByte p).map Cursor.read := by
  induction e generalizing p with
  | empty =>
      rfl
  | one set =>
      obtain ⟨before, behind⟩ := p
      cases behind with
      | nil =>
          simp [Cursor.read]
      | cons b rest =>
          rcases read_cons_cases b rest with
            ascii | ⟨beyond, piece, more, split, large⟩
          · cases passes : set.hasByte b with
            | false =>
                simp [Cursor.read, ascii, hasPiece_asciiPiece, passes]
            | true =>
                simp [Cursor.read, ascii, hasPiece_asciiPiece, passes]
          · simp [Cursor.read, split, hasByte_of_beyond narrow beyond,
              hasPiece_of_beyond narrow large]
  | star set =>
      exact run_read narrow p.before p.behind
  | seq front back frontHypothesis backHypothesis =>
      obtain ⟨frontNarrow, backNarrow⟩ := Bool.and_eq_true_iff.mp narrow
      rw [Regex.ways_seq, Regex.ways_seq, frontHypothesis frontNarrow,
        List.flatMap_map, List.map_flatMap]
      simp only [backHypothesis backNarrow]
  | either first second firstHypothesis secondHypothesis =>
      obtain ⟨firstNarrow, secondNarrow⟩ := Bool.and_eq_true_iff.mp narrow
      change first.ways _ _ ++ second.ways _ _ = List.map _ (_ ++ _)
      rw [firstHypothesis firstNarrow, secondHypothesis secondNarrow,
        List.map_append]
  | edge =>
      rw [Regex.ways_edge, Regex.ways_edge, isEdge_read]
      split
      · rfl
      · rfl

theorem flatMap_asciiPiece (bytes : List UInt8) :
    (bytes.map asciiPiece).flatMap Piece.bytes = bytes := by
  induction bytes with
  | nil =>
      rfl
  | cons b rest inductionHypothesis =>
      rw [List.map_cons, List.flatMap_cons, inductionHypothesis]
      rfl

/-- An expression of ASCII whose first match is some bytes further matches
these bytes. -/
theorem front?_eq (narrow : e.isNarrow = true) {bytes : List UInt8}
    {length : Nat}
    (found : (e.ways CharSet.hasByte ⟨[], bytes⟩).head? =
      if length = 0 then none
      else some ((⟨[], bytes⟩ : Cursor UInt8).moved length)) :
    e.front? bytes =
      if length = 0 then none else some (bytes.take length) := by
  have read := ways_read narrow ⟨[], bytes⟩
  simp only [Cursor.read, List.map_nil] at read
  rw [Regex.front?, read, List.head?_map, found]
  split
  · rfl
  · simpa [Cursor.moved, Cursor.read] using
      flatMap_asciiPiece (bytes.take length)

end Narrow

end WindowMachine.Text
