import WindowMachine.Proofs.Checks
import WindowMachine.Text.Utf8

/-!
# Characters as bytes

Each of the readers for two, three and four bytes accepts exactly the bytes of
a character.  The pieces of a byte string therefore hold either a character
with its own bytes or a stray one, and nothing is lost between them.  So a
byte string is the text that it reads as, and no other one is.

What comes first in a byte string is a character, or a byte of none, and is
read in front of the rest.  Bytes of ASCII are no part of anything longer.
-/

namespace WindowMachine.Utf8

section Characters

variable {a b₁ b₂ b₃ : UInt8} {c : Char}

/-! ## The bytes of a character -/

theorem ofNat_eq_iff {n : Nat} (valid : n.isValidChar) :
    Char.ofNat n = c ↔ c.toNat = n := by
  constructor
  · rintro rfl
    rw [Char.ofNat, dif_pos valid]
    rfl
  · rintro rfl
    exact Char.ofNat_toNat c

theorem tail_mod (n : Nat) : (n % 64 + 128) % 256 = n % 64 + 128 := by
  omega

theorem encodeChar_eq_one_iff :
    String.utf8EncodeChar c = [a] ↔
      c.toNat ≤ 0x7F ∧ a.toNat = c.toNat := by
  change (if c.toNat ≤ 127 then _ else _) = _ ↔ _
  split
  · simp [← UInt8.toNat_inj]
    omega
  · split
    · simp
      omega
    · split
      · simp
        omega
      · simp
        omega

theorem encodeChar_eq_two_iff :
    String.utf8EncodeChar c = [a, b₁] ↔
      0x7F < c.toNat ∧ c.toNat ≤ 0x7FF ∧
        a.toNat = c.toNat / 64 + 192 ∧ b₁.toNat = c.toNat % 64 + 128 := by
  change (if c.toNat ≤ 127 then _ else if c.toNat ≤ 2047 then _ else _) =
    _ ↔ _
  split
  · simp
    omega
  · split
    · have lead : (c.toNat / 64 % 32 + 192) % 256 =
          c.toNat / 64 + 192 := by
        omega
      simp [← UInt8.toNat_inj, lead, tail_mod]
      omega
    · split
      · simp
        omega
      · simp
        omega

theorem encodeChar_eq_three_iff :
    String.utf8EncodeChar c = [a, b₁, b₂] ↔
      0x7FF < c.toNat ∧ c.toNat ≤ 0xFFFF ∧
        a.toNat = c.toNat / 4096 + 224 ∧
          b₁.toNat = c.toNat / 64 % 64 + 128 ∧
            b₂.toNat = c.toNat % 64 + 128 := by
  change (if c.toNat ≤ 127 then _ else if c.toNat ≤ 2047 then _
    else if c.toNat ≤ 65535 then _ else _) = _ ↔ _
  split
  · simp
    omega
  · split
    · simp
      omega
    · split
      · have lead : (c.toNat / 4096 % 16 + 224) % 256 =
            c.toNat / 4096 + 224 := by
          omega
        simp [← UInt8.toNat_inj, lead, tail_mod]
        omega
      · simp
        omega

theorem encodeChar_eq_four_iff :
    String.utf8EncodeChar c = [a, b₁, b₂, b₃] ↔
      0xFFFF < c.toNat ∧
        a.toNat = c.toNat / 262144 + 240 ∧
          b₁.toNat = c.toNat / 4096 % 64 + 128 ∧
            b₂.toNat = c.toNat / 64 % 64 + 128 ∧
              b₃.toNat = c.toNat % 64 + 128 := by
  have valid : c.toNat.isValidChar := c.valid
  simp only [Nat.isValidChar] at valid
  change (if c.toNat ≤ 127 then _ else if c.toNat ≤ 2047 then _
    else if c.toNat ≤ 65535 then _ else _) = _ ↔ _
  split
  · simp
    omega
  · split
    · simp
      omega
    · split
      · simp
        omega
      · have lead : (c.toNat / 262144 % 8 + 240) % 256 =
            c.toNat / 262144 + 240 := by
          omega
        simp [← UInt8.toNat_inj, lead, tail_mod]
        omega

/-! ## Readers of characters -/

theorem isTail_iff {b : UInt8} :
    isTail b = true ↔ 0x80 ≤ b.toNat ∧ b.toNat ≤ 0xBF := by
  simp [isTail, UInt8.le_iff_toNat_le]

theorem guarded_eq_some_iff {guard : Bool} {n : Nat} :
    (if guard = true then some (Char.ofNat n) else none) = some c ↔
      guard = true ∧ Char.ofNat n = c := by
  cases guard with
  | false =>
      simp
  | true =>
      simp

theorem pair?_eq_some_iff :
    pair? a b₁ = some c ↔ String.utf8EncodeChar c = [a, b₁] := by
  have first : (0xC2 ≤ a && a ≤ 0xDF && isTail b₁ : Bool) = true ↔
      0xC2 ≤ a.toNat ∧ a.toNat ≤ 0xDF ∧
        0x80 ≤ b₁.toNat ∧ b₁.toNat ≤ 0xBF := by
    simp [UInt8.le_iff_toNat_le, isTail_iff, and_assoc]
  rw [pair?, guarded_eq_some_iff, first, encodeChar_eq_two_iff]
  unfold tailBits
  constructor
  · rintro ⟨ranges, number⟩
    rw [ofNat_eq_iff (by simp only [Nat.isValidChar]; omega)] at number
    omega
  · intro bytes
    refine ⟨by omega, ?_⟩
    rw [ofNat_eq_iff (by simp only [Nat.isValidChar]; omega)]
    omega

theorem triple?_eq_some_iff :
    triple? a b₁ b₂ = some c ↔
      String.utf8EncodeChar c = [a, b₁, b₂] := by
  have valid : c.toNat.isValidChar := c.valid
  simp only [Nat.isValidChar] at valid
  -- The second byte keeps overlong forms and surrogates out.
  have second :
      (if a == 0xE0 then 0xA0 ≤ b₁ && b₁ ≤ 0xBF
        else if a == 0xED then 0x80 ≤ b₁ && b₁ ≤ 0x9F
        else 0xE1 ≤ a && a ≤ 0xEF && isTail b₁ : Bool) = true ↔
      0xE0 ≤ a.toNat ∧ a.toNat ≤ 0xEF ∧
        0x80 ≤ b₁.toNat ∧ b₁.toNat ≤ 0xBF ∧
          (a.toNat = 0xE0 → 0xA0 ≤ b₁.toNat) ∧
            (a.toNat = 0xED → b₁.toNat ≤ 0x9F) := by
    simp only [beq_iff_eq, ← UInt8.toNat_inj]
    split
    · simp [UInt8.le_iff_toNat_le] at *
      omega
    · split
      · simp [UInt8.le_iff_toNat_le] at *
        omega
      · simp [UInt8.le_iff_toNat_le, isTail_iff] at *
        omega
  rw [triple?, guarded_eq_some_iff, Bool.and_eq_true, second, isTail_iff,
    encodeChar_eq_three_iff]
  unfold tailBits
  constructor
  · rintro ⟨ranges, number⟩
    rw [ofNat_eq_iff (by simp only [Nat.isValidChar]; omega)] at number
    omega
  · intro bytes
    refine ⟨by omega, ?_⟩
    rw [ofNat_eq_iff (by simp only [Nat.isValidChar]; omega)]
    omega

theorem quadruple?_eq_some_iff :
    quadruple? a b₁ b₂ b₃ = some c ↔
      String.utf8EncodeChar c = [a, b₁, b₂, b₃] := by
  have valid : c.toNat.isValidChar := c.valid
  simp only [Nat.isValidChar] at valid
  have second :
      (if a == 0xF0 then 0x90 ≤ b₁ && b₁ ≤ 0xBF
        else if a == 0xF4 then 0x80 ≤ b₁ && b₁ ≤ 0x8F
        else 0xF1 ≤ a && a ≤ 0xF3 && isTail b₁ : Bool) = true ↔
      0xF0 ≤ a.toNat ∧ a.toNat ≤ 0xF4 ∧
        0x80 ≤ b₁.toNat ∧ b₁.toNat ≤ 0xBF ∧
          (a.toNat = 0xF0 → 0x90 ≤ b₁.toNat) ∧
            (a.toNat = 0xF4 → b₁.toNat ≤ 0x8F) := by
    simp only [beq_iff_eq, ← UInt8.toNat_inj]
    split
    · simp [UInt8.le_iff_toNat_le] at *
      omega
    · split
      · simp [UInt8.le_iff_toNat_le] at *
        omega
      · simp [UInt8.le_iff_toNat_le, isTail_iff] at *
        omega
  rw [quadruple?, guarded_eq_some_iff, Bool.and_eq_true, Bool.and_eq_true,
    second, isTail_iff, isTail_iff, encodeChar_eq_four_iff]
  unfold tailBits
  constructor
  · rintro ⟨ranges, number⟩
    rw [ofNat_eq_iff (by simp only [Nat.isValidChar]; omega)] at number
    exact ⟨by omega, by omega, by omega, by omega, by omega⟩
  · intro bytes
    refine ⟨by omega, ?_⟩
    rw [ofNat_eq_iff (by simp only [Nat.isValidChar]; omega)]
    omega

theorem encodeChar_cases (c : Char) :
    (∃ a, String.utf8EncodeChar c = [a]) ∨
      (∃ a b₁, String.utf8EncodeChar c = [a, b₁]) ∨
        (∃ a b₁ b₂, String.utf8EncodeChar c = [a, b₁, b₂]) ∨
          ∃ a b₁ b₂ b₃, String.utf8EncodeChar c = [a, b₁, b₂, b₃] := by
  unfold String.utf8EncodeChar
  dsimp only
  split
  · exact .inl ⟨_, rfl⟩
  · split
    · exact .inr (.inl ⟨_, _, rfl⟩)
    · split
      · exact .inr (.inr (.inl ⟨_, _, _, rfl⟩))
      · exact .inr (.inr (.inr ⟨_, _, _, _, rfl⟩))

theorem pair?_eq_none (large : 0xE0 ≤ a.toNat) : pair? a b₁ = none := by
  cases found : pair? a b₁ with
  | none =>
      rfl
  | some c =>
      have bytes := encodeChar_eq_two_iff.mp (pair?_eq_some_iff.mp found)
      omega

theorem triple?_eq_none (large : 0xF0 ≤ a.toNat) :
    triple? a b₁ b₂ = none := by
  cases found : triple? a b₁ b₂ with
  | none =>
      rfl
  | some c =>
      have bytes := encodeChar_eq_three_iff.mp (triple?_eq_some_iff.mp found)
      omega

/-! ## Pieces -/

theorem ascii_iff : a < 0x80 ↔ a.toNat < 0x80 :=
  UInt8.lt_iff_toNat_lt

theorem readFrom_encodeChar (seen : Array Piece) (c : Char)
    (rest : List UInt8) :
    readFrom seen (String.utf8EncodeChar c ++ rest) =
      readFrom (seen.push ⟨some c, String.utf8EncodeChar c⟩) rest := by
  rw [readFrom.eq_def seen]
  rcases encodeChar_cases c with ⟨a, bytes⟩ | ⟨a, b₁, bytes⟩ |
    ⟨a, b₁, b₂, bytes⟩ | ⟨a, b₁, b₂, b₃, bytes⟩
  · obtain ⟨small, same⟩ := encodeChar_eq_one_iff.mp bytes
    have char : Char.ofNat a.toNat = c := by
      rw [same]
      exact Char.ofNat_toNat c
    have ascii : a < 0x80 := ascii_iff.mpr (by omega)
    simp only [bytes, List.singleton_append, ascii, if_true, char]
  · have range := encodeChar_eq_two_iff.mp bytes
    have beyond : ¬ a < 0x80 := fun ascii => by
      rw [ascii_iff] at ascii
      omega
    simp only [bytes, List.cons_append, List.nil_append, beyond, if_false,
      pair?_eq_some_iff.mpr bytes]
  · have range := encodeChar_eq_three_iff.mp bytes
    have beyond : ¬ a < 0x80 := fun ascii => by
      rw [ascii_iff] at ascii
      omega
    simp only [bytes, List.cons_append, List.nil_append, beyond, if_false,
      pair?_eq_none (show 0xE0 ≤ a.toNat by omega),
      triple?_eq_some_iff.mpr bytes]
  · have range := encodeChar_eq_four_iff.mp bytes
    have beyond : ¬ a < 0x80 := fun ascii => by
      rw [ascii_iff] at ascii
      omega
    simp only [bytes, List.cons_append, List.nil_append, beyond, if_false,
      pair?_eq_none (show 0xE0 ≤ a.toNat by omega),
      triple?_eq_none (show 0xF0 ≤ a.toNat by omega),
      quadruple?_eq_some_iff.mpr bytes]

/-- Nothing is lost between the pieces of a byte string. -/
theorem readFrom_bytes (seen : Array Piece) (bytes : List UInt8) :
    (readFrom seen bytes).toList.flatMap Piece.bytes =
      seen.toList.flatMap Piece.bytes ++ bytes := by
  fun_induction readFrom seen bytes with
  | case1 | case3 =>
      simp
  | case2 seen a rest ascii inductionHypothesis =>
      simp [inductionHypothesis]
  | case4 seen a beyond b₁ rest c found inductionHypothesis =>
      simp [inductionHypothesis]
  | case5 seen a beyond b₁ stray inductionHypothesis =>
      simp [inductionHypothesis]
  | case6 seen a beyond b₁ noPair b₂ rest c found inductionHypothesis =>
      simp [inductionHypothesis]
  | case7 seen a beyond b₁ noPair b₂ stray inductionHypothesis =>
      simp [inductionHypothesis]
  | case8 seen a beyond b₁ noPair b₂ noTriple b₃ rest c found
      inductionHypothesis =>
      simp [inductionHypothesis]
  | case9 seen a beyond b₁ noPair b₂ noTriple b₃ rest stray
      inductionHypothesis =>
      simp [inductionHypothesis]

/-- A piece that shows a character consists of its bytes. -/
def Piece.Sound (p : Piece) : Prop :=
  ∀ c, p.char = some c → p.bytes = String.utf8EncodeChar c

theorem sound_stray (bytes : List UInt8) : Piece.Sound ⟨none, bytes⟩ := by
  rintro c ⟨⟩

theorem sound_char {bytes : List UInt8}
    (encoded : String.utf8EncodeChar c = bytes) :
    Piece.Sound ⟨some c, bytes⟩ := by
  rintro _ ⟨⟩
  exact encoded.symm

theorem readFrom_sound (seen : Array Piece) (bytes : List UInt8)
    (before : ∀ p ∈ seen, p.Sound) :
    ∀ p ∈ readFrom seen bytes, p.Sound := by
  fun_induction readFrom seen bytes with
  | case1 =>
      exact before
  | case2 seen a rest ascii inductionHypothesis =>
      have small := ascii_iff.mp ascii
      have valid : a.toNat.isValidChar := by
        simp only [Nat.isValidChar]
        omega
      have number := (ofNat_eq_iff valid).mp rfl
      exact inductionHypothesis (Array.forall_mem_push.mpr
        ⟨sound_char (encodeChar_eq_one_iff.mpr (by omega)), before⟩)
  | case3 seen a beyond =>
      exact Array.forall_mem_push.mpr ⟨sound_stray _, before⟩
  | case4 seen a beyond b₁ rest c found inductionHypothesis =>
      exact inductionHypothesis
        (Array.forall_mem_push.mpr
          ⟨sound_char (pair?_eq_some_iff.mp found), before⟩)
  | case6 seen a beyond b₁ noPair b₂ rest c found inductionHypothesis =>
      exact inductionHypothesis
        (Array.forall_mem_push.mpr
          ⟨sound_char (triple?_eq_some_iff.mp found), before⟩)
  | case8 seen a beyond b₁ noPair b₂ noTriple b₃ rest c found
      inductionHypothesis =>
      exact inductionHypothesis
        (Array.forall_mem_push.mpr
          ⟨sound_char (quadruple?_eq_some_iff.mp found), before⟩)
  | case5 seen a beyond b₁ stray inductionHypothesis =>
      exact inductionHypothesis
        (Array.forall_mem_push.mpr ⟨sound_stray _, before⟩)
  | case7 seen a beyond b₁ noPair b₂ stray inductionHypothesis =>
      exact inductionHypothesis
        (Array.forall_mem_push.mpr ⟨sound_stray _, before⟩)
  | case9 seen a beyond b₁ noPair b₂ noTriple b₃ rest stray
      inductionHypothesis =>
      exact inductionHypothesis
        (Array.forall_mem_push.mpr ⟨sound_stray _, before⟩)

end Characters

/-! ## Texts -/

theorem readFrom_ofList (seen : Array Piece) (cs : List Char) :
    (readFrom seen (cs.flatMap String.utf8EncodeChar)).toList =
      seen.toList ++
        cs.map fun c => ⟨some c, String.utf8EncodeChar c⟩ := by
  induction cs generalizing seen with
  | nil =>
      simp [readFrom]
  | cons c rest inductionHypothesis =>
      rw [List.flatMap_cons, readFrom_encodeChar, inductionHypothesis]
      simp

/-- Pieces that all show characters consist of the bytes of these. -/
theorem flatMap_bytes_of_chars {pieces : List Piece} {cs : List Char}
    (sound : ∀ p ∈ pieces, p.Sound)
    (shown : pieces.map Piece.char = cs.map some) :
    pieces.flatMap Piece.bytes = cs.flatMap String.utf8EncodeChar := by
  induction pieces generalizing cs with
  | nil =>
      cases cs with
      | nil =>
          rfl
      | cons c rest =>
          cases shown
  | cons p pieces inductionHypothesis =>
      cases cs with
      | nil =>
          cases shown
      | cons c cs =>
          simp only [List.map_cons, List.cons.injEq] at shown
          rw [List.flatMap_cons, List.flatMap_cons,
            sound p List.mem_cons_self c shown.1,
            inductionHypothesis
              (fun q member => sound q (List.mem_cons_of_mem p member))
              shown.2]

/-- A byte string reads as a text exactly if it is what the text is written
as. -/
theorem text?_eq_some_iff {bytes : List UInt8} {s : String} :
    text? bytes = some s ↔ bytes = ofString s := by
  simp only [text?, chars?, Option.map_eq_some_iff, mapM_eq_some_iff]
  constructor
  · rintro ⟨cs, shown, rfl⟩
    have sound : ∀ p ∈ (read bytes).toList, p.Sound := by
      intro p member
      exact readFrom_sound #[] bytes (by simp) p
        (Array.mem_toList_iff.mp member)
    have whole : (read bytes).toList.flatMap Piece.bytes = bytes :=
      readFrom_bytes #[] bytes
    rw [ofString, String.toList_ofList, ← whole]
    exact flatMap_bytes_of_chars sound shown
  · rintro rfl
    refine ⟨s.toList, ?_, String.ofList_toList⟩
    rw [read, ofString, readFrom_ofList]
    simp

theorem ofString_inj {s t : String} (same : ofString s = ofString t) :
    s = t :=
  Option.some.inj ((text?_eq_some_iff.mpr rfl).symm.trans
    (text?_eq_some_iff.mpr same))

/-! ## Reading from the front -/

/-- The character that a piece shows. -/
def Piece.shown (p : Piece) : Char := p.char.getD replacement

section Front

variable {a : UInt8} {c : Char} {rest : List UInt8}

theorem encodeChar_of_small (small : c.toNat < 0x80) :
    String.utf8EncodeChar c = [UInt8.ofNat c.toNat] := by
  rw [encodeChar_eq_one_iff, UInt8.toNat_ofNat', Nat.mod_eq_of_lt (by omega)]
  omega

/-- The number of a byte is that of a character. -/
theorem toNat_ofNat_byte (a : UInt8) :
    (Char.ofNat a.toNat).toNat = a.toNat := by
  have valid : a.toNat.isValidChar := by
    have bound := a.toNat_lt
    simp only [Nat.isValidChar]
    omega
  exact (ofNat_eq_iff valid).mp rfl

theorem encodeChar_ascii (small : a.toNat < 0x80) :
    String.utf8EncodeChar (Char.ofNat a.toNat) = [a] := by
  have number := toNat_ofNat_byte a
  exact encodeChar_eq_one_iff.mpr (by omega)

/-- The bytes of a character are all in ASCII or all outside of it, as the
character is. -/
theorem mem_encodeChar (member : a ∈ String.utf8EncodeChar c) :
    a.toNat < 0x80 ↔ c.toNat < 0x80 := by
  rcases encodeChar_cases c with ⟨b, bytes⟩ | ⟨b, b₁, bytes⟩ |
    ⟨b, b₁, b₂, bytes⟩ | ⟨b, b₁, b₂, b₃, bytes⟩
  · have range := encodeChar_eq_one_iff.mp bytes
    rw [bytes, List.mem_singleton] at member
    subst member
    omega
  · have range := encodeChar_eq_two_iff.mp bytes
    simp only [bytes, List.mem_cons, List.not_mem_nil, or_false] at member
    rcases member with rfl | rfl
    all_goals omega
  · have range := encodeChar_eq_three_iff.mp bytes
    simp only [bytes, List.mem_cons, List.not_mem_nil, or_false] at member
    rcases member with rfl | rfl | rfl
    all_goals omega
  · have range := encodeChar_eq_four_iff.mp bytes
    simp only [bytes, List.mem_cons, List.not_mem_nil, or_false] at member
    rcases member with rfl | rfl | rfl | rfl
    all_goals omega

theorem encodeChar_ne_nil (c : Char) : String.utf8EncodeChar c ≠ [] := by
  rcases encodeChar_cases c with ⟨b, bytes⟩ | ⟨b, b₁, bytes⟩ |
    ⟨b, b₁, b₂, bytes⟩ | ⟨b, b₁, b₂, b₃, bytes⟩
  all_goals simp [bytes]

/-- Whether a byte string starts with a byte of no character. -/
def Stray (bytes : List UInt8) : Prop :=
  ∀ c, ¬ String.utf8EncodeChar c <+: bytes

theorem Stray.beyond (stray : Stray (a :: rest)) : 0x80 ≤ a.toNat := by
  refine Nat.le_of_not_lt fun small => stray (Char.ofNat a.toNat) ?_
  rw [encodeChar_ascii small]
  exact List.prefix_append [a] rest

theorem readFrom_stray (stray : Stray (a :: rest)) (seen : Array Piece) :
    readFrom seen (a :: rest) = readFrom (seen.push ⟨none, [a]⟩) rest := by
  have beyond : ¬ a < 0x80 := fun small => by
    have large := stray.beyond
    rw [ascii_iff] at small
    omega
  have noPair (b₁ : UInt8) (more : List UInt8) (same : rest = b₁ :: more) :
      pair? a b₁ = none := by
    refine Option.eq_none_iff_forall_not_mem.mpr fun c found => stray c ?_
    rw [pair?_eq_some_iff.mp found, same]
    exact List.prefix_append [a, b₁] more
  have noTriple (b₁ b₂ : UInt8) (more : List UInt8)
      (same : rest = b₁ :: b₂ :: more) : triple? a b₁ b₂ = none := by
    refine Option.eq_none_iff_forall_not_mem.mpr fun c found => stray c ?_
    rw [triple?_eq_some_iff.mp found, same]
    exact List.prefix_append [a, b₁, b₂] more
  have noQuadruple (b₁ b₂ b₃ : UInt8) (more : List UInt8)
      (same : rest = b₁ :: b₂ :: b₃ :: more) :
      quadruple? a b₁ b₂ b₃ = none := by
    refine Option.eq_none_iff_forall_not_mem.mpr fun c found => stray c ?_
    rw [quadruple?_eq_some_iff.mp found, same]
    exact List.prefix_append [a, b₁, b₂, b₃] more
  rw [readFrom.eq_def seen]
  simp only [beyond, if_false]
  split
  · rw [readFrom]
  · rename_i b₁ rest₁
    rw [noPair b₁ rest₁ rfl]
    dsimp only
    split
    · rfl
    · rename_i b₂ rest₂
      rw [noTriple b₁ b₂ rest₂ rfl]
      dsimp only
      split
      · rfl
      · rename_i b₃ rest₃
        rw [noQuadruple b₁ b₂ b₃ rest₃ rfl]

theorem stray_or_char (a : UInt8) (rest : List UInt8) :
    Stray (a :: rest) ∨
      ∃ c behind, String.utf8EncodeChar c ++ behind = a :: rest := by
  by_cases stray : Stray (a :: rest)
  · exact .inl stray
  · exact .inr (by simpa [Stray, List.IsPrefix] using stray)

/-- A byte string is read character by character, and byte by byte where there
is none. -/
theorem read_induction {motive : List UInt8 → Prop} (nil : motive [])
    (char : ∀ c rest, motive rest → motive (String.utf8EncodeChar c ++ rest))
    (stray : ∀ a rest, Stray (a :: rest) → motive rest → motive (a :: rest))
    (bytes : List UInt8) : motive bytes := by
  match bytes with
  | [] =>
      exact nil
  | a :: rest =>
      rcases stray_or_char a rest with none | ⟨c, behind, whole⟩
      · exact stray a rest none (read_induction nil char stray rest)
      · have shorter : behind.length < rest.length + 1 := by
          have positive := List.length_pos_iff.mpr (encodeChar_ne_nil c)
          rw [← List.length_cons, ← whole, List.length_append]
          omega
        rw [← whole]
        exact char c behind (read_induction nil char stray behind)
termination_by bytes.length

theorem readFrom_eq_append (seen : Array Piece) (bytes : List UInt8) :
    readFrom seen bytes = seen ++ read bytes := by
  induction bytes using read_induction generalizing seen with
  | nil =>
      simp [read, readFrom]
  | char c rest inductionHypothesis =>
      rw [read, readFrom_encodeChar, readFrom_encodeChar, inductionHypothesis,
        inductionHypothesis (#[].push _)]
      simp
  | stray a rest stray inductionHypothesis =>
      rw [read, readFrom_stray stray, readFrom_stray stray, inductionHypothesis,
        inductionHypothesis (#[].push _)]
      simp

@[simp]
theorem read_nil : read [] = #[] := by
  simp [read, readFrom]

theorem read_encodeChar (c : Char) (rest : List UInt8) :
    (read (String.utf8EncodeChar c ++ rest)).toList =
      ⟨some c, String.utf8EncodeChar c⟩ :: (read rest).toList := by
  rw [read, readFrom_encodeChar, readFrom_eq_append]
  simp

theorem read_stray (stray : Stray (a :: rest)) :
    (read (a :: rest)).toList = ⟨none, [a]⟩ :: (read rest).toList := by
  rw [read, readFrom_stray stray, readFrom_eq_append]
  simp

/-- No character begins outside of ASCII and ends with ASCII. -/
theorem Stray.append {behind : List UInt8} (stray : Stray (a :: rest))
    (ascii : ∀ b ∈ behind.head?, b.toNat < 0x80) :
    Stray (a :: rest ++ behind) := by
  intro c front
  rcases List.prefix_or_prefix_of_prefix front (List.prefix_append _ behind)
    with inside | ⟨more, whole⟩
  · exact stray c inside
  · cases more with
    | nil =>
        rw [List.append_nil] at whole
        exact stray c (whole ▸ List.prefix_rfl)
    | cons b more =>
        rw [← whole, List.prefix_self_append_iff] at front
        obtain ⟨left, split⟩ := front
        have small : b.toNat < 0x80 := ascii b (by simp [← split])
        have last : b ∈ String.utf8EncodeChar c := by simp [← whole]
        have first : a ∈ String.utf8EncodeChar c := by simp [← whole]
        have beyond := stray.beyond
        rw [mem_encodeChar last, ← mem_encodeChar first] at small
        omega

/-- Where ASCII follows, the characters of the two parts are counted apart. -/
theorem count_append {behind : List UInt8}
    (ascii : ∀ b ∈ behind.head?, b.toNat < 0x80) (bytes : List UInt8) :
    count (bytes ++ behind) = count bytes + count behind := by
  simp only [count, ← Array.length_toList]
  induction bytes using read_induction with
  | nil =>
      simp
  | char c rest inductionHypothesis =>
      rw [List.append_assoc, read_encodeChar, read_encodeChar,
        List.length_cons, List.length_cons, inductionHypothesis]
      omega
  | stray a rest stray inductionHypothesis =>
      have longer := stray.append ascii
      rw [List.cons_append] at longer ⊢
      rw [read_stray stray, read_stray longer, List.length_cons,
        List.length_cons, inductionHypothesis]
      omega

end Front

end WindowMachine.Utf8
