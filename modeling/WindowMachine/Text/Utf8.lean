/-!
Bytes as text. Reading is lenient: a byte that begins no well-formed sequence counts as one
character of its own, and the next sequence starts right after it.
-/

namespace WindowMachine.Utf8

/-- The character that stands for a byte outside every well-formed sequence. -/
def replacement : Char := Char.ofNat 0xFFFD

/-- A continuation byte. -/
def isTail (b : UInt8) : Bool := 0x80 ≤ b && b ≤ 0xBF

/-- The six payload bits of a continuation byte. -/
def tailBits (b : UInt8) : Nat := b.toNat % 64

/-- The character of a two-byte sequence. -/
def pair? (a b : UInt8) : Option Char :=
  if 0xC2 ≤ a && a ≤ 0xDF && isTail b then
    some (Char.ofNat (a.toNat % 32 * 64 + tailBits b))
  else none

/-- The character of a three-byte sequence: no overlong form and no surrogate. -/
def triple? (a b c : UInt8) : Option Char :=
  let second :=
    if a == 0xE0 then 0xA0 ≤ b && b ≤ 0xBF
    else if a == 0xED then 0x80 ≤ b && b ≤ 0x9F
    else 0xE1 ≤ a && a ≤ 0xEF && isTail b
  if second && isTail c then
    some (Char.ofNat (a.toNat % 16 * 4096 + tailBits b * 64 + tailBits c))
  else none

/-- The character of a four-byte sequence, at most U+10FFFF. -/
def quadruple? (a b c d : UInt8) : Option Char :=
  let second :=
    if a == 0xF0 then 0x90 ≤ b && b ≤ 0xBF
    else if a == 0xF4 then 0x80 ≤ b && b ≤ 0x8F
    else 0xF1 ≤ a && a ≤ 0xF3 && isTail b
  if second && isTail c && isTail d then
    some (Char.ofNat
      (a.toNat % 8 * 262144 + tailBits b * 4096 + tailBits c * 64 + tailBits d))
  else none

/-- One character of a byte string, or one stray byte. -/
structure Piece where
  char : Option Char
  bytes : List UInt8
  deriving DecidableEq, Repr

/-- The pieces of a byte string after those in `seen`. -/
def readFrom (seen : Array Piece) : List UInt8 → Array Piece
  | [] => seen
  | a :: rest =>
    if a < 0x80 then readFrom (seen.push ⟨some (Char.ofNat a.toNat), [a]⟩) rest
    else
      match rest with
      | [] => seen.push ⟨none, [a]⟩
      | b :: rest₂ =>
        match pair? a b with
        | some ch => readFrom (seen.push ⟨some ch, [a, b]⟩) rest₂
        | none =>
          match rest₂ with
          | [] => readFrom (seen.push ⟨none, [a]⟩) (b :: [])
          | c :: rest₃ =>
            match triple? a b c with
            | some ch => readFrom (seen.push ⟨some ch, [a, b, c]⟩) rest₃
            | none =>
              match rest₃ with
              | [] => readFrom (seen.push ⟨none, [a]⟩) (b :: c :: [])
              | d :: rest₄ =>
                match quadruple? a b c d with
                | some ch => readFrom (seen.push ⟨some ch, [a, b, c, d]⟩) rest₄
                | none => readFrom (seen.push ⟨none, [a]⟩) (b :: c :: d :: rest₄)

/-- The pieces of a byte string. -/
def read (bytes : List UInt8) : Array Piece :=
  readFrom #[] bytes

/-- The characters of a byte string, with stray bytes replaced. -/
def chars (bytes : List UInt8) : List Char :=
  (read bytes).toList.map fun p => p.char.getD replacement

/-- How many characters a byte string shows. -/
def count (bytes : List UInt8) : Nat :=
  (read bytes).size

/-- The characters of a byte string without stray bytes. -/
def chars? (bytes : List UInt8) : Option (List Char) :=
  (read bytes).toList.mapM Piece.char

/-- The text of a byte string without stray bytes. -/
def text? (bytes : List UInt8) : Option String :=
  (chars? bytes).map String.ofList

/-- The text of a byte string, with stray bytes replaced. -/
def text (bytes : List UInt8) : String :=
  String.ofList (chars bytes)

/-- A byte string without the characters at its ends that satisfy a test. -/
def trimmed (test : Char → Bool) (bytes : List UInt8) : List UInt8 :=
  let outer (p : Piece) : Bool := p.char.any test
  let front := (read bytes).toList.dropWhile outer
  (front.reverse.dropWhile outer).reverse.flatMap Piece.bytes

/-- The bytes of a text. -/
def ofString (s : String) : List UInt8 :=
  s.toList.flatMap String.utf8EncodeChar

end WindowMachine.Utf8
