/-!
The 256-bit digest of a byte string (SHA-256).
-/

namespace WindowMachine

/-- A digest of 32 bytes. -/
abbrev Digest := Vector UInt8 32

namespace Digest

/-- The first 32 bits of the fractional parts of the cube roots of the first 64 primes. -/
def roundConstants : Array UInt32 :=
  #[0x428a2f98, 0x71374491, 0xb5c0fbcf, 0xe9b5dba5, 0x3956c25b, 0x59f111f1, 0x923f82a4, 0xab1c5ed5,
    0xd807aa98, 0x12835b01, 0x243185be, 0x550c7dc3, 0x72be5d74, 0x80deb1fe, 0x9bdc06a7, 0xc19bf174,
    0xe49b69c1, 0xefbe4786, 0x0fc19dc6, 0x240ca1cc, 0x2de92c6f, 0x4a7484aa, 0x5cb0a9dc, 0x76f988da,
    0x983e5152, 0xa831c66d, 0xb00327c8, 0xbf597fc7, 0xc6e00bf3, 0xd5a79147, 0x06ca6351, 0x14292967,
    0x27b70a85, 0x2e1b2138, 0x4d2c6dfc, 0x53380d13, 0x650a7354, 0x766a0abb, 0x81c2c92e, 0x92722c85,
    0xa2bfe8a1, 0xa81a664b, 0xc24b8b70, 0xc76c51a3, 0xd192e819, 0xd6990624, 0xf40e3585, 0x106aa070,
    0x19a4c116, 0x1e376c08, 0x2748774c, 0x34b0bcb5, 0x391c0cb3, 0x4ed8aa4a, 0x5b9cca4f, 0x682e6ff3,
    0x748f82ee, 0x78a5636f, 0x84c87814, 0x8cc70208, 0x90befffa, 0xa4506ceb, 0xbef9a3f7, 0xc67178f2]

/-- The eight words that are carried from block to block. -/
structure State where
  a : UInt32
  b : UInt32
  c : UInt32
  d : UInt32
  e : UInt32
  f : UInt32
  g : UInt32
  h : UInt32
  deriving DecidableEq, Repr

/-- The first 32 bits of the fractional parts of the square roots of the first 8 primes. -/
def start : State :=
  ⟨0x6a09e667, 0xbb67ae85, 0x3c6ef372, 0xa54ff53a, 0x510e527f, 0x9b05688c, 0x1f83d9ab, 0x5be0cd19⟩

def rotated (x n : UInt32) : UInt32 := (x >>> n) ||| (x <<< (32 - n))

/-- One round with a word of the schedule and its constant. -/
def State.round (s : State) (word constant : UInt32) : State :=
  let choice := (s.e &&& s.f) ^^^ (~~~s.e &&& s.g)
  let majority := (s.a &&& s.b) ^^^ (s.a &&& s.c) ^^^ (s.b &&& s.c)
  let sum1 := rotated s.e 6 ^^^ rotated s.e 11 ^^^ rotated s.e 25
  let sum0 := rotated s.a 2 ^^^ rotated s.a 13 ^^^ rotated s.a 22
  let first := s.h + sum1 + choice + constant + word
  ⟨first + sum0 + majority, s.a, s.b, s.c, s.d + first, s.e, s.f, s.g⟩

def State.add (s t : State) : State :=
  ⟨s.a + t.a, s.b + t.b, s.c + t.c, s.d + t.d, s.e + t.e, s.f + t.f, s.g + t.g, s.h + t.h⟩

def State.words (s : State) : List UInt32 :=
  [s.a, s.b, s.c, s.d, s.e, s.f, s.g, s.h]

/-- Extends a schedule by `n` words. -/
def extended (schedule : Array UInt32) : Nat → Array UInt32
  | 0 => schedule
  | n + 1 =>
    let earlier (back : Nat) : UInt32 := schedule.getD (schedule.size - back) 0
    let w15 := earlier 15
    let w2 := earlier 2
    let small0 := rotated w15 7 ^^^ rotated w15 18 ^^^ (w15 >>> 3)
    let small1 := rotated w2 17 ^^^ rotated w2 19 ^^^ (w2 >>> 10)
    extended (schedule.push (earlier 16 + small0 + earlier 7 + small1)) n

/-- The words of a byte string, most significant byte first. -/
def wordsOf (seen : Array UInt32) : List UInt8 → Array UInt32
  | b0 :: b1 :: b2 :: b3 :: rest =>
    wordsOf (seen.push ((b0.toUInt32 <<< 24) ||| (b1.toUInt32 <<< 16) |||
      (b2.toUInt32 <<< 8) ||| b3.toUInt32)) rest
  | _ => seen

/-- Works a block of sixteen words into the state. -/
def State.absorb (s : State) (block : Array UInt32) : State :=
  let schedule := extended block 48
  s.add ((schedule.zip roundConstants).foldl (fun t (word, constant) => t.round word constant) s)

/-- A length as eight bytes, most significant first. -/
def lengthBytes (bits : Nat) : List UInt8 :=
  (List.range 8).map fun i => UInt8.ofNat (bits >>> (8 * (7 - i)))

/-- A message followed by a one bit, zeros and its length, filling whole blocks. -/
def filled (message : List UInt8) : List UInt8 :=
  let zeros := (119 - message.length % 64) % 64
  message ++ 0x80 :: (List.replicate zeros 0 ++ lengthBytes (8 * message.length))

/-- Works whole blocks into the state, at most `fuel` of them. -/
def absorbAll : Nat → State → List UInt32 → State
  | 0, s, _ => s
  | _, s, [] => s
  | fuel + 1, s, words => absorbAll fuel (s.absorb (words.take 16).toArray) (words.drop 16)

/-- A word as four bytes, most significant first. -/
def bytesOf (w : UInt32) : List UInt8 :=
  [(w >>> 24).toUInt8, (w >>> 16).toUInt8, (w >>> 8).toUInt8, w.toUInt8]

/-- The digest that starts with some bytes; missing ones are zero and surplus ones are cut. -/
def ofBytes (bytes : List UInt8) : Digest :=
  Vector.ofFn fun i => bytes.getD i.val 0

/-- The digest of a message. -/
def sum (message : List UInt8) : Digest :=
  let words := (wordsOf #[] (filled message)).toList
  ofBytes ((absorbAll words.length start words).words.flatMap bytesOf)

end Digest

end WindowMachine
