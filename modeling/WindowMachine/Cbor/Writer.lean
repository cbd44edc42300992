import WindowMachine.Text.Utf8

/-!
Data items written in their canonical form: the shortest heads and definite lengths.
-/

namespace WindowMachine.Cbor

/-- A number as a given count of bytes, most significant first. -/
def bigEndianBytes : Nat → Nat → List UInt8
  | 0, _ => []
  | count + 1, n => bigEndianBytes count (n / 256) ++ [UInt8.ofNat n]

/-- The shortest head of a major type with an argument. -/
def head (major : UInt8) (n : Nat) : List UInt8 :=
  let top := major * 32
  if n < 24 then [top + UInt8.ofNat n]
  else if n < UInt8.size then (top + 24) :: bigEndianBytes 1 n
  else if n < UInt16.size then (top + 25) :: bigEndianBytes 2 n
  else if n < UInt32.size then (top + 26) :: bigEndianBytes 4 n
  else (top + 27) :: bigEndianBytes 8 n

/-- An integer. -/
def writeInt (i : Int) : List UInt8 :=
  if i < 0 then head 1 (-1 - i).toNat else head 0 i.toNat

/-- A byte string. -/
def writeBytes (content : List UInt8) : List UInt8 :=
  head 2 content.length ++ content

/-- A text. -/
def writeText (s : String) : List UInt8 :=
  let content := Utf8.ofString s
  head 3 content.length ++ content

/-- An array of items that are already written. -/
def writeArray (items : List (List UInt8)) : List UInt8 :=
  head 4 items.length ++ items.flatten

/-- A map from small numbers, in the given order, to items that are already written. -/
def writeMap (entries : List (Nat × List UInt8)) : List UInt8 :=
  head 5 entries.length ++ entries.flatMap fun (key, value) => head 0 key ++ value

/-- The item that stands for no value. -/
def writeNull : List UInt8 := [0xF6]

end WindowMachine.Cbor
