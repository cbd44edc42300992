import WindowMachine.Cbor.Item
import WindowMachine.Digest
import WindowMachine.Text.Numeral
import WindowMachine.Text.Utf8

/-!
Data items seen as values of a wanted type. A null or undefined item is the zero value of
every type. Tags are looked through, except for the two of large numbers; a tag whose content
has the wrong type is refused.
-/

namespace WindowMachine.Cbor

/-- The item under its tags. The tags 0 to 3 ask for a type of content: a text, a number, and
twice a byte string, which together with its tag is a number. -/
def untagged? : Item → Option Item
  | .tag 0 content =>
    match content with
    | .text chunks => some (.text chunks)
    | _ => none
  | .tag 1 content =>
    match content with
    | .unsigned n => some (.unsigned n)
    | .negative n => some (.negative n)
    | .float bits => some (.float bits)
    | _ => none
  | .tag 2 content =>
    match content with
    | .bytes b => some (.tag 2 (.bytes b))
    | _ => none
  | .tag 3 content =>
    match content with
    | .bytes b => some (.tag 3 (.bytes b))
    | _ => none
  | .tag _ content => untagged? content
  | item => some item

/-- Whether a simple value stands for no value. -/
def isNull (n : Nat) : Bool := n == 22 || n == 23

/-- An integer within bounds. A simple value other than a truth value counts as its number. -/
def integer? (low high : Int) (item : Item) : Option Int := do
  let value : Int ←
    match ← untagged? item with
    | .unsigned n => some (n : Int)
    | .negative n => some (-1 - (n : Int))
    | .tag 2 (.bytes b) => some (bigEndian b : Int)
    | .tag 3 (.bytes b) => some (-1 - (bigEndian b : Int))
    | .simple n =>
      if isNull n then some 0 else if n == 20 || n == 21 then none else some (n : Int)
    | _ => none
  if low ≤ value ∧ value ≤ high then some value else none

/-- An integer of 64 bits with a sign. -/
def int64? (item : Item) : Option Int64 :=
  (integer? (-0x8000000000000000) 0x7FFFFFFFFFFFFFFF item).map Int64.ofInt

/-- An integer of 32 bits with a sign. -/
def int32? (item : Item) : Option Int32 :=
  (integer? (-0x80000000) 0x7FFFFFFF item).map Int32.ofInt

/-- An integer of 32 bits without a sign. -/
def uint32? (item : Item) : Option UInt32 :=
  (integer? 0 0xFFFFFFFF item).map UInt32.ofInt

/-- An integer of 8 bits without a sign. -/
def uint8? (item : Item) : Option UInt8 :=
  (integer? 0 255 item).map UInt8.ofInt

/-- The text of chunks each of which is well formed. -/
def joined? (chunks : List (List UInt8)) : Option String :=
  (chunks.mapM Utf8.text?).map String.join

/-- A text. -/
def text? (item : Item) : Option String := do
  match ← untagged? item with
  | .text chunks => joined? chunks
  | .simple n => if isNull n then some "" else none
  | _ => none

/-- A list, which may also be absent, of elements that all have the wanted type. -/
def list? {α : Type} (element? : Item → Option α) (item : Item) : Option (Option (List α)) := do
  match ← untagged? item with
  | .array items => return some (← items.mapM element?)
  | .simple n => if isNull n then some none else none
  | _ => none

/-- A digest, from a byte string or an array of small numbers; surplus elements are not looked
at and missing ones are zero. -/
def digest? (item : Item) : Option Digest := do
  match ← untagged? item with
  | .bytes b | .tag 2 (.bytes b) | .tag 3 (.bytes b) => return Digest.ofBytes b
  | .array items => return Digest.ofBytes (← (items.take 32).mapM uint8?)
  | .simple n => if isNull n then some (Digest.ofBytes []) else none
  | _ => none

/-! ## Records -/

/-- What a map key says about a record of numbered fields. -/
inductive Key where
  | field (number : Nat)
  | unknown
  deriving DecidableEq, Repr

/-- A map key: a number, or a text that spells one. -/
def key? : Item → Option Key
  | .unsigned n => some (.field n)
  | .negative n => if n < 0x8000000000000000 then some .unknown else none
  | .text chunks =>
    (joined? chunks).map fun name =>
      match (List.range 10).find? fun n => Numeral.ofNat n == name with
      | some n => .field n
      | none => .unknown
  | _ => none

/-- The fields of a record: every key must be a number or a text. -/
def fields? (item : Item) : Option (List (Key × Item)) := do
  match ← untagged? item with
  | .map entries => entries.mapM fun (key, value) => (key? key).map fun k => (k, value)
  | .simple n => if isNull n then some [] else none
  | _ => none

/-- The value of a numbered field, the first one if there are several. An absent field has the
zero value. -/
def field? {α : Type} (value? : Item → Option α) (zero : α) (number : Nat)
    (fields : List (Key × Item)) : Option α :=
  match fields.lookup (.field number) with
  | some item => value? item
  | none => some zero

end WindowMachine.Cbor
