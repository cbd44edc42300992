import WindowMachine.Cbor.View
import WindowMachine.Proofs.Cbor.Written
import WindowMachine.Proofs.Checks
import WindowMachine.Proofs.Text.Utf8

/-!
# Written items seen as values

An item that was written for a value of some type is seen as that value when
its type is asked for.  A record gives each of its fields by number, and the
zero value for every number that it leaves out.
-/

namespace WindowMachine.Cbor

/-! ## Values -/

theorem integer?_intItem {low high i : Int} (lower : low ≤ i)
    (upper : i ≤ high) : integer? low high (intItem i) = some i := by
  unfold intItem
  split
  · simp [integer?, untagged?]
    omega
  · simp [integer?, untagged?]
    omega

theorem int64?_intItem (i : Int64) :
    int64? (intItem i.toInt) = some i := by
  have lower := i.le_toInt
  have upper := i.toInt_lt
  rw [int64?, integer?_intItem (by omega) (by omega), Option.map_some,
    Int64.ofInt_toInt]

theorem int32?_intItem (i : Int32) :
    int32? (intItem i.toInt) = some i := by
  have lower := i.le_toInt
  have upper := i.toInt_lt
  rw [int32?, integer?_intItem (by omega) (by omega), Option.map_some,
    Int32.ofInt_toInt]

theorem uint32?_intItem (w : UInt32) :
    uint32? (intItem w.toNat) = some w := by
  have upper := w.toNat_lt
  have small : ((w.toNat : Int) % 2 ^ 32).toNat = w.toNat := by omega
  rw [uint32?, integer?_intItem (by omega) (by omega), Option.map_some,
    UInt32.ofInt, small, UInt32.ofNat_toNat]

theorem text?_textItem (s : String) : text? (textItem s) = some s := by
  have read : Utf8.text? (Utf8.ofString s) = some s :=
    Utf8.text?_eq_some_iff.mpr rfl
  simp [text?, textItem, untagged?, joined?, read, String.join]

theorem list?_array {α : Type} {element? : Item → Option α}
    {item : α → Item} {xs : List α}
    (seen : ∀ x ∈ xs, element? (item x) = some x) :
    list? element? (.array (xs.map item)) = some (some xs) := by
  have all : (xs.map item).mapM element? = some xs := by
    rw [mapM_eq_some_iff, List.map_map]
    exact List.map_congr_left seen
  simp [list?, untagged?, all]

theorem digest?_bytes (d : Digest) : digest? (.bytes d.toList) = some d := by
  have same : Digest.ofBytes d.toList = d := by
    apply Vector.ext
    intro i inside
    simp [Digest.ofBytes]
  simp [digest?, untagged?, same]

/-! ## Records -/

/-- The fields of a record as they are seen. -/
def viewed (fields : List Field) : List (Key × Item) :=
  fields.map fun f => (.field f.number, f.item)

theorem fields?_record (fields : List Field) :
    fields? (record fields) = some (viewed fields) := by
  simp only [fields?, record, untagged?, Option.bind_eq_bind,
    Option.bind_some]
  rw [mapM_eq_some_iff, viewed, List.map_map, List.map_map]
  rfl

/-- A field that is left out on a condition. -/
def unlessAbsent (absent : Bool) (f : Field) : List Field :=
  if absent then [] else [f]

theorem mem_unlessAbsent {absent : Bool} {f g : Field} :
    g ∈ unlessAbsent absent f ↔ absent = false ∧ g = f := by
  cases absent <;> simp [unlessAbsent]

theorem length_unlessAbsent_le (absent : Bool) (f : Field) :
    (unlessAbsent absent f).length ≤ 1 := by
  cases absent <;> simp [unlessAbsent]

section Fields

variable {α : Type} (value? : Item → Option α) (zero : α) (number : Nat)

theorem field?_viewed_cons (f : Field) (rest : List Field) :
    field? value? zero number (viewed (f :: rest)) =
      if number = f.number then value? f.item
      else field? value? zero number (viewed rest) := by
  simp only [field?, viewed, List.map_cons, List.lookup_cons]
  by_cases same : number = f.number
  · simp [same]
  · have differ : (Key.field number == Key.field f.number) = false := by
      simpa using same
    simp [same, differ]

theorem field?_viewed_unlessAbsent (absent : Bool) (f : Field)
    (rest : List Field) :
    field? value? zero number (viewed (unlessAbsent absent f ++ rest)) =
      if number = f.number ∧ absent = false then value? f.item
      else field? value? zero number (viewed rest) := by
  cases absent with
  | true =>
      simp [unlessAbsent]
  | false =>
      simp [unlessAbsent, field?_viewed_cons]

end Fields

end WindowMachine.Cbor
