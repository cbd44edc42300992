import Mathlib.Algebra.Group.Int.Defs
import Mathlib.Algebra.Group.Nat.Defs
import WindowMachine.Cbor.Item
import WindowMachine.Cbor.Writer

/-!
# Written items are read back

Every writer spells an item: whatever stands behind its bytes, the item is
read and the rest is left over.  An array or a map spells its item if its
elements spell theirs, one level deeper.

The heads have arguments below `2 ^ 64`, because a larger one loses its upper
bytes.
-/

namespace WindowMachine.Cbor

/-! ## Numbers -/

theorem bigEndian_append_singleton (bytes : List UInt8) (b : UInt8) :
    bigEndian (bytes ++ [b]) = 256 * bigEndian bytes + b.toNat := by
  simp [bigEndian]

theorem bigEndian_bigEndianBytes (count n : Nat) :
    bigEndian (bigEndianBytes count n) = n % 256 ^ count := by
  induction count generalizing n with
  | zero =>
      simp [bigEndianBytes, bigEndian, Nat.mod_one]
  | succ count inductionHypothesis =>
      have digits : n % 256 ^ (count + 1) =
          n % 256 + 256 * (n / 256 % 256 ^ count) := by
        rw [Nat.pow_succ', Nat.mod_mul]
      rw [bigEndianBytes, bigEndian_append_singleton, inductionHypothesis,
        digits, UInt8.toNat_ofNat', Nat.add_comm]

theorem length_bigEndianBytes (count n : Nat) :
    (bigEndianBytes count n).length = count := by
  induction count generalizing n with
  | zero =>
      rfl
  | succ count inductionHypothesis =>
      simp [bigEndianBytes, inductionHypothesis]

theorem split?_append (front rest : List UInt8) :
    split? front.length (front ++ rest) = some (front, rest) := by
  simp [split?]

/-! ## Heads -/

theorem argument?_bigEndianBytes {size n : Nat} (size_lt : size < 4)
    (fits : n < 256 ^ 2 ^ size) (rest : List UInt8) :
    argument? (24 + size) (bigEndianBytes (2 ^ size) n ++ rest) =
      some (.number n, rest) := by
  have wide := split?_append (bigEndianBytes (2 ^ size) n) rest
  rw [length_bigEndianBytes] at wide
  simp only [argument?, show ¬ 24 + size < 24 by omega,
    show 24 + size < 28 by omega, show 24 + size - 24 = size by omega,
    Nat.one_shiftLeft, if_true, if_false, wide]
  change some (Argument.number (bigEndian _), rest) = _
  rw [bigEndian_bigEndianBytes, Nat.mod_eq_of_lt fits]

/-- A head is read as its major type and its argument. -/
theorem head_eq_cons {major : UInt8} {n : Nat} (small : major.toNat < 8)
    (fits : n < 2 ^ 64) :
    ∃ b extra, head major n = b :: extra ∧ b.toNat / 32 = major.toNat ∧
      ∀ rest, argument? (b.toNat % 32) (extra ++ rest) =
        some (.number n, rest) := by
  have top : (major * 32).toNat = 32 * major.toNat := by
    rw [UInt8.toNat_mul]
    change major.toNat * 32 % 256 = _
    omega
  have first (info : Nat) (low : info < 32) :
      (major * 32 + UInt8.ofNat info).toNat =
        32 * major.toNat + info := by
    rw [UInt8.toNat_add, top, UInt8.toNat_ofNat']
    omega
  -- The number of bytes behind the first one is a power of two.
  have wide (size : Nat) (size_lt : size < 4) (inside : n < 256 ^ 2 ^ size) :
      ∃ b extra, (major * 32 + UInt8.ofNat (24 + size)) ::
          bigEndianBytes (2 ^ size) n = b :: extra ∧
        b.toNat / 32 = major.toNat ∧
          ∀ rest, argument? (b.toNat % 32) (extra ++ rest) =
            some (.number n, rest) := by
    refine ⟨_, _, rfl, ?_, ?_⟩
    · rw [first _ (by omega)]
      omega
    · intro rest
      rw [first _ (by omega),
        show (32 * major.toNat + (24 + size)) % 32 = 24 + size by omega]
      exact argument?_bigEndianBytes size_lt inside rest
  simp only [head]
  split
  · rename_i direct
    refine ⟨_, _, rfl, ?_, ?_⟩
    · rw [first _ (by omega)]
      omega
    · intro rest
      rw [first _ (by omega),
        show (32 * major.toNat + n) % 32 = n by omega]
      simp [argument?, direct]
  · split
    · exact wide 0 (by omega) (by omega)
    · split
      · exact wide 1 (by omega) (by omega)
      · split
        · exact wide 2 (by omega) (by omega)
        · exact wide 3 (by omega) (by omega)

section Heads

variable {n : Nat} (fits : n < 2 ^ 64) (fuel depth : Nat)
  (rest : List UInt8)

include fits

theorem item?_head_unsigned :
    item? (fuel + 1) depth (head 0 n ++ rest) =
      some (.unsigned n, rest) := by
  obtain ⟨b, extra, same, major, argument⟩ :=
    head_eq_cons (show (0 : UInt8).toNat < 8 by decide) fits
  rw [same, List.cons_append, item?]
  simp [major, argument]

theorem item?_head_negative :
    item? (fuel + 1) depth (head 1 n ++ rest) =
      some (.negative n, rest) := by
  obtain ⟨b, extra, same, major, argument⟩ :=
    head_eq_cons (show (1 : UInt8).toNat < 8 by decide) fits
  rw [same, List.cons_append, item?]
  simp [major, argument]

theorem item?_head_bytes :
    item? (fuel + 1) depth (head 2 n ++ rest) =
      (string? 2 (.number n) rest).map fun (chunks, rest) =>
        (.bytes chunks.flatten, rest) := by
  obtain ⟨b, extra, same, major, argument⟩ :=
    head_eq_cons (show (2 : UInt8).toNat < 8 by decide) fits
  rw [same, List.cons_append, item?]
  simp [major, argument]

theorem item?_head_text :
    item? (fuel + 1) depth (head 3 n ++ rest) =
      (string? 3 (.number n) rest).map fun (chunks, rest) =>
        (.text chunks, rest) := by
  obtain ⟨b, extra, same, major, argument⟩ :=
    head_eq_cons (show (3 : UInt8).toNat < 8 by decide) fits
  rw [same, List.cons_append, item?]
  simp [major, argument]

theorem item?_head_array (inside : depth < maxDepth) :
    item? (fuel + 1) depth (head 4 n ++ rest) =
      items? fuel (depth + 1) (.number n) #[] rest := by
  obtain ⟨b, extra, same, major, argument⟩ :=
    head_eq_cons (show (4 : UInt8).toNat < 8 by decide) fits
  rw [same, List.cons_append, item?]
  simp [major, argument, Nat.not_le.mpr inside]

theorem item?_head_map (inside : depth < maxDepth) :
    item? (fuel + 1) depth (head 5 n ++ rest) =
      entries? fuel (depth + 1) (.number n) #[] rest := by
  obtain ⟨b, extra, same, major, argument⟩ :=
    head_eq_cons (show (5 : UInt8).toNat < 8 by decide) fits
  rw [same, List.cons_append, item?]
  simp [major, argument, Nat.not_le.mpr inside]

end Heads

/-! ## Spelling an item -/

/-- Bytes spell an item with a number of levels if they are read as the item,
whatever stands behind them. -/
structure Spells (levels : Nat) (bytes : List UInt8) (item : Item) :
    Prop where
  read (fuel depth : Nat) (rest : List UInt8) :
    2 * bytes.length ≤ fuel → depth + levels ≤ maxDepth →
    item? fuel depth (bytes ++ rest) = some (item, rest)

theorem Spells.length_pos {levels : Nat} {bytes : List UInt8} {item : Item}
    (spells : Spells levels bytes item) (inside : levels ≤ maxDepth) :
    0 < bytes.length := by
  cases bytes with
  | nil =>
      have read := spells.read 0 0 [] (Nat.le_refl 0) (by omega)
      simp [item?] at read
  | cons b rest =>
      simp

theorem Spells.mono {levels more : Nat} {bytes : List UInt8} {item : Item}
    (spells : Spells levels bytes item) (le : levels ≤ more) :
    Spells more bytes item where
  read := by
    intro fuel depth rest enough inside
    exact spells.read fuel depth rest enough (by omega)

theorem spells_of_succ {levels : Nat} {bytes : List UInt8} {item : Item}
    (nonempty : 0 < bytes.length)
    (read : ∀ fuel depth rest, 2 * bytes.length ≤ fuel + 1 →
      depth + levels ≤ maxDepth →
      item? (fuel + 1) depth (bytes ++ rest) = some (item, rest)) :
    Spells levels bytes item where
  read := by
    intro fuel depth rest enough inside
    cases fuel with
    | zero =>
        omega
    | succ fuel =>
        exact read fuel depth rest enough inside

theorem length_head_pos (major : UInt8) (n : Nat) :
    0 < (head major n).length := by
  simp only [head]
  split
  · simp
  · split
    · simp
    · split
      · simp
      · split <;> simp

/-! ## Leaves -/

/-- An integer as an item. -/
def intItem (i : Int) : Item :=
  if i < 0 then .negative (-1 - i).toNat else .unsigned i.toNat

/-- A text as an item. -/
def textItem (s : String) : Item := .text [Utf8.ofString s]

theorem spells_writeInt {i : Int} (lower : -2 ^ 64 ≤ i)
    (upper : i < 2 ^ 64) : Spells 0 (writeInt i) (intItem i) := by
  unfold writeInt intItem
  split
  · apply spells_of_succ (length_head_pos _ _)
    intro fuel depth rest _ _
    exact item?_head_negative (by omega) fuel depth rest
  · apply spells_of_succ (length_head_pos _ _)
    intro fuel depth rest _ _
    exact item?_head_unsigned (by omega) fuel depth rest

theorem string?_append (major : Nat) (content rest : List UInt8) :
    string? major (.number content.length) (content ++ rest) =
      some ([content], rest) := by
  simp [string?, split?_append]

theorem spells_writeBytes {content : List UInt8}
    (fits : content.length < 2 ^ 64) :
    Spells 0 (writeBytes content) (.bytes content) := by
  apply spells_of_succ
  · have := length_head_pos 2 content.length
    simp [writeBytes]
    omega
  · intro fuel depth rest _ _
    rw [writeBytes, List.append_assoc, item?_head_bytes fits,
      string?_append]
    simp

theorem spells_writeText {s : String}
    (fits : (Utf8.ofString s).length < 2 ^ 64) :
    Spells 0 (writeText s) (textItem s) := by
  apply spells_of_succ
  · have := length_head_pos 3 (Utf8.ofString s).length
    simp [writeText]
    omega
  · intro fuel depth rest _ _
    simp only [writeText]
    rw [List.append_assoc, item?_head_text fits, string?_append]
    rfl

theorem spells_writeNull : Spells 0 writeNull (.simple 22) := by
  apply spells_of_succ (by decide)
  intro fuel depth rest _ _
  simp [writeNull, item?, primitive?]

/-! ## Arrays -/

section Elements

variable {α : Type} {write : α → List UInt8} {item : α → Item}
  {levels : Nat}

/-- Elements that are spelled one after the other are read one after the
other. -/
theorem items?_of_spells (xs : List α)
    (spells : ∀ x ∈ xs, Spells levels (write x) (item x))
    (fuel depth : Nat) (seen : Array Item) (rest : List UInt8)
    (enough : 2 * (xs.map write).flatten.length < fuel)
    (inside : depth + levels ≤ maxDepth)
    (few : seen.size + xs.length ≤ maxElements) :
    items? fuel depth (.number xs.length) seen
        ((xs.map write).flatten ++ rest) =
      some (.array (seen.toList ++ xs.map item), rest) := by
  induction xs generalizing fuel seen with
  | nil =>
      obtain ⟨fuel, rfl⟩ := Nat.exists_eq_add_one_of_ne_zero
        (show fuel ≠ 0 by omega)
      simp at few
      simp [items?, Nat.not_lt.mpr few]
  | cons x xs inductionHypothesis =>
      obtain ⟨fuel, rfl⟩ := Nat.exists_eq_add_one_of_ne_zero
        (show fuel ≠ 0 by omega)
      have first := spells x List.mem_cons_self
      have positive := first.length_pos (by omega)
      simp only [List.map_cons, List.flatten_cons, List.length_append,
        List.length_cons] at enough few ⊢
      have head := first.read fuel depth
        ((xs.map write).flatten ++ rest) (by omega) inside
      have tail := inductionHypothesis
        (fun y member => spells y (List.mem_cons_of_mem x member))
        fuel (seen.push (item x)) (by omega) (by simp; omega)
      simp only [items?, List.append_assoc, head,
        show ¬ maxElements < seen.size by omega, if_false]
      rw [Nat.add_sub_cancel, tail]
      simp

theorem spells_writeArray (xs : List α)
    (spells : ∀ x ∈ xs, Spells levels (write x) (item x))
    (few : xs.length ≤ maxElements) :
    Spells (levels + 1) (writeArray (xs.map write))
      (.array (xs.map item)) := by
  have small : xs.length < 2 ^ 64 := by
    simp only [maxElements] at few
    omega
  have positive := length_head_pos 4 xs.length
  apply spells_of_succ
  · simp only [writeArray, List.length_append, List.length_map]
    omega
  · intro fuel depth rest enough inside
    simp only [writeArray, List.length_append, List.length_map] at enough ⊢
    rw [List.append_assoc, item?_head_array small fuel depth _ (by omega)]
    have read := items?_of_spells xs spells fuel (depth + 1) #[] rest
      (by omega) (by omega) (by simpa using few)
    simpa using read

end Elements

/-! ## Records -/

/-- A field of a record: its number, and its value as bytes and as an
item. -/
structure Field where
  number : Nat
  bytes : List UInt8
  item : Item

/-- Whether the value of a field is spelled by its bytes. -/
def Field.Spelled (levels : Nat) (f : Field) : Prop :=
  f.number < 2 ^ 64 ∧ Spells levels f.bytes f.item

/-- The bytes of a field, its number first. -/
def Field.written (f : Field) : List UInt8 := head 0 f.number ++ f.bytes

/-- A field as an entry of a map. -/
def Field.entry (f : Field) : Item × Item := (.unsigned f.number, f.item)

/-- A record as an item. -/
def record (fields : List Field) : Item := .map (fields.map Field.entry)

theorem entries?_of_spelled {levels : Nat} (fields : List Field)
    (spelled : ∀ f ∈ fields, f.Spelled levels)
    (fuel depth : Nat) (seen : Array (Item × Item)) (rest : List UInt8)
    (enough : 2 * (fields.flatMap Field.written).length < fuel)
    (inside : depth + levels ≤ maxDepth)
    (few : seen.size + fields.length ≤ maxElements) :
    entries? fuel depth (.number fields.length) seen
        (fields.flatMap Field.written ++ rest) =
      some (.map (seen.toList ++ fields.map Field.entry), rest) := by
  induction fields generalizing fuel seen with
  | nil =>
      obtain ⟨fuel, rfl⟩ := Nat.exists_eq_add_one_of_ne_zero
        (show fuel ≠ 0 by omega)
      simp at few
      simp [entries?, Nat.not_lt.mpr few]
  | cons f fields inductionHypothesis =>
      obtain ⟨small, spells⟩ := spelled f List.mem_cons_self
      have positive := length_head_pos 0 f.number
      have written : f.written = head 0 f.number ++ f.bytes := rfl
      simp only [List.flatMap_cons, written, List.length_append,
        List.length_cons] at enough few ⊢
      -- One step for the record, and another one inside of the key.
      obtain ⟨fuel, rfl⟩ : ∃ less, fuel = less + 1 + 1 :=
        ⟨fuel - 2, by omega⟩
      have value := spells.read (fuel + 1) depth
        (fields.flatMap Field.written ++ rest) (by omega) inside
      have tail := inductionHypothesis
        (fun g member => spelled g (List.mem_cons_of_mem f member))
        (fuel + 1) (seen.push f.entry) (by omega) (by simp; omega)
      simp only [entries?, List.append_assoc,
        item?_head_unsigned small fuel depth, value,
        show ¬ maxElements < seen.size by omega, if_false]
      rw [Nat.add_sub_cancel]
      refine tail.trans ?_
      simp

theorem spells_writeMap {levels : Nat} (fields : List Field)
    (spelled : ∀ f ∈ fields, f.Spelled levels)
    (few : fields.length ≤ maxElements) :
    Spells (levels + 1)
      (writeMap (fields.map fun f => (f.number, f.bytes)))
      (record fields) := by
  have small : fields.length < 2 ^ 64 := by
    simp only [maxElements] at few
    omega
  have positive := length_head_pos 5 fields.length
  have same : writeMap (fields.map fun f => (f.number, f.bytes)) =
      head 5 fields.length ++ fields.flatMap Field.written := by
    simp only [writeMap, List.length_map, List.flatMap_map]
    rfl
  rw [same]
  apply spells_of_succ
  · simp only [List.length_append]
    omega
  · intro fuel depth rest enough inside
    simp only [List.length_append] at enough
    rw [List.append_assoc, item?_head_map small fuel depth _ (by omega)]
    have read := entries?_of_spelled fields spelled fuel (depth + 1) #[] rest
      (by omega) (by omega) (by simpa using few)
    simpa [record] using read

/-- Bytes that spell an item are the whole of it. -/
theorem Spells.read? {levels : Nat} {bytes : List UInt8} {item : Item}
    (spells : Spells levels bytes item) (inside : levels ≤ maxDepth) :
    read? bytes = some item := by
  have read := spells.read (2 * bytes.length + 2) 0 [] (by omega) (by omega)
  rw [List.append_nil] at read
  simp [Cbor.read?, read]

end WindowMachine.Cbor
