import WindowMachine.Cbor.View
import WindowMachine.Proofs.Text.Utf8

/-!
# What is read stays within bounds

However the bytes are laid out, no array that is read has more elements than
allowed, and no text has more bytes than were there.  A reader takes its bytes
off the front, so the bound on the whole holds for every part.
-/

namespace WindowMachine.Cbor

/-- Whether all arrays of an item have at most the allowed number of elements,
and all its texts at most `limit` bytes.  The keys of maps are not looked
at. -/
inductive Item.Within (limit : Nat) : Item → Prop
  | unsigned (n : Nat) : Within limit (.unsigned n)
  | negative (n : Nat) : Within limit (.negative n)
  | bytes (content : List UInt8) : Within limit (.bytes content)
  | text {chunks : List (List UInt8)} :
      chunks.flatten.length ≤ limit → Within limit (.text chunks)
  | array {items : List Item} :
      items.length ≤ maxElements → (∀ item ∈ items, Within limit item) →
      Within limit (.array items)
  | map {entries : List (Item × Item)} :
      (∀ entry ∈ entries, Within limit entry.2) →
      Within limit (.map entries)
  | tag {number : Nat} {content : Item} :
      Within limit content → Within limit (.tag number content)
  | simple (n : Nat) : Within limit (.simple n)
  | float (bits : List UInt8) : Within limit (.float bits)

section Readers

variable {bytes rest : List UInt8}

/-! ## Heads and strings -/

theorem split?_length {n : Nat} {front : List UInt8}
    (read : split? n bytes = some (front, rest)) :
    front.length + rest.length = bytes.length := by
  simp only [split?] at read
  split at read
  · rename_i enough
    simp only [Option.some.injEq, Prod.mk.injEq] at read
    obtain ⟨rfl, rfl⟩ := read
    rw [← List.length_append, List.take_append_drop]
  · cases read

theorem argument?_length {info : Nat} {argument : Argument}
    (read : argument? info bytes = some (argument, rest)) :
    rest.length ≤ bytes.length := by
  simp only [argument?] at read
  split at read
  · cases read
    exact Nat.le_refl _
  · split at read
    · simp only [Option.bind_eq_bind, Option.bind_eq_some_iff,
        Option.pure_def, Option.some.injEq, Prod.mk.injEq] at read
      obtain ⟨⟨front, left⟩, taken, -, rfl⟩ := read
      have length := split?_length taken
      dsimp only
      omega
    · split at read
      · cases read
        exact Nat.le_refl _
      · cases read

theorem chunks?_length {major fuel : Nat} {seen : Array (List UInt8)}
    {chunks : List (List UInt8)}
    (read : chunks? major fuel seen bytes = some (chunks, rest)) :
    chunks.flatten.length + rest.length ≤
      seen.toList.flatten.length + bytes.length := by
  fun_induction chunks? major fuel seen bytes with
  | case1 | case2 | case5 | case6 | case7 =>
      cases read
  | case3 fuel seen bytes =>
      cases read
      simp
  | case4 fuel seen b bytes notBreak sameMajor n afterHead head chunk
      afterChunk taken inductionHypothesis =>
      have headLength := argument?_length head
      have chunkLength := split?_length taken
      have later := inductionHypothesis read
      simp only [Array.toList_push, List.flatten_append, List.length_append,
        List.flatten_cons, List.flatten_nil, List.length_nil,
        List.length_cons] at later ⊢
      omega

theorem string?_length {major : Nat} {argument : Argument}
    {chunks : List (List UInt8)}
    (read : string? major argument bytes = some (chunks, rest)) :
    chunks.flatten.length + rest.length ≤ bytes.length := by
  cases argument with
  | number n =>
      simp only [string?, Option.bind_eq_bind, Option.bind_eq_some_iff,
        Option.pure_def, Option.some.injEq, Prod.mk.injEq] at read
      obtain ⟨⟨content, left⟩, taken, rfl, rfl⟩ := read
      have length := split?_length taken
      simp only [List.flatten_cons, List.flatten_nil, List.append_nil]
      omega
  | indefinite =>
      simpa using chunks?_length read

/-! ## Items -/

theorem primitive?_bounded {info limit : Nat} {item : Item}
    (read : primitive? info bytes = some (item, rest)) :
    item.Within limit ∧ rest.length ≤ bytes.length := by
  simp only [primitive?] at read
  split at read
  · cases read
    exact ⟨.simple info, Nat.le_refl _⟩
  · split at read
    · split at read
      · split at read
        · cases read
          exact ⟨.simple _, by simp⟩
        · cases read
      · cases read
    · split at read
      · simp only [Option.bind_eq_bind, Option.bind_eq_some_iff,
          Option.pure_def, Option.some.injEq, Prod.mk.injEq] at read
        obtain ⟨⟨bits, left⟩, taken, rfl, rfl⟩ := read
        have length := split?_length taken
        dsimp only
        exact ⟨.float bits, by omega⟩
      · cases read

theorem atBreak?_length (ended : atBreak? bytes = some rest) :
    rest.length ≤ bytes.length := by
  cases bytes with
  | nil =>
      cases ended
  | cons b tail =>
      simp only [atBreak?] at ended
      split at ended
      · cases ended
        simp
      · cases ended

end Readers

/-- What the readers of items do with bytes up to a limit when they have some
fuel: they leave no more bytes than they were given, and what they read stays
within the limit. -/
structure Bounded (limit fuel : Nat) : Prop where
  item {depth : Nat} {bytes rest : List UInt8} {item : Item} :
    bytes.length ≤ limit → item? fuel depth bytes = some (item, rest) →
    item.Within limit ∧ rest.length ≤ bytes.length
  items {depth : Nat} {argument : Argument} {seen : Array Item}
    {bytes rest : List UInt8} {item : Item} :
    bytes.length ≤ limit → (∀ element ∈ seen, element.Within limit) →
    items? fuel depth argument seen bytes = some (item, rest) →
    item.Within limit ∧ rest.length ≤ bytes.length
  entries {depth : Nat} {argument : Argument}
    {seen : Array (Item × Item)} {bytes rest : List UInt8} {item : Item} :
    bytes.length ≤ limit → (∀ entry ∈ seen, entry.2.Within limit) →
    entries? fuel depth argument seen bytes = some (item, rest) →
    item.Within limit ∧ rest.length ≤ bytes.length

theorem bounded_zero (limit : Nat) : Bounded limit 0 where
  item := by simp [item?]
  items := by simp [items?]
  entries := by simp [entries?]

section Step

variable {limit fuel : Nat} (bounded : Bounded limit fuel)

include bounded

theorem item?_bounded {depth : Nat} {bytes rest : List UInt8} {item : Item}
    (short : bytes.length ≤ limit)
    (read : item? (fuel + 1) depth bytes = some (item, rest)) :
    item.Within limit ∧ rest.length ≤ bytes.length := by
  cases bytes with
  | nil =>
      simp [item?] at read
  | cons b tail =>
      have shorter : tail.length ≤ limit := by
        simp only [List.length_cons] at short
        omega
      suffices item.Within limit ∧ rest.length ≤ tail.length by
        simp only [List.length_cons]
        exact ⟨this.1, by omega⟩
      simp only [item?] at read
      split at read
      · exact primitive?_bounded read
      · split at read
        · cases read
        · rename_i argument behind head
          have headLength := argument?_length head
          split at read
          · cases read
            exact ⟨.unsigned _, headLength⟩
          · cases read
            exact ⟨.negative _, headLength⟩
          · simp only [Option.map_eq_some_iff, Prod.mk.injEq] at read
            obtain ⟨⟨chunks, left⟩, content, rfl, rfl⟩ := read
            have length := string?_length content
            dsimp only
            exact ⟨.bytes _, by omega⟩
          · simp only [Option.map_eq_some_iff, Prod.mk.injEq] at read
            obtain ⟨⟨chunks, left⟩, content, rfl, rfl⟩ := read
            have length := string?_length content
            dsimp only
            exact ⟨.text (by omega), by omega⟩
          · split at read
            · cases read
            · have inner := bounded.items (by omega) (by simp) read
              exact ⟨inner.1, by omega⟩
          · split at read
            · cases read
            · have inner := bounded.entries (by omega) (by simp) read
              exact ⟨inner.1, by omega⟩
          · generalize (if startsTag behind then depth + 1 else depth) =
              deeper at read
            split at read
            · cases read
            · simp only [Option.map_eq_some_iff, Prod.mk.injEq] at read
              obtain ⟨⟨content, left⟩, inside, rfl, rfl⟩ := read
              have inner := bounded.item (by omega) inside
              dsimp only
              exact ⟨.tag inner.1, by omega⟩
          · cases read

theorem items?_bounded {depth : Nat} {argument : Argument}
    {seen : Array Item} {bytes rest : List UInt8} {item : Item}
    (short : bytes.length ≤ limit)
    (before : ∀ element ∈ seen, element.Within limit)
    (read : items? (fuel + 1) depth argument seen bytes =
      some (item, rest)) :
    item.Within limit ∧ rest.length ≤ bytes.length := by
  simp only [items?] at read
  split at read
  · cases read
  · rename_i notFull
    have few := Nat.not_lt.mp notFull
    split at read
    · cases read
      exact ⟨.array few (by simpa using before), Nat.le_refl _⟩
    · rename_i ended
      cases read
      exact ⟨.array few (by simpa using before), atBreak?_length ended⟩
    · split at read
      · cases read
      · rename_i element left first
        have inner := bounded.item short first
        have later := bounded.items (by omega)
          (Array.forall_mem_push.mpr ⟨inner.1, before⟩) read
        exact ⟨later.1, by omega⟩

theorem entries?_bounded {depth : Nat} {argument : Argument}
    {seen : Array (Item × Item)} {bytes rest : List UInt8} {item : Item}
    (short : bytes.length ≤ limit)
    (before : ∀ entry ∈ seen, entry.2.Within limit)
    (read : entries? (fuel + 1) depth argument seen bytes =
      some (item, rest)) :
    item.Within limit ∧ rest.length ≤ bytes.length := by
  simp only [entries?] at read
  split at read
  · cases read
  · split at read
    · cases read
      exact ⟨.map (by simpa using before), Nat.le_refl _⟩
    · rename_i ended
      cases read
      exact ⟨.map (by simpa using before), atBreak?_length ended⟩
    · split at read
      · cases read
      · rename_i key afterKey first
        have keyBound := bounded.item short first
        split at read
        · cases read
        · rename_i value afterValue second
          have valueBound := bounded.item (by omega) second
          have later := bounded.entries (by omega)
            (Array.forall_mem_push.mpr ⟨valueBound.1, before⟩) read
          exact ⟨later.1, by omega⟩

theorem bounded_succ : Bounded limit (fuel + 1) where
  item := item?_bounded bounded
  items := items?_bounded bounded
  entries := entries?_bounded bounded

end Step

theorem bounded (limit fuel : Nat) : Bounded limit fuel := by
  induction fuel with
  | zero =>
      exact bounded_zero limit
  | succ fuel inductionHypothesis =>
      exact bounded_succ inductionHypothesis

/-- Everything that is read from some bytes stays within their number. -/
theorem read?_within {bytes : List UInt8} {item : Item}
    (read : read? bytes = some item) : item.Within bytes.length := by
  simp only [Cbor.read?] at read
  split at read
  · rename_i whole
    cases read
    exact ((bounded bytes.length _).item (Nat.le_refl _) whole).1
  · cases read

/-! ## Values -/

section Values

variable {limit : Nat} {item : Item}

theorem untagged?_within {inner : Item} (within : item.Within limit)
    (seen : untagged? item = some inner) : inner.Within limit := by
  fun_induction untagged? item with
  | case1 | case3 | case4 | case5 =>
      cases seen
      cases within with
      | tag content =>
          exact content
  | case2 | case6 | case8 | case10 =>
      cases seen
  | case7 | case9 | case12 =>
      cases seen
      exact within
  | case11 number content _ _ _ _ inductionHypothesis =>
      cases within with
      | tag content =>
          exact inductionHypothesis content seen

/-- A text has the bytes of its chunks. -/
theorem ofString_of_joined? {chunks : List (List UInt8)} {s : String}
    (joined : joined? chunks = some s) :
    Utf8.ofString s = chunks.flatten := by
  simp only [joined?, Option.map_eq_some_iff, mapM_eq_some_iff] at joined
  obtain ⟨texts, each, rfl⟩ := joined
  rw [Utf8.ofString, String.toList_join]
  induction chunks generalizing texts with
  | nil =>
      cases texts with
      | nil =>
          rfl
      | cons t rest =>
          cases each
  | cons chunk chunks inductionHypothesis =>
      cases texts with
      | nil =>
          cases each
      | cons t texts =>
          simp only [List.map_cons, List.cons.injEq,
            Utf8.text?_eq_some_iff] at each
          obtain ⟨rfl, later⟩ := each
          rw [List.flatMap_cons, List.flatMap_append,
            inductionHypothesis texts later, List.flatten_cons]
          rfl

theorem text?_length (within : item.Within limit) {s : String}
    (seen : text? item = some s) : (Utf8.ofString s).length ≤ limit := by
  simp only [text?, Option.bind_eq_bind, Option.bind_eq_some_iff] at seen
  obtain ⟨inner, untagged, value⟩ := seen
  have innerWithin := untagged?_within within untagged
  split at value
  · cases innerWithin with
    | text short =>
        rw [ofString_of_joined? value]
        exact short
  · split at value
    · cases value
      exact Nat.zero_le limit
    · cases value
  · cases value

theorem list?_within {α : Type} {element? : Item → Option α}
    (within : item.Within limit) {list : Option (List α)}
    (seen : list? element? item = some list) :
    (list.getD []).length ≤ maxElements ∧
      ∀ x ∈ list.getD [], ∃ element : Item,
        element.Within limit ∧ element? element = some x := by
  simp only [list?, Option.bind_eq_bind, Option.bind_eq_some_iff] at seen
  obtain ⟨inner, untagged, value⟩ := seen
  have innerWithin := untagged?_within within untagged
  split at value
  · cases innerWithin with
    | array few elements =>
        simp only [Option.bind_eq_some_iff, Option.pure_def,
          Option.some.injEq] at value
        obtain ⟨xs, each, rfl⟩ := value
        refine ⟨Nat.le_trans (Nat.le_of_eq (length_of_mapM each)) few, ?_⟩
        intro x member
        obtain ⟨element, inside, same⟩ := exists_of_mem_mapM each member
        exact ⟨element, elements element inside, same⟩
  · split at value
    · cases value
      simp
    · cases value
  · cases value

theorem fields?_within (within : item.Within limit)
    {fields : List (Key × Item)} (seen : fields? item = some fields) :
    ∀ field ∈ fields, field.2.Within limit := by
  simp only [fields?, Option.bind_eq_bind, Option.bind_eq_some_iff] at seen
  obtain ⟨inner, untagged, value⟩ := seen
  have innerWithin := untagged?_within within untagged
  split at value
  · cases innerWithin with
    | map values =>
        intro field member
        obtain ⟨entry, inside, same⟩ := exists_of_mem_mapM value member
        simp only [Option.map_eq_some_iff] at same
        obtain ⟨key, -, rfl⟩ := same
        exact values entry inside
  · split at value
    · cases value
      simp
    · cases value
  · cases value

/-- A field has the zero value, or it is seen in an item within the limit. -/
theorem field?_within {α : Type} {value? : Item → Option α} {zero : α}
    {number : Nat} {fields : List (Key × Item)}
    (within : ∀ field ∈ fields, field.2.Within limit) {x : α}
    (seen : field? value? zero number fields = some x) :
    x = zero ∨
      ∃ value : Item, value.Within limit ∧ value? value = some x := by
  simp only [field?] at seen
  split at seen
  · rename_i value found
    obtain ⟨before, after, rfl, -⟩ := List.lookup_eq_some_iff.mp found
    have inside := within (.field number, value) (by simp)
    exact .inr ⟨value, inside, seen⟩
  · cases seen
    exact .inl rfl

end Values

end WindowMachine.Cbor
