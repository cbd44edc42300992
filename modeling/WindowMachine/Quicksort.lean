/-!
Sorting in place by quicksort. Short segments are sorted by insertion, segments that look
sorted are first tried to be put right by a few moves, and after too many bad pivots a segment
is sorted as a heap. Elements that are equal in the order do not keep their places; where they
end up is fixed by the steps below.
-/

namespace WindowMachine.Quicksort

section
variable {α : Type} (lt : α → α → Bool)

/-- Whether the element at one index is less than the element at another. -/
def less (xs : Array α) (i j : Nat) : Bool :=
  match xs[i]?, xs[j]? with
  | some x, some y => lt x y
  | _, _ => false

/-! ## Insertion -/

/-- Moves an element towards the front, down to `low`, past all that it is less than. -/
def moveDown (low : Nat) : Nat → Array α → Array α
  | 0, xs => xs
  | i + 1, xs =>
    if low < i + 1 && less lt xs (i + 1) i then moveDown low i (xs.swapIfInBounds (i + 1) i)
    else xs

/-- Moves the element before an index towards the back, up to `high`, past all that are less
than it, in at most so many moves. -/
def moveUp (high : Nat) : Nat → Nat → Array α → Array α
  | 0, _, xs => xs
  | moves + 1, i, xs =>
    if i < high && less lt xs i (i - 1) then moveUp high moves (i + 1) (xs.swapIfInBounds i (i - 1))
    else xs

/-- Sorts the segment from `a` up to `b` by insertion. -/
def insertion (a b : Nat) (xs : Array α) : Array α :=
  (List.range' (a + 1) (b - a - 1)).foldl (fun xs i => moveDown lt a i xs) xs

/-! ## Heaps -/

/-- Moves the element at `root` of the heap of `size` elements at `a` below larger ones. -/
def siftDown (a size : Nat) : Nat → Nat → Array α → Array α
  | 0, _, xs => xs
  | moves + 1, root, xs =>
    let left := 2 * root + 1
    if size ≤ left then xs
    else
      let child :=
        if left + 1 < size && less lt xs (a + left) (a + left + 1) then left + 1 else left
      if less lt xs (a + root) (a + child) then
        siftDown a size moves child (xs.swapIfInBounds (a + root) (a + child))
      else xs

/-- Sorts the segment from `a` up to `b` as a heap with the largest element at its root. -/
def heap (a b : Nat) (xs : Array α) : Array α :=
  let size := b - a
  let built :=
    (List.range ((size - 1) / 2 + 1)).reverse.foldl (fun xs i => siftDown lt a size size i xs) xs
  (List.range size).reverse.foldl
    (fun xs i => siftDown lt a i size 0 (xs.swapIfInBounds a (a + i))) built

/-! ## Pivots -/

/-- Two indexes in the order of their elements, and a count that is one higher if they were
out of order. -/
def orderedPair (xs : Array α) (i j count : Nat) : Nat × Nat × Nat :=
  if less lt xs j i then (j, i, count + 1) else (i, j, count)

/-- The index of the middle of three elements, and the count of pairs out of order. -/
def median (xs : Array α) (i j k count : Nat) : Nat × Nat :=
  let (i, j, count) := orderedPair lt xs i j count
  let (j, _, count) := orderedPair lt xs j k count
  let (_, j, count) := orderedPair lt xs i j count
  (j, count)

/-- The index of a pivot for the segment from `a` up to `b`, and how many pairs were out of
order on the way to it: the middle of three elements, each of which is the middle of three
neighbours if the segment is long. -/
def pivot (a b : Nat) (xs : Array α) : Nat × Nat :=
  let quarter := (b - a) / 4
  let (i, j, k) := (a + quarter, a + 2 * quarter, a + 3 * quarter)
  if 50 ≤ b - a then
    let (i, count) := median lt xs (i - 1) i (i + 1) 0
    let (j, count) := median lt xs (j - 1) j (j + 1) count
    let (k, count) := median lt xs (k - 1) k (k + 1) count
    median lt xs i j k count
  else median lt xs i j k 0

/-- The count of pairs out of order in a long segment all of whose pairs are. -/
def allOutOfOrder : Nat := 12

/-! ## Partitions -/

/-- The first index from `i` up to `last` at which a test fails. -/
def upwards (test : Nat → Bool) (last : Nat) : Nat → Nat → Nat
  | 0, i => i
  | moves + 1, i => if i ≤ last && test i then upwards test last moves (i + 1) else i

/-- The last index from `j` down to `first` at which a test fails. -/
def downwards (test : Nat → Bool) (first : Nat) : Nat → Nat → Nat
  | 0, j => j
  | moves + 1, j => if first ≤ j && test j then downwards test first moves (j - 1) else j

/-- Swaps elements from both ends of a segment until all low ones come before all others. The
result has the indexes at which the two searches ended, and whether something was swapped. -/
def divide (isLow : Array α → Nat → Bool) :
    Nat → Nat → Nat → Bool → Array α → Array α × Nat × Nat × Bool
  | 0, i, j, swapped, xs => (xs, i, j, swapped)
  | moves + 1, i, j, swapped, xs =>
    let i := upwards (isLow xs) j xs.size i
    let j := downwards (fun k => !isLow xs k) i xs.size j
    if j < i then (xs, i, j, swapped)
    else divide isLow moves (i + 1) (j - 1) true (xs.swapIfInBounds i j)

/-- Puts the elements less than the pivot before it and the others after it. The result has
the new index of the pivot, and whether the segment was divided like that already. -/
def partition (a b pivot : Nat) (xs : Array α) : Array α × Nat × Bool :=
  let (xs, _, j, swapped) :=
    divide (fun xs k => less lt xs k a) (b - a) (a + 1) (b - 1) false (xs.swapIfInBounds a pivot)
  (xs.swapIfInBounds j a, j, !swapped)

/-- Puts the elements that are not greater than the pivot before the others. The result has
the index of the first that is greater. -/
def partitionEqual (a b pivot : Nat) (xs : Array α) : Array α × Nat :=
  let (xs, i, _, _) :=
    divide (fun xs k => !less lt xs a k) (b - a) (a + 1) (b - 1) false (xs.swapIfInBounds a pivot)
  (xs, i)

/-! ## Patterns -/

/-- The next of a sequence of scattered numbers. -/
def scatter (seed : UInt64) : UInt64 :=
  let seed := seed ^^^ (seed <<< 13)
  let seed := seed ^^^ (seed >>> 7)
  seed ^^^ (seed <<< 17)

/-- The number of binary digits of a number. -/
def binaryDigits (n : Nat) : Nat := if n = 0 then 0 else n.log2 + 1

/-- Swaps three elements in the middle of a segment with scattered ones. -/
def breakPattern (a b : Nat) (xs : Array α) : Array α :=
  let length := b - a
  let middle := a + length / 4 * 2
  let step (state : Array α × UInt64) (i : Nat) : Array α × UInt64 :=
    let seed := scatter state.2
    let other := seed.toNat % (1 <<< binaryDigits length)
    let other := if length ≤ other then other - length else other
    (state.1.swapIfInBounds (middle - 1 + i) (a + other), seed)
  ((List.range 3).foldl step (xs, UInt64.ofNat length)).1

/-- The elements of a segment in reverse order. -/
def reversed (a b : Nat) (xs : Array α) : Array α :=
  (List.range ((b - a) / 2)).foldl (fun xs i => xs.swapIfInBounds (a + i) (b - 1 - i)) xs

/-- Puts right at most so many places of a segment at which two neighbours are out of order.
The result says whether the segment is sorted; short segments are not changed. -/
def settle (a b : Nat) : Nat → Nat → Array α → Array α × Bool
  | 0, _, xs => (xs, false)
  | places + 1, i, xs =>
    let i := upwards (fun k => !less lt xs k (k - 1)) (b - 1) xs.size i
    if i = b then (xs, true)
    else if b - a < 50 then (xs, false)
    else
      let xs := xs.swapIfInBounds i (i - 1)
      let xs := if 2 ≤ i - a then moveDown lt 0 (i - 1) xs else xs
      let xs := if 2 ≤ b - i then moveUp lt b xs.size (i + 1) xs else xs
      settle a b places i xs

/-! ## Sorting -/

/-- Sorts the segment from `a` up to `b`. `bad` is the number of bad pivots that are left;
`balanced` and `divided` say whether the last pivot was good and the last segment divided
already. Each round leaves a shorter segment, so `rounds` beyond its length are never used. -/
def segment : Nat → Nat → Bool → Bool → Nat → Nat → Array α → Array α
  | 0, _, _, _, _, _, xs => xs
  | rounds + 1, bad, balanced, divided, a, b, xs =>
    let length := b - a
    if length ≤ 12 then insertion lt a b xs
    else if bad = 0 then heap lt a b xs
    else
      let (xs, bad) := if balanced then (xs, bad) else (breakPattern a b xs, bad - 1)
      let (p, count) := pivot lt a b xs
      let (xs, p, increasing) :=
        if count = allOutOfOrder then (reversed a b xs, b - 1 - (p - a), true)
        else (xs, p, count == 0)
      let (xs, sorted) :=
        if balanced && divided && increasing then settle lt a b 5 (a + 1) xs else (xs, false)
      if sorted then xs
      else if 0 < a && !less lt xs (a - 1) p then
        let (xs, mid) := partitionEqual lt a b p xs
        segment rounds bad balanced divided mid b xs
      else
        let (xs, mid, divided) := partition lt a b p xs
        let balanced (short : Nat) : Bool := length / 8 ≤ short
        if mid - a < b - mid then
          let xs := segment rounds bad true true a mid xs
          segment rounds bad (balanced (mid - a)) divided (mid + 1) b xs
        else
          let xs := segment rounds bad true true (mid + 1) b xs
          segment rounds bad (balanced (b - mid)) divided a mid xs

/-- The elements of a list in order. -/
def sort (xs : List α) : List α :=
  let size := xs.length
  (segment lt (size + 1) (binaryDigits size) true true 0 size xs.toArray).toList

end

end WindowMachine.Quicksort
