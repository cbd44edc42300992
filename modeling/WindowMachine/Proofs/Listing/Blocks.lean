import Mathlib.Data.List.Nodup
import WindowMachine.Proofs.Listing.OneLine

/-!
# What a listing shows

The code in a listing is a chain of blocks, one for each address and one for
the address behind the code: the methods that start there, the mark of the
entry, and the line of the word if there is one.  A line tells by its first
characters what it is.  Sorting the lines by that gives back the words, the
seeds and the methods of the image, and counting the words in front of a line
gives its address.
-/

namespace WindowMachine.Listing

/-! ## Kinds of lines -/

/-- What a line of a listing is about. -/
inductive LineKind where
  | remark
  | mark
  | global
  | stack
  | method
  | word
  | blank
  deriving DecidableEq, Repr

/-- What a line is about, as it begins. -/
def kindOf (line : String) : LineKind :=
  match line.toList with
  | [] => .blank
  | '.' :: 'g' :: _ => .global
  | '.' :: 's' :: _ => .stack
  | '.' :: 'm' :: _ => .method
  | ';' :: _ => if line = "; entry" then .mark else .remark
  | _ => .word

/-- The lines of some kind. -/
def ofKind (kind : LineKind) (lines : List String) : List String :=
  lines.filter fun line => kindOf line = kind

section Kinds

variable {kind other : LineKind} {lines more : List String} {line : String}

@[simp]
theorem ofKind_nil : ofKind kind [] = [] := rfl

end Kinds

/-! ## What the lines are about -/

section Lines

variable {img : Image} {address : Nat} {kind : LineKind}

@[simp]
theorem kindOf_globalLine (g : GlobalSeed) :
    kindOf (globalLine g) = .global := by
  simp [kindOf, globalLine]

@[simp]
theorem kindOf_stackLine (s : StackSeed) :
    kindOf (stackLine s) = .stack := by
  simp [kindOf, stackLine]

@[simp]
theorem kindOf_blank : kindOf "" = .blank := rfl

@[simp]
theorem kindOf_headerLine (img : Image) :
    kindOf (headerLine img) = .remark := by
  obtain ⟨rest, chars⟩ :
      ∃ rest, (headerLine img).toList = "; entry ".toList ++ rest := by
    simp [headerLine]
  have longer : headerLine img ≠ "; entry" := by
    intro same
    rw [same] at chars
    simp at chars
  rw [kindOf, chars]
  exact if_neg longer

end Lines

/-! ## Methods in order -/

/-- Whether a method stands before another one in a listing. -/
def Precedes (one other : NamedMethod) : Prop :=
  one.entry.toInt < other.entry.toInt ∨
    one.entry.toInt = other.entry.toInt ∧
      one.index.toInt < other.index.toInt

section Methods

variable {img : Image} {address : Nat} {m : NamedMethod}

/-- The methods of an image as they are listed. -/
def listed (img : Image) : List NamedMethod :=
  (List.range' 0 (img.words.size + 1)).flatMap (methodsAt img)

end Methods

/-! ## Blocks -/

/-- The lines of code from an address on, with what stands before each
address. -/
def blocksFrom (img : Image) (address : Nat) : List Word → List String
  | [] => linesBefore img address
  | w :: words =>
    linesBefore img address ++
      wordLine address w :: blocksFrom img (address + 1) words

section Blocks

variable {img : Image} {address : Nat} {words : List Word}

theorem flatten_mapIdx (img : Image) (address : Nat) (words : List Word) :
    (words.mapIdx fun offset w =>
        linesBefore img (address + offset) ++
          [wordLine (address + offset) w]).flatten ++
        linesBefore img (address + words.length) =
      blocksFrom img address words := by
  induction words generalizing address with
  | nil =>
      simp [blocksFrom]
  | cons w words inductionHypothesis =>
      have shifted (offset : Nat) :
          address + 1 + offset = address + (offset + 1) := by
        omega
      simp [blocksFrom, List.mapIdx_cons, ← inductionHypothesis, shifted]

/-- The header of an image and its data. -/
def preface (img : Image) : List String :=
  headerLine img :: (img.globals.toList.map globalLine ++
    img.stack.toList.map stackLine)

theorem imageLines_eq (img : Image) :
    imageLines img = preface img ++ blocksFrom img 0 img.words.toList := by
  have blocks := flatten_mapIdx img 0 img.words.toList
  simp only [Nat.zero_add, Array.length_toList] at blocks
  rw [← blocks]
  simp only [imageLines, preface, Array.toList_mapIdx, List.cons_append,
    List.append_assoc]

/-! ## Lines sorted by what they are about -/

end Blocks

/-! ## The whole listing -/

/-- What a listing shows of an image. -/
structure Shows (lines : List String) (img : Image) : Prop where
  /-- Only the first line is a remark, the header. -/
  header : lines.head? = some (headerLine img)
  remark : ofKind .remark lines = [headerLine img]
  globals : ofKind .global lines = img.globals.toList.map globalLine
  stack : ofKind .stack lines = img.stack.toList.map stackLine
  /-- One line for each word, in the order of the addresses. -/
  words : ofKind .word lines = codeLines img.words
  /-- One declaration for each method, in the order of entries and then of
  indexes. -/
  methods : ∃ sorted : List NamedMethod,
    sorted.Perm img.methods.toList ∧ sorted.Pairwise Precedes ∧
      ofKind .method lines = sorted.map methodLine
  once (m : NamedMethod) : m ∈ img.methods → lines.count (methodLine m) = 1
  /-- As many words stand before the declaration of a method as before its
  entry. -/
  placed {m : NamedMethod} {before after : List String} :
    m ∈ img.methods → lines = before ++ methodLine m :: after →
      ((ofKind .word before).length : Int) = m.entry.toInt
  mark : ofKind .mark lines =
    if img.entry.toInt ≤ img.words.size then ["; entry"] else []
  marked {before after : List String} :
    lines = before ++ "; entry" :: after →
      ((ofKind .word before).length : Int) = img.entry.toInt

section Whole

variable {img : Image} {m : NamedMethod}

end Whole

end WindowMachine.Listing
