import WindowMachine.Toml.Value

/-!
A table of a document while the document is being read: what the table holds so far, and which
of its keys may still be defined.

A table that only came up on the way to something else is implied. What is implied may be
defined once more: a table keeps what it holds, and an array gives way to the new value. Every
other second definition is refused. The marks that say so belong to keys and not to values:
they stay when a key gets another value, and all tables under a repeated header share them.
-/

namespace WindowMachine.Toml

/-- What is known about a key, and about the keys of the table that it leads to. -/
structure Marks where
  /-- Whether the key leads to a table that is only implied. -/
  implied : Bool := false
  /-- Whether the latest value of the key is an array. -/
  array : Bool := false
  /-- The marks of the keys in the table that the key leads to. -/
  keys : List (String × Marks) := []

/-- A table that is being read. -/
structure Scope where
  table : Table := []
  /-- The marks of the table's own key and of those in it. -/
  marks : Marks := {}
  /-- Whether the table is the whole document, which has no key of its own. -/
  isDocument : Bool := false

namespace Scope

/-! ## Marks -/

/-- The marks of a key. -/
def marksOf (s : Scope) (key : String) : Marks := (s.marks.keys.lookup key).getD {}

/-- A scope with other marks for a key. -/
def withMarks (s : Scope) (key : String) (m : Marks) : Scope :=
  let others := s.marks.keys.filter fun entry => entry.1 != key
  { s with marks := { s.marks with keys := (key, m) :: others } }

/-- Says whether a key leads to a table that is only implied. -/
def imply (s : Scope) (key : String) (implied : Bool) : Scope :=
  s.withMarks key { s.marksOf key with implied := implied }

/-- Says whether the latest value of a key is an array. A key without a name stands for the
table it is in, unless that is the whole document. -/
def note (s : Scope) (key : String) (array : Bool) : Scope :=
  if key = "" ∧ !s.isDocument then { s with marks := { s.marks with array := array } }
  else s.withMarks key { s.marksOf key with array := array }

/-! ## Definitions -/

/-- Puts a value under a key without looking at what is there. -/
def put (s : Scope) (key : String) (v : Value) : Scope :=
  { s with table := s.table.put key v }

/-- Defines a key. -/
def define? (s : Scope) (key : String) (v : Value) : Option Scope :=
  match s.table.lookup key with
  | none => some (s.put key v)
  | some _ =>
    if !(s.marksOf key).implied then none
    else if (s.marksOf key).array then some ((s.imply key false).put key v)
    else some (s.imply key false)

/-- Opens the table of a key, or a further one of repeated tables. -/
def open? (s : Scope) (key : String) (repeated : Bool) : Option Scope :=
  if repeated then
    match s.table.lookup key with
    | none => some (s.put key (.tables [[]]))
    | some (.tables elements) => some (s.put key (.tables ([] :: elements)))
    | some _ => none
  else s.define? key (.table [])

/-! ## Going inside -/

section
variable {α : Type}

/-- Does something in the table of a key; of repeated tables it is the latest one. -/
def inside? (s : Scope) (key : String) (action : Scope → Option (α × Scope)) :
    Option (α × Scope) := do
  let (table, wrap) ←
    match s.table.lookup key with
    | some (.table table) => some (table, Value.table)
    | some (.tables (latest :: others)) => some (latest, fun t => Value.tables (t :: others))
    | _ => none
  let (a, inner) ← action { table := table, marks := s.marksOf key }
  return (a, (s.withMarks key inner.marks).put key (wrap inner.table))

/-- Does something in the table at the end of a path. Tables on the way that do not exist are
made and implied. -/
def reaching? (action : Scope → Option (α × Scope)) : Path → Scope → Option (α × Scope)
  | [], s => action s
  | key :: rest, s =>
    let s :=
      match s.table.lookup key with
      | none => (s.imply key true).put key (.table [])
      | some _ => s
    s.inside? key (reaching? action rest)

/-- Does something in the table that the steps of a key with dots lead to. Each step implies
its table and opens it. -/
def descending? (action : Scope → Option (α × Scope)) : Path → Scope → Option (α × Scope)
  | [], s => action s
  | step :: rest, s => do
    (← (s.imply step true).open? step false).inside? step (descending? action rest)

end

end Scope

end WindowMachine.Toml
