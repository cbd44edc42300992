/-!
Values of a settings document and the tables that hold them.
-/

namespace WindowMachine.Toml

/-- A value. Numbers with a fraction and points in time are kept as they were written. -/
inductive Value where
  | string (text : String)
  | integer (n : Int)
  | float (text : String)
  | boolean (b : Bool)
  | datetime (text : String)
  | array (items : List Value)
  | table (entries : List (String × Value))
  /-- The tables of repeated double-bracket headers, the latest one first. -/
  | tables (elements : List (List (String × Value)))
  deriving Repr

/-- Keys with their values, in the order of their definition. -/
abbrev Table := List (String × Value)

/-- The keys that lead to a value. -/
abbrev Path := List String

namespace Table

/-- A table in which a key has a value, at its old place if it has one. -/
def put (t : Table) (key : String) (v : Value) : Table :=
  match t with
  | [] => [(key, v)]
  | (k, old) :: rest => if k = key then (key, v) :: rest else (k, old) :: put rest key v

/-- Puts a value at the end of a path, making the tables on the way. A value on the way that
is no table is refused, and so is the empty path. -/
def place? (t : Table) (v : Value) : Path → Option Table
  | [] => none
  | [key] => some (put t key v)
  | step :: rest =>
    match t.lookup step with
    | none => (place? [] v rest).map fun sub => put t step (.table sub)
    | some (.table sub) => (place? sub v rest).map fun sub => put t step (.table sub)
    | some _ => none

end Table

end WindowMachine.Toml
