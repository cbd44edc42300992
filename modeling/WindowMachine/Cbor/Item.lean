/-!
Data items of the Concise Binary Object Representation, read from bytes. Heads need not be the
shortest ones, and strings, arrays and maps may have an indefinite length.
-/

namespace WindowMachine.Cbor

/-- A data item. -/
inductive Item where
  | unsigned (n : Nat)
  /-- The number `-1 - n`. -/
  | negative (n : Nat)
  | bytes (content : List UInt8)
  /-- A text, as the chunks in which it was written. -/
  | text (chunks : List (List UInt8))
  | array (items : List Item)
  | map (entries : List (Item × Item))
  | tag (number : Nat) (content : Item)
  /-- A simple value; 20 to 23 are false, true, null and undefined. -/
  | simple (n : Nat)
  /-- A floating-point number, as the bytes of its bits. -/
  | float (bits : List UInt8)
  deriving Repr

/-- How deeply arrays and maps may be nested. -/
def maxDepth : Nat := 32

/-- How many elements an array, and how many entries a map, may have. -/
def maxElements : Nat := 131072

/-! ## Heads -/

/-- The number that bytes spell, most significant first. -/
def bigEndian (bytes : List UInt8) : Nat :=
  bytes.foldl (fun n b => 256 * n + b.toNat) 0

/-- The argument of a head. -/
inductive Argument where
  | number (n : Nat)
  | indefinite
  deriving DecidableEq, Repr

/-- Takes a given number of bytes off the front. -/
def split? (n : Nat) (bytes : List UInt8) : Option (List UInt8 × List UInt8) :=
  let front := bytes.take n
  if front.length = n then some (front, bytes.drop n) else none

/-- The argument that follows the first byte of a head, by the lower five bits of that byte. -/
def argument? (info : Nat) (rest : List UInt8) : Option (Argument × List UInt8) :=
  if info < 24 then some (.number info, rest)
  else if info < 28 then do
    let (front, rest) ← split? (1 <<< (info - 24)) rest
    return (.number (bigEndian front), rest)
  else if info = 31 then some (.indefinite, rest)
  else none

/-- The byte that ends an item of indefinite length. -/
def breakByte : UInt8 := 0xFF

/-! ## Strings -/

/-- Reads the chunks of a string of indefinite length, after those in `seen`. Each is a string
of the same major type and of definite length. -/
def chunks? (major : Nat) :
    Nat → Array (List UInt8) → List UInt8 → Option (List (List UInt8) × List UInt8)
  | 0, _, _ => none
  | _, _, [] => none
  | fuel + 1, seen, b :: rest =>
    if b = breakByte then some (seen.toList, rest)
    else if b.toNat / 32 = major then
      match argument? (b.toNat % 32) rest with
      | some (.number n, rest) =>
        match split? n rest with
        | some (chunk, rest) => chunks? major fuel (seen.push chunk) rest
        | none => none
      | _ => none
    else none

/-- Reads the content of a string whose head has an argument. -/
def string? (major : Nat) (argument : Argument) (rest : List UInt8) :
    Option (List (List UInt8) × List UInt8) :=
  match argument with
  | .number n => do
    let (content, rest) ← split? n rest
    return ([content], rest)
  | .indefinite => chunks? major (rest.length + 1) #[] rest

/-! ## Items -/

/-- Reads an item without content of major type 7. -/
def primitive? (info : Nat) (rest : List UInt8) : Option (Item × List UInt8) :=
  if info < 24 then some (.simple info, rest)
  else if info = 24 then
    match rest with
    | b :: rest => if 32 ≤ b.toNat then some (.simple b.toNat, rest) else none
    | [] => none
  else if info < 28 then do
    let (bits, rest) ← split? (1 <<< (info - 24)) rest
    return (.float bits, rest)
  else none

/-- Whether the next byte ends an item of indefinite length, with what follows it. -/
def atBreak? : List UInt8 → Option (List UInt8)
  | b :: rest => if b = breakByte then some rest else none
  | [] => none

/-- Whether the next item is a tag. -/
def startsTag : List UInt8 → Bool
  | b :: _ => b.toNat / 32 == 6
  | [] => false

mutual

/-- Reads one item inside `depth` arrays, maps and directly nested tags. -/
def item? : Nat → Nat → List UInt8 → Option (Item × List UInt8)
  | 0, _, _ => none
  | _, _, [] => none
  | fuel + 1, depth, b :: rest =>
    let major := b.toNat / 32
    let info := b.toNat % 32
    if major = 7 then primitive? info rest
    else
      match argument? info rest with
      | none => none
      | some (argument, rest) =>
        match major, argument with
        | 0, .number n => some (.unsigned n, rest)
        | 1, .number n => some (.negative n, rest)
        | 2, argument => (string? 2 argument rest).map fun (cs, rest) => (.bytes cs.flatten, rest)
        | 3, argument => (string? 3 argument rest).map fun (cs, rest) => (.text cs, rest)
        | 4, argument =>
          if maxDepth ≤ depth then none else items? fuel (depth + 1) argument #[] rest
        | 5, argument =>
          if maxDepth ≤ depth then none else entries? fuel (depth + 1) argument #[] rest
        | 6, .number n =>
          let depth := if startsTag rest then depth + 1 else depth
          if maxDepth < depth then none
          else (item? fuel depth rest).map fun (content, rest) => (.tag n content, rest)
        | _, _ => none

/-- Reads the elements of an array after those in `seen`. -/
def items? : Nat → Nat → Argument → Array Item → List UInt8 → Option (Item × List UInt8)
  | 0, _, _, _, _ => none
  | fuel + 1, depth, argument, seen, rest =>
    if maxElements < seen.size then none
    else
      match argument, atBreak? rest with
      | .number 0, _ => some (.array seen.toList, rest)
      | .indefinite, some rest => some (.array seen.toList, rest)
      | _, _ =>
        match item? fuel depth rest with
        | none => none
        | some (element, rest) =>
          let argument :=
            match argument with
            | .number n => .number (n - 1)
            | .indefinite => .indefinite
          items? fuel depth argument (seen.push element) rest

/-- Reads the entries of a map after those in `seen`. -/
def entries? :
    Nat → Nat → Argument → Array (Item × Item) → List UInt8 → Option (Item × List UInt8)
  | 0, _, _, _, _ => none
  | fuel + 1, depth, argument, seen, rest =>
    if maxElements < seen.size then none
    else
      match argument, atBreak? rest with
      | .number 0, _ => some (.map seen.toList, rest)
      | .indefinite, some rest => some (.map seen.toList, rest)
      | _, _ =>
        match item? fuel depth rest with
        | none => none
        | some (key, rest) =>
          match item? fuel depth rest with
          | none => none
          | some (value, rest) =>
            let argument :=
              match argument with
              | .number n => .number (n - 1)
              | .indefinite => .indefinite
            entries? fuel depth argument (seen.push (key, value)) rest

end

/-- Reads bytes that are exactly one item. -/
def read? (bytes : List UInt8) : Option Item :=
  match item? (2 * bytes.length + 2) 0 bytes with
  | some (item, []) => some item
  | _ => none

end WindowMachine.Cbor
