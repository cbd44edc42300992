/-!
Quoted texts: basic ones in double quotes, with escapes, and literal ones in single quotes,
each on one line or over several. Their readers take at most one unit of fuel for a character,
and one for the end.
-/

namespace WindowMachine.Toml

/-! ## Escapes -/

def hexValue? (c : Char) : Option Nat :=
  if c.isDigit then some (c.toNat - '0'.toNat)
  else if 'a' ≤ c ∧ c ≤ 'f' then some (c.toNat - 'a'.toNat + 10)
  else if 'A' ≤ c ∧ c ≤ 'F' then some (c.toNat - 'A'.toNat + 10)
  else none

/-- The character whose number is written in a fixed count of hexadecimal digits. -/
def numbered? (count : Nat) (cs : List Char) : Option (Char × List Char) := do
  let digits ← (cs.take count).mapM hexValue?
  if digits.length = count then
    let n := digits.foldl (fun n d => 16 * n + d) 0
    if n < 0xD800 ∨ (0xDFFF < n ∧ n < 0x110000) then some (Char.ofNat n, cs.drop count)
    else none
  else none

/-- The character that an escape stands for, the backslash being read. -/
def escape? : List Char → Option (Char × List Char)
  | 'b' :: rest => some (Char.ofNat 0x08, rest)
  | 't' :: rest => some ('\t', rest)
  | 'n' :: rest => some ('\n', rest)
  | 'f' :: rest => some (Char.ofNat 0x0C, rest)
  | 'r' :: rest => some ('\r', rest)
  | 'e' :: rest => some (Char.ofNat 0x1B, rest)
  | '"' :: rest => some ('"', rest)
  | '\\' :: rest => some ('\\', rest)
  | 'x' :: rest => numbered? 2 rest
  | 'u' :: rest => numbered? 4 rest
  | 'U' :: rest => numbered? 8 rest
  | _ => none

def isLineEnd (c : Char) : Bool := c == '\n' || c == '\r'

/-! ## On one line -/

/-- The rest of a basic text on one line, after the characters in `seen`. -/
def basicFrom? : Nat → Array Char → List Char → Option (String × List Char)
  | 0, _, _ => none
  | _, _, [] => none
  | fuel + 1, seen, c :: rest =>
    if c = '"' then some (String.ofList seen.toList, rest)
    else if isLineEnd c then none
    else if c = '\\' then
      match escape? rest with
      | some (ch, rest) => basicFrom? fuel (seen.push ch) rest
      | none => none
    else basicFrom? fuel (seen.push c) rest

/-- A basic text on one line, its opening quote being read. -/
def basic? (fuel : Nat) (cs : List Char) : Option (String × List Char) :=
  basicFrom? fuel #[] cs

/-- A literal text on one line, its opening quote being read. -/
def literal? (cs : List Char) : Option (String × List Char) :=
  let content := cs.takeWhile fun c => c != '\'' && !isLineEnd c
  match cs.dropWhile fun c => c != '\'' && !isLineEnd c with
  | '\'' :: rest => some (String.ofList content, rest)
  | _ => none

/-! ## Over several lines -/

/-- A text without a line end at its front. -/
def afterLineEnd : List Char → List Char
  | '\n' :: rest => rest
  | '\r' :: '\n' :: rest => rest
  | rest => rest

/-- White space that a line-ending backslash takes with it. -/
def isFolded (c : Char) : Bool := c == ' ' || c == '\t' || isLineEnd c

/-- The rest of a basic text over several lines, after the characters in `seen`. Up to two
quotes may stand right before the closing three; after a backslash that is written as two
backslashes, three may. -/
def basicLinesFrom? : Nat → Bool → Array Char → List Char → Option (String × List Char)
  | 0, _, _, _ => none
  | _, _, _, [] => none
  | fuel + 1, afterBackslash, seen, c :: rest =>
    if c = '"' then
      let run := 1 + (rest.takeWhile (· == '"')).length
      let left := rest.drop (run - 1)
      if run < 3 then
        basicLinesFrom? fuel false (seen ++ Array.replicate run '"') left
      else if (if afterBackslash then 7 else 6) ≤ run then none
      else some (String.ofList (seen ++ Array.replicate (run - 3) '"').toList, left)
    else if c = '\\' then
      let blank := rest.takeWhile isFolded
      if blank.contains '\n' then
        basicLinesFrom? fuel false seen (rest.dropWhile isFolded)
      else
        match escape? rest with
        | some (ch, left) =>
          basicLinesFrom? fuel (rest.head? == some '\\') (seen.push ch) left
        | none => none
    else basicLinesFrom? fuel false (seen.push c) rest

/-- A basic text over several lines, its opening quotes being read. -/
def basicLines? (fuel : Nat) (cs : List Char) : Option (String × List Char) :=
  basicLinesFrom? fuel false #[] (afterLineEnd cs)

/-- The rest of a literal text over several lines, after the characters in `seen`. -/
def literalLinesFrom? : Nat → Array Char → List Char → Option (String × List Char)
  | 0, _, _ => none
  | _, _, [] => none
  | fuel + 1, seen, c :: rest =>
    if c = '\'' then
      let run := 1 + (rest.takeWhile (· == '\'')).length
      let left := rest.drop (run - 1)
      if run < 3 then literalLinesFrom? fuel (seen ++ Array.replicate run '\'') left
      else if 6 ≤ run then none
      else some (String.ofList (seen ++ Array.replicate (run - 3) '\'').toList, left)
    else literalLinesFrom? fuel (seen.push c) rest

/-- A literal text over several lines, its opening quotes being read. -/
def literalLines? (fuel : Nat) (cs : List Char) : Option (String × List Char) :=
  literalLinesFrom? fuel #[] (afterLineEnd cs)

end WindowMachine.Toml
