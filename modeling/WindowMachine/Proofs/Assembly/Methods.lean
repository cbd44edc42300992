import WindowMachine.Proofs.Assembly.Encoding

/-!
# The table of methods

The first pass adds one row to the table of methods for each method directive.
A row holds what the directive says, the address of its line and an index: the
one written, which has been checked against the bound of a call's number, or
else one more than the index of the row before, which has not.  Names and
indexes occur once.

Two results rest on this.  A call by name gets the index of its method cut to
sixteen bits, and it gets the index itself unless a row without a written
index follows one that has the greatest index already.
-/

namespace WindowMachine

open Source (Line Operand Phrase Statement)

namespace Assembly

/-! ## Directives -/

/-- The method directive of a line. -/
def methodPhrase? (line : Line) : Option Phrase :=
  match line.statement with
  | some (.directive p) => if p.name = ".method" then some p else none
  | _ => none

/-- The method directives of some lines, each with the place of its line. -/
def methodDirectives (lines : List Line) : List (Nat × Phrase) :=
  lines.zipIdx.filterMap fun (line, place) =>
    (methodPhrase? line).map fun p => (place, p)

section Directives

variable {lines : List Line} {line : Line} {place : Nat} {p : Phrase}

theorem methodDirectives_append_singleton :
    methodDirectives (lines ++ [line]) =
      methodDirectives lines ++
        ((methodPhrase? line).map fun p => (lines.length, p)).toList := by
  simp only [methodDirectives, List.zipIdx_append, List.filterMap_append,
    List.zipIdx_singleton, Nat.zero_add, List.append_cancel_left_eq]
  cases directive : methodPhrase? line with
  | none =>
      simp [directive]
  | some p =>
      simp [directive]

theorem methodPhrase?_eq_none
    (none : ∀ p, line.statement ≠ some (.directive p)) :
    methodPhrase? line = .none := by
  unfold methodPhrase?
  split
  · exact absurd ‹_› (none _)
  · rfl

theorem mem_methodDirectives_iff :
    (place, p) ∈ methodDirectives lines ↔
      ∃ line, lines[place]? = some line ∧ methodPhrase? line = some p := by
  simp [methodDirectives, List.mem_filterMap, List.mem_zipIdx_iff_getElem?]

theorem place_lt_of_mem (member : (place, p) ∈ methodDirectives lines) :
    place < lines.length := by
  obtain ⟨line, found, -⟩ := mem_methodDirectives_iff.mp member
  exact (List.getElem?_eq_some_iff.mp found).1

end Directives

/-! ## Rows -/

/-- Whether a method directive gives its method a name. -/
def Names (p : Phrase) (name : String) : Prop :=
  ∃ o, p.operands[0]? = some o ∧ o.symbol? = some name

theorem Names.unique {p : Phrase} {name other : String}
    (names : Names p name) (alsoNames : Names p other) : name = other := by
  obtain ⟨o, first, symbol⟩ := names
  obtain ⟨o', alsoFirst, alsoSymbol⟩ := alsoNames
  obtain rfl := Option.some.inj (first.symm.trans alsoFirst)
  exact Option.some.inj (symbol.symm.trans alsoSymbol)

/-- What a method directive says of a method. -/
structure Describes (p : Phrase) (m : NamedMethod) : Prop where
  name : Names p m.name
  args : ∃ o, p.operands[1]? = some o ∧ o.intValue = .ok m.args.toInt
  locals : ∃ o, p.operands[2]? = some o ∧ o.intValue = .ok m.locals.toInt

/-- The index after those of some methods. -/
def indexAfter (methods : List NamedMethod) : Int64 :=
  match methods.getLast? with
  | some m => m.index + 1
  | none => 0

/-- How a method directive gives a method its index, after some methods: as
written, or else by counting on. -/
inductive Indexes (before : List NamedMethod) (p : Phrase)
    (m : NamedMethod) : Prop
  | written {o : Operand} :
      p.operands[3]? = some o →
      o.intValue = .ok m.index.toInt →
      0 ≤ m.index.toInt →
      m.index.toInt ≤ maxU16 →
      Indexes before p m
  | counted :
      p.operands[3]? = none →
      m.index = indexAfter before →
      Indexes before p m

/-- What a row of the table says, next to the rows before it and to all
lines. -/
structure Row (lines : List Line) (before : List NamedMethod)
    (place : Nat) (p : Phrase) (m : NamedMethod) : Prop where
  describes : Describes p m
  entry : m.entry = Int64.ofNat (instructionCount (lines.take place))
  indexes : Indexes before p m
  fresh (other : NamedMethod) : other ∈ before →
    other.name ≠ m.name ∧ other.index ≠ m.index

namespace Layout

variable {l next : Layout} {lines : List Line} {p : Phrase}
  {m : NamedMethod}

theorem nextIndex_eq (l : Layout) :
    l.nextIndex = indexAfter l.methods.toList := by
  cases last : l.methods.back? with
  | none =>
      simp [nextIndex, indexAfter, last]
  | some m =>
      simp [nextIndex, indexAfter, last]

theorem toInt_ofInt_of_le {n : Int} (lower : 0 ≤ n) (upper : n ≤ maxU16) :
    (Int64.ofInt n).toInt = n := by
  simp only [maxU16] at upper
  exact Int64.toInt_ofInt_of_le (by omega) (by omega)

theorem method?_eq_none {name : String} {other : NamedMethod}
    (unknown : l.method? name = none) (member : other ∈ l.methods.toList) :
    other.name ≠ name := by
  have all := Array.find?_eq_none.mp unknown other (by simpa using member)
  simpa using all

private theorem describes_of_counts {name args locals : Operand}
    {rest : List Operand} {symbol : String} {a b : Int}
    {index entry : Int64}
    (operands : p.operands = name :: args :: locals :: rest)
    (named : name.symbol? = some symbol)
    (countedArgs : count args maxU16 = .ok a)
    (countedLocals : count locals maxU16 = .ok b) :
    Describes p ⟨symbol, index, entry, Int64.ofInt a, Int64.ofInt b⟩ := by
  obtain ⟨argsValue, argsLower, argsUpper⟩ :=
    integer_eq_ok_iff.mp countedArgs
  obtain ⟨localsValue, localsLower, localsUpper⟩ :=
    integer_eq_ok_iff.mp countedLocals
  refine ⟨⟨name, by simp [operands], named⟩,
    ⟨args, by simp [operands], ?_⟩, ⟨locals, by simp [operands], ?_⟩⟩
  · rw [toInt_ofInt_of_le argsLower argsUpper, argsValue]
  · rw [toInt_ofInt_of_le localsLower localsUpper, localsValue]

/-- The method that a directive describes, with what has been checked of
it. -/
theorem describe_eq_ok {name args locals : Operand}
    {index : Option Operand}
    (operands : p.operands = name :: args :: locals :: index.toList)
    (described : l.describe p name args locals index = .ok m) :
    Describes p m ∧ Indexes l.methods.toList p m ∧
      m.entry = Int64.ofNat l.address ∧
        ∀ other ∈ l.methods.toList, other.name ≠ m.name := by
  simp only [describe] at described
  split at described
  · cases described
  · rename_i symbol named
    split at described
    · cases described
    · rename_i unknown
      simp only [bind_eq_ok_iff] at described
      obtain ⟨a, countedArgs, b, countedLocals, described⟩ := described
      cases index with
      | none =>
          cases described
          exact ⟨describes_of_counts operands named countedArgs countedLocals,
            .counted (by simp [operands]) (nextIndex_eq l), rfl,
            fun other member => method?_eq_none unknown member⟩
      | some o =>
          simp only [bind_eq_ok_iff, map_eq_ok_iff] at described
          obtain ⟨_, ⟨n, counted, rfl⟩, made⟩ := described
          cases made
          obtain ⟨value, lower, upper⟩ := integer_eq_ok_iff.mp counted
          have exactly := toInt_ofInt_of_le lower upper
          refine ⟨
            describes_of_counts operands named countedArgs countedLocals,
            .written (o := o) (by simp [operands]) ?_ ?_ ?_, rfl,
            fun other member => method?_eq_none unknown member⟩
          · rw [exactly, value]
          · rw [exactly]
            exact lower
          · rw [exactly]
            exact upper

/-- A method directive adds one row to the table. -/
theorem methodDirective_eq_ok
    (laid : l.methodDirective p = .ok next) :
    ∃ m, next = { l with methods := l.methods.push m } ∧
      Describes p m ∧ Indexes l.methods.toList p m ∧
        m.entry = Int64.ofNat l.address ∧
          ∀ other ∈ l.methods.toList,
            other.name ≠ m.name ∧ other.index ≠ m.index := by
  simp only [methodDirective] at laid
  split at laid
  · rename_i name args locals operands
    obtain ⟨m, described, registered⟩ := bind_eq_ok_iff.mp laid
    obtain ⟨describes, indexes, entry, names⟩ :=
      describe_eq_ok (by simpa using operands) described
    obtain ⟨pushed, free⟩ := register_eq_ok registered
    exact ⟨m, pushed, describes, indexes, entry,
      fun other member => ⟨names other member, free other member⟩⟩
  · rename_i name args locals index operands
    obtain ⟨m, described, registered⟩ := bind_eq_ok_iff.mp laid
    obtain ⟨describes, indexes, entry, names⟩ :=
      describe_eq_ok (by simpa using operands) described
    obtain ⟨pushed, free⟩ := register_eq_ok registered
    exact ⟨m, pushed, describes, indexes, entry,
      fun other member => ⟨names other member, free other member⟩⟩
  · cases laid

/-! ## The table -/

/-- What the first pass knows of methods after some lines: one row for each
method directive, in order. -/
structure Tabulates (l : Layout) (lines : List Line) : Prop where
  length : l.methods.toList.length = (methodDirectives lines).length
  row {k place : Nat} {p : Phrase} {m : NamedMethod} :
    (methodDirectives lines)[k]? = some (place, p) →
    l.methods.toList[k]? = some m →
    Row lines (l.methods.toList.take k) place p m

theorem tabulates_nil : ({} : Layout).Tabulates [] where
  length := rfl
  row found := by
    simp [methodDirectives] at found

/-- A line without a method directive leaves the table as it is. -/
theorem Tabulates.keep {line : Line} (tabulates : l.Tabulates lines)
    (none : methodPhrase? line = none) (same : next.methods = l.methods) :
    next.Tabulates (lines ++ [line]) := by
  have directives :
      methodDirectives (lines ++ [line]) = methodDirectives lines := by
    simp [methodDirectives_append_singleton, none]
  refine ⟨?_, ?_⟩
  · rw [same, directives, tabulates.length]
  · intro k place p m directive found
    rw [directives] at directive
    rw [same] at found ⊢
    obtain ⟨describes, entry, indexes, fresh⟩ :=
      tabulates.row directive found
    refine ⟨describes, ?_, indexes, fresh⟩
    have inside := place_lt_of_mem (List.mem_of_getElem? directive)
    rw [entry, List.take_append_of_le_length (by omega)]

/-- A line with a method directive adds its row at the end of the table. -/
theorem Tabulates.add {line : Line} (tabulates : l.Tabulates lines)
    (directive : methodPhrase? line = some p)
    (pushed : next.methods = l.methods.push m)
    (row : Row lines l.methods.toList lines.length p m) :
    next.Tabulates (lines ++ [line]) := by
  have directives : methodDirectives (lines ++ [line]) =
      methodDirectives lines ++ [(lines.length, p)] := by
    simp [methodDirectives_append_singleton, directive]
  have methods : next.methods.toList = l.methods.toList ++ [m] := by
    simp [pushed]
  have length := tabulates.length
  have earlier (place : Nat) (inside : place ≤ lines.length) :
      (lines ++ [line]).take place = lines.take place :=
    List.take_append_of_le_length inside
  refine ⟨?_, ?_⟩
  · simp [methods, directives, length]
  · intro k place q other found foundMethod
    rw [directives] at found
    rw [methods] at foundMethod ⊢
    rcases Nat.lt_or_ge k l.methods.toList.length with before | behind
    · rw [List.getElem?_append_left (by omega)] at found foundMethod
      obtain ⟨describes, entry, indexes, fresh⟩ :=
        tabulates.row found foundMethod
      have inside := place_lt_of_mem (List.mem_of_getElem? found)
      rw [List.take_append_of_le_length (by omega)]
      exact ⟨describes, by rw [entry, earlier place (by omega)],
        indexes, fresh⟩
    · have bound := (List.getElem?_eq_some_iff.mp foundMethod).1
      obtain rfl : k = l.methods.toList.length := by
        simp only [List.length_append, List.length_singleton] at bound
        omega
      obtain rfl : m = other := by simpa using foundMethod
      obtain ⟨rfl, rfl⟩ : lines.length = place ∧ p = q := by
        simpa [length] using found
      obtain ⟨describes, entry, indexes, fresh⟩ := row
      rw [List.take_left]
      exact ⟨describes, by rw [entry, earlier _ (Nat.le_refl _)],
        indexes, fresh⟩

theorem tabulates_line {line : Line} (reflects : l.Reflects lines)
    (tabulates : l.Tabulates lines) (laid : l.line line = .ok next) :
    next.Tabulates (lines ++ [line]) := by
  cases line_case laid with
  | plain none methods =>
      exact tabulates.keep (methodPhrase?_eq_none none) methods
  | directive statement laid =>
      -- Declaring the label of the line has not touched the table.
      have labelled : Layout.Tabulates
          { l with labels := declared line l.address ++ l.labels } lines :=
        ⟨tabulates.length, tabulates.row⟩
      cases directive_case laid with
      | entry name | global name | stack name =>
          exact labelled.keep (by simp [methodPhrase?, statement, name]) rfl
      | method name laid =>
          obtain ⟨m, rfl, describes, indexes, entry, fresh⟩ :=
            methodDirective_eq_ok laid
          refine labelled.add (by simp [methodPhrase?, statement, name]) rfl
            ⟨describes, ?_, indexes, fresh⟩
          rw [entry, List.take_length]
          exact congrArg Int64.ofNat reflects.address

theorem ofLines_tabulates (laid : Layout.ofLines lines = .ok l) :
    l.Tabulates lines := by
  have both : l.Reflects lines ∧ l.Tabulates lines := by
    refine @ofLines_induction l lines
      (fun l lines => l.Reflects lines ∧ l.Tabulates lines)
      ⟨reflects_nil, tabulates_nil⟩ ?_ laid
    intro before after seen line holds stepped
    exact ⟨reflects_line holds.1 stepped,
      tabulates_line holds.1 holds.2 stepped⟩
  exact both.2

/-! ## Names and indexes in the table -/

namespace Tabulates

variable {k place : Nat} {name : String} (tabulates : l.Tabulates lines)

include tabulates

theorem exists_row (found : l.methods.toList[k]? = some m) :
    ∃ place p, (methodDirectives lines)[k]? = some (place, p) ∧
      Row lines (l.methods.toList.take k) place p m := by
  have bound := (List.getElem?_eq_some_iff.mp found).1
  have declared :=
    List.getElem?_eq_getElem (tabulates.length ▸ bound :
      k < (methodDirectives lines).length)
  exact ⟨_, _, declared, tabulates.row declared found⟩

/-- Two rows differ in name and index. -/
theorem pairwise_fresh :
    l.methods.toList.Pairwise fun one other =>
      one.name ≠ other.name ∧ one.index ≠ other.index := by
  rw [List.pairwise_iff_getElem]
  intro first second firstBound secondBound order
  obtain ⟨place, p, -, row⟩ :=
    tabulates.exists_row (List.getElem?_eq_getElem secondBound)
  apply row.fresh
  exact List.mem_take_iff_getElem.mpr
    ⟨first, by omega, rfl⟩

theorem position_unique {j : Nat} {other : NamedMethod}
    (found : l.methods.toList[j]? = some m)
    (otherFound : l.methods.toList[k]? = some other)
    (same : m.name = other.name) : j = k := by
  have apart := List.pairwise_iff_getElem.mp tabulates.pairwise_fresh
  obtain ⟨bound, rfl⟩ := List.getElem?_eq_some_iff.mp found
  obtain ⟨otherBound, rfl⟩ := List.getElem?_eq_some_iff.mp otherFound
  rcases Nat.lt_trichotomy j k with before | here | behind
  · exact absurd same (apart j k bound otherBound before).1
  · exact here
  · exact absurd same.symm (apart k j otherBound bound behind).1

/-- The row of a method that is found by its name. -/
theorem lookup (found : l.method? name = some m) :
    m.name = name ∧ m ∈ l.methods.toList ∧
      ∃ place p before, (place, p) ∈ methodDirectives lines ∧
        Row lines before place p m := by
  have own : m.name = name := by
    simpa using Array.find?_some found
  have member : m ∈ l.methods.toList := by
    simpa using Array.mem_of_find?_eq_some found
  obtain ⟨k, inTable⟩ := List.mem_iff_getElem?.mp member
  obtain ⟨place, p, declared, row⟩ := tabulates.exists_row inTable
  exact ⟨own, member, place, p, _, List.mem_of_getElem? declared, row⟩

/-- A name is given by one directive only. -/
theorem declaration_unique {other : Nat} {q : Phrase}
    (declared : (place, p) ∈ methodDirectives lines)
    (otherDeclared : (other, q) ∈ methodDirectives lines)
    (names : Names p name) (otherNames : Names q name) :
    (place, p) = (other, q) := by
  have rowOf (place : Nat) (p : Phrase)
      (declared : (place, p) ∈ methodDirectives lines)
      (names : Names p name) :
      ∃ (k : Nat) (m : NamedMethod),
        (methodDirectives lines)[k]? = some (place, p) ∧
          l.methods.toList[k]? = some m ∧ m.name = name := by
    obtain ⟨k, found⟩ := List.mem_iff_getElem?.mp declared
    have bound := (List.getElem?_eq_some_iff.mp found).1
    have inTable :=
      List.getElem?_eq_getElem (tabulates.length ▸ bound :
        k < l.methods.toList.length)
    have row := tabulates.row found inTable
    exact ⟨k, _, found, inTable, row.describes.name.unique names⟩
  obtain ⟨j, m, found, inTable, own⟩ := rowOf place p declared names
  obtain ⟨k, m', otherFound, otherInTable, otherOwn⟩ :=
    rowOf other q otherDeclared otherNames
  obtain rfl := tabulates.position_unique inTable otherInTable
    (own.trans otherOwn.symm)
  exact Option.some.inj (found.symm.trans otherFound)

end Tabulates

end Layout

/-! ## Indexes within bounds -/

/-- Whether no method without a written index follows one with the greatest
index of a call. -/
def CountsWithin (lines : List Line) (methods : List NamedMethod) : Prop :=
  ∀ (k place : Nat) (p : Phrase) (m : NamedMethod),
    (methodDirectives lines)[k + 1]? = some (place, p) →
    methods[k]? = some m →
    p.operands[3]? = none →
    m.index.toInt ≠ maxU16

/-- Whether the index of a method is one that a call can hold. -/
def IndexFits (m : NamedMethod) : Prop :=
  0 ≤ m.index.toInt ∧ m.index.toInt ≤ maxU16

theorem indexAfter_take {methods : List NamedMethod} {k : Nat}
    {m : NamedMethod} (found : methods[k]? = some m) :
    indexAfter (methods.take (k + 1)) = m.index + 1 := by
  have last : (methods.take (k + 1)).getLast? = some m := by
    simp [List.getLast?_take, found]
  simp [indexAfter, last]

theorem toInt_index_succ {m : NamedMethod} (fits : IndexFits m) :
    (m.index + 1).toInt = m.index.toInt + 1 := by
  obtain ⟨lower, upper⟩ := fits
  simp only [maxU16] at upper
  have one : (1 : Int64).toInt = 1 := rfl
  rw [toInt_add_of_fits (by omega) (by omega), one]

namespace Layout

variable {l : Layout} {lines : List Line}

/-- All indexes fit exactly if counting on never starts from the greatest
one. -/
theorem Tabulates.fits_iff (tabulates : l.Tabulates lines) :
    (∀ m ∈ l.methods.toList, IndexFits m) ↔
      CountsWithin lines l.methods.toList := by
  constructor
  · intro fits k place p m declared found unwritten greatest
    have bound := (List.getElem?_eq_some_iff.mp declared).1
    have nextFound :=
      List.getElem?_eq_getElem (tabulates.length ▸ bound :
        k + 1 < l.methods.toList.length)
    have nextFits := fits _ (List.mem_of_getElem? nextFound)
    cases (tabulates.row declared nextFound).indexes with
    | written written =>
        rw [unwritten] at written
        cases written
    | counted _ index =>
        have own := fits m (List.mem_of_getElem? found)
        have upper := nextFits.2
        rw [index, indexAfter_take found, toInt_index_succ own] at upper
        omega
  · intro within m member
    obtain ⟨k, found⟩ := List.mem_iff_getElem?.mp member
    clear member
    induction k generalizing m with
    | zero =>
        obtain ⟨place, p, declared, row⟩ := tabulates.exists_row found
        cases row.indexes with
        | written _ _ lower upper =>
            exact ⟨lower, upper⟩
        | counted _ index =>
            have zero : m.index.toInt = 0 := by
              rw [index]
              rfl
            exact ⟨by omega, by simp only [maxU16]; omega⟩
    | succ k inductionHypothesis =>
        obtain ⟨place, p, declared, row⟩ := tabulates.exists_row found
        cases row.indexes with
        | written _ _ lower upper =>
            exact ⟨lower, upper⟩
        | counted unwritten index =>
            have bound := (List.getElem?_eq_some_iff.mp found).1
            have before := List.getElem?_eq_getElem
              (by omega : k < l.methods.toList.length)
            have fits := inductionHypothesis _ before
            have below := within k place p _ declared before unwritten
            rw [indexAfter_take before] at index
            have value := toInt_index_succ fits
            rw [← index] at value
            obtain ⟨lower, upper⟩ := fits
            exact ⟨by omega, by omega⟩

end Layout

/-! ## Calls by name -/

/-- Whether the line at a place calls a method by its name. -/
def CallsByName (lines : List Line) (place : Nat) (name : String) : Prop :=
  ∃ line p o, lines[place]? = some line ∧ line.instruction? = some p ∧
    Operation.ofMnemonic? p.name = some .call ∧
      p.operands = [o] ∧ o.symbol? = some name

theorem Denotes.method_index {l : Layout} {address : Nat} {o : Operand}
    {n : Int} {name : String} (denotes : Denotes l address .call o n)
    (symbol : o.symbol? = some name) :
    ∃ m, l.method? name = some m ∧
      n = (UInt16.ofInt m.index.toInt).toNat := by
  cases denotes with
  | written read =>
      have kind := kind_of_intValue read
      rw [kind_of_symbol? symbol] at kind
      cases kind
  | label jumps =>
      rcases jumps with impossible | impossible
      · cases impossible
      · cases impossible
  | @method own m _ ownSymbol known =>
      obtain rfl : own = name := by
        simpa [ownSymbol] using symbol
      exact ⟨m, known, rfl⟩

theorem ofLines_methods {lines : List Line} {img : Image} {l : Layout}
    (laid : ofLines lines = .ok img)
    (layout : Layout.ofLines lines = .ok l) : img.methods = l.methods := by
  simp only [ofLines, layout, bind_eq_ok_iff, pure_eq_ok_iff] at laid
  obtain ⟨_, same, code, -, entry, -, rfl⟩ := laid
  cases same
  rfl

/-- The word of a call by name is a call of the index of its method, cut to
sixteen bits. -/
theorem callsByName_word {lines : List Line} {img : Image} {place : Nat}
    {name : String} (laid : ofLines lines = .ok img)
    (calls : CallsByName lines place name) :
    ∃ w m, img.words[instructionCount (lines.take place)]? = some w ∧
      img.methodByName? name = some m ∧
        (Instruction.decode w).opcode = Operation.call.byte ∧
          (Instruction.decode w).imm.toInt =
            (UInt16.ofInt m.index.toInt).toNat := by
  obtain ⟨l, layout, encoded⟩ := ofLines_eq_ok laid
  obtain ⟨line, p, o, here, holds, mnemonic, operands, symbol⟩ := calls
  obtain ⟨w, found, own⟩ :=
    encodeFrom_getElem? encoded (instructions_getElem? here holds)
  rw [Array.size_empty, Nat.zero_add] at found own
  obtain ⟨op, known, counted, own⟩ := encode_eq_ok_iff.mp own
  obtain rfl := Option.some.inj (mnemonic.symm.trans known)
  obtain ⟨regs, imm, encodes⟩ := wordOf_encodes counted own
  have last : p.operands[Operation.call.registers]? = some o := by
    rw [operands]
    rfl
  obtain ⟨m, inTable, value⟩ :=
    (encodes.number o last).method_index symbol
  refine ⟨w, m, found, ?_, ?_, ?_⟩
  · rw [Image.methodByName?, ofLines_methods laid layout]
    exact inTable
  · rw [encodes.decode]
    rfl
  · rw [encodes.decode]
    exact value

theorem assemble_eq_ok {source : List UInt8} {img : Image}
    (accepted : assemble source = .ok img) :
    ∃ lines, Source.parse source = .ok lines ∧
      ofLines lines = .ok img := by
  simp only [assemble] at accepted
  split at accepted
  · cases accepted
  · rename_i lines parsed
    exact ⟨lines, parsed, accepted⟩

/-- Whether all indexes of an image fit into the number of a call, and all
its calls by name hold the index of the method that they name. -/
structure IndexesFit (lines : List Line) (img : Image) : Prop where
  range (m : NamedMethod) : m ∈ img.methods →
    0 ≤ m.index.toInt ∧ m.index.toInt ≤ maxU16
  calls (place : Nat) (name : String) : CallsByName lines place name →
    ∃ w m, img.words[instructionCount (lines.take place)]? = some w ∧
      img.methodByName? name = some m ∧
        (Instruction.decode w).imm.toInt = m.index.toInt

/-- Indexes that are counted on are not checked: they fit unless a method
without a written index follows one with the greatest index.  In any case a
call by name holds the index cut to sixteen bits. -/
theorem indexesFit_iff {source : List UInt8} {img : Image}
    (accepted : assemble source = .ok img) :
    ∃ lines, Source.parse source = .ok lines ∧
      (IndexesFit lines img ↔ CountsWithin lines img.methods.toList) ∧
        ∀ place name, CallsByName lines place name →
          ∃ w m, img.words[instructionCount (lines.take place)]? = some w ∧
            img.methodByName? name = some m ∧
              (Instruction.decode w).imm.toInt =
                (UInt16.ofInt m.index.toInt).toNat := by
  obtain ⟨lines, parsed, laid⟩ := assemble_eq_ok accepted
  obtain ⟨l, layout, -⟩ := ofLines_eq_ok laid
  have fitsIff := (Layout.ofLines_tabulates layout).fits_iff
  rw [← ofLines_methods laid layout] at fitsIff
  refine ⟨lines, parsed, ?_, ?_⟩
  · rw [← fitsIff]
    constructor
    · intro fit m member
      exact fit.range m (by simpa using member)
    · intro fit
      refine ⟨fun m member => fit m (by simpa using member), ?_⟩
      intro place name calls
      obtain ⟨w, m, found, named, -, value⟩ := callsByName_word laid calls
      have member := Array.mem_of_find?_eq_some named
      obtain ⟨lower, upper⟩ := fit m (by simpa using member)
      exact ⟨w, m, found, named, by rw [value, toNat_ofInt_u16 lower upper]⟩
  · intro place name calls
    obtain ⟨w, m, found, named, -, value⟩ := callsByName_word laid calls
    exact ⟨w, m, found, named, value⟩

/-- A source in which counting on starts from the greatest index. -/
def overflowingSource : List UInt8 :=
  (".method a, 0, 0, 65535\n" ++
    ".method b, 0, 0\n" ++
    "call b\n").toUTF8.toList

def overflowingImage : Image where
  magic := Image.expectedMagic
  version := Image.expectedVersion
  entry := 0
  code := some #[0x00000020]
  methods := #[⟨"a", 65535, 0, 0, 0⟩, ⟨"b", 65536, 0, 0, 0⟩]
  globals := #[]
  stack := #[]
  checksum := Vector.replicate 32 0

theorem overflowingSource_unfit :
    assemble overflowingSource = .ok overflowingImage ∧
      ∃ lines, Source.parse overflowingSource = .ok lines ∧
        ¬ IndexesFit lines overflowingImage ∧
          ¬ CountsWithin lines overflowingImage.methods.toList := by
  have accepted : assemble overflowingSource = .ok overflowingImage :=
    toOption_eq_some_iff.mp (by decide +kernel)
  obtain ⟨lines, parsed, fitIff, -⟩ := indexesFit_iff accepted
  have unfit : ¬ IndexesFit lines overflowingImage := by
    intro fit
    have upper := (fit.range ⟨"b", 65536, 0, 0, 0⟩
      (by simp [overflowingImage])).2
    exact absurd upper (by decide)
  exact ⟨accepted, lines, parsed, unfit,
    fun within => unfit (fitIff.mpr within)⟩

end Assembly

end WindowMachine
