import Mathlib.Data.List.Induction
import WindowMachine.Proofs.Assembly.Directives
import WindowMachine.Proofs.Machine.MemorySafety
import WindowMachine.Proofs.Source.Sizes

/-!
# Assembled images

An image that the assembler makes of a source says what the source says.  Its
methods, globals and stack values stand in the order of their directives, no
two methods share a name or an index, and all addresses lie within the code or
right behind it.  Only an entry address that is written as a number may lie
anywhere.

An index that is counted on grows without a check.  It stays exact
nevertheless, because a source is too short for enough methods to make it wrap
around.
-/

namespace WindowMachine

open Source (Line Operand Phrase Statement statementCount)

namespace Assembly

/-! ## What an image should say -/

/-- What a method directive becomes, behind the methods of the directives
before it. -/
structure Lists (lines : List Line) (before : List NamedMethod)
    (place : Nat) (p : Phrase) (m : NamedMethod) : Prop where
  describes : Describes p m
  entry : m.entry.toInt = instructionCount (lines.take place)
  written (o : Operand) : p.operands[3]? = some o →
    o.intValue = .ok m.index.toInt
  counted : p.operands[3]? = none →
    m.index.toInt = (before.getLast?.map (·.index.toInt + 1)).getD 0

/-- Where a program starts: at the label or else at the method that the last
entry directive names, or at the number that it gives; without such a
directive at the label `main`, or else at the first instruction. -/
inductive StartsAt (lines : List Line) (methods : Array NamedMethod)
    (start : Int64) : Prop
  | label {o : Operand} {name : String} {place : Nat} :
      entryOperand? lines = some o →
      o.symbol? = some name →
      Declares lines place name →
      start.toInt = instructionCount (lines.take place) →
      StartsAt lines methods start
  | method {o : Operand} {m : NamedMethod} :
      entryOperand? lines = some o →
      o.symbol? = some m.name →
      (∀ place, ¬ Declares lines place m.name) →
      m ∈ methods →
      start = m.entry →
      StartsAt lines methods start
  | number {o : Operand} :
      entryOperand? lines = some o →
      o.intValue = .ok start.toInt →
      0 ≤ start.toInt →
      start.toInt ≤ maxInt32 →
      StartsAt lines methods start
  | main {place : Nat} :
      entryOperand? lines = none →
      Declares lines place "main" →
      start.toInt = instructionCount (lines.take place) →
      StartsAt lines methods start
  | first :
      entryOperand? lines = none →
      (∀ place, ¬ Declares lines place "main") →
      start = 0 →
      StartsAt lines methods start

/-- Whether an image says what some lines say. -/
structure WellFormed (lines : List Line) (img : Image) : Prop where
  code : img.words.size = instructionCount lines
  /-- Each method directive has its method, in order. -/
  listed : img.methods.size = (methodDirectives lines).length
  method {k place : Nat} {p : Phrase} {m : NamedMethod} :
    (methodDirectives lines)[k]? = some (place, p) →
    img.methods[k]? = some m →
    Lists lines (img.methods.toList.take k) place p m
  names : img.methods.toList.Pairwise (·.name ≠ ·.name)
  indexes : img.methods.toList.Pairwise (·.index ≠ ·.index)
  /-- Arguments and locals are from zero to the greatest 16-bit number. -/
  modest (m : NamedMethod) : m ∈ img.methods → m.method.Modest
  entries : img.methods.toList.Pairwise (·.entry.toInt ≤ ·.entry.toInt)
  entry_le (m : NamedMethod) : m ∈ img.methods →
    m.entry.toInt ≤ img.words.size
  globals : List.Forall₂
    (fun p (g : GlobalSeed) => Seeds p g.index (Slot.ofInt g.value))
    (directives ".global" lines) img.globals.toList
  stack : List.Forall₂ (fun p (s : StackSeed) => Seeds p s.index s.bits)
    (directives ".stack" lines) img.stack.toList
  start : StartsAt lines img.methods img.entry
  start_le : (∀ o, entryOperand? lines = some o → o.kind ≠ .int) →
    img.entry.toInt ≤ img.words.size

/-! ## Counting -/

section Counting

variable {lines : List Line} {place : Nat}

theorem instructionCount_take_le (lines : List Line) (place : Nat) :
    instructionCount (lines.take place) ≤ instructionCount lines :=
  (List.take_sublist place lines).countP_le

theorem instructionCount_take_mono {earlier later : Nat}
    (order : earlier ≤ later) :
    instructionCount (lines.take earlier) ≤
      instructionCount (lines.take later) := by
  have again : (lines.take later).take earlier = lines.take earlier := by
    rw [List.take_take, Nat.min_eq_left order]
  rw [← again]
  exact instructionCount_take_le _ _

theorem instructionCount_le_statementCount (lines : List Line) :
    instructionCount lines ≤ statementCount lines := by
  apply List.countP_mono_left
  intro line _ holds
  cases statement : line.statement with
  | none =>
      simp [Line.instruction?, statement] at holds
  | some body =>
      rfl

theorem length_methodDirectives_le (lines : List Line) :
    (methodDirectives lines).length ≤ statementCount lines := by
  induction lines using List.reverseRecOn with
  | nil =>
      exact Nat.le_refl _
  | append_singleton lines line inductionHypothesis =>
      rw [methodDirectives_append_singleton, List.length_append,
        statementCount, List.countP_append]
      apply Nat.add_le_add inductionHypothesis
      cases statement : line.statement with
      | none =>
          simp [methodPhrase?, statement]
      | some body =>
          simp only [List.countP_singleton, statement, Option.isSome_some,
            if_true]
          cases methodPhrase? line with
          | none =>
              exact Nat.zero_le _
          | some p =>
              exact Nat.le_refl _

/-- Method directives are listed in the order of their places. -/
theorem methodDirectives_ordered (lines : List Line) :
    (methodDirectives lines).Pairwise fun one other => one.1 < other.1 := by
  induction lines using List.reverseRecOn with
  | nil =>
      exact .nil
  | append_singleton lines line inductionHypothesis =>
      rw [methodDirectives_append_singleton, List.pairwise_append]
      refine ⟨inductionHypothesis, ?_, ?_⟩
      · cases methodPhrase? line with
        | none =>
            exact .nil
        | some p =>
            exact List.pairwise_singleton _ _
      · rintro ⟨place, p⟩ earlier ⟨last, q⟩ added
        obtain ⟨_, -, same⟩ : ∃ r, methodPhrase? line = some r ∧
            (lines.length, r) = (last, q) := by
          simpa using added
        cases same
        exact place_lt_of_mem earlier

end Counting

/-! ## The table of methods -/

theorem Row.toInt_entry {lines : List Line} {before : List NamedMethod}
    {place : Nat} {p : Phrase} {m : NamedMethod}
    (row : Row lines before place p m)
    (short : instructionCount lines < 2 ^ 63) :
    m.entry.toInt = instructionCount (lines.take place) := by
  have address := instructionCount_take_le lines place
  rw [row.entry, Int64.toInt_ofNat_of_lt (by omega)]

/-- Counting on from an index that is not the greatest number. -/
theorem toInt_indexAfter_take {methods : List NamedMethod} {k : Nat}
    {m : NamedMethod} (found : methods[k]? = some m)
    (lower : 0 ≤ m.index.toInt) (upper : m.index.toInt < 2 ^ 63 - 1) :
    (indexAfter (methods.take (k + 1))).toInt = m.index.toInt + 1 := by
  have one : (1 : Int64).toInt = 1 := rfl
  rw [indexAfter_take found, toInt_add_of_fits (by omega) (by omega), one]

namespace Layout

variable {l next : Layout} {lines : List Line} {m : NamedMethod}

theorem describe_modest {p : Phrase} {name args locals : Operand}
    {index : Option Operand}
    (described : l.describe p name args locals index = .ok m) :
    m.method.Modest := by
  simp only [describe] at described
  split at described
  · cases described
  · split at described
    · cases described
    · rename_i symbol _ _ _
      simp only [bind_eq_ok_iff] at described
      obtain ⟨a, countedArgs, b, countedLocals, described⟩ := described
      obtain ⟨-, argsLower, argsUpper⟩ := integer_eq_ok_iff.mp countedArgs
      obtain ⟨-, localsLower, localsUpper⟩ :=
        integer_eq_ok_iff.mp countedLocals
      have modest (entry : Int64) :
          Method.Modest ⟨entry, Int64.ofInt a, Int64.ofInt b⟩ := by
        refine ⟨?_, ?_, ?_, ?_⟩
        all_goals simpa only [toInt_ofInt_of_le argsLower argsUpper,
          toInt_ofInt_of_le localsLower localsUpper]
      cases index with
      | none =>
          cases described
          exact modest _
      | some o =>
          obtain ⟨_, -, made⟩ := bind_eq_ok_iff.mp described
          cases made
          exact modest _

theorem methodDirective_modest {p : Phrase}
    (laid : l.methodDirective p = .ok next)
    (modest : ∀ m ∈ l.methods, m.method.Modest) :
    ∀ m ∈ next.methods, m.method.Modest := by
  have added {place : Nat} {m : NamedMethod} (own : m.method.Modest)
      (registered : l.register place m = .ok next) :
      ∀ m ∈ next.methods, m.method.Modest := by
    obtain ⟨rfl, -⟩ := register_eq_ok registered
    intro other member
    rcases Array.mem_push.mp member with earlier | rfl
    · exact modest other earlier
    · exact own
  simp only [methodDirective] at laid
  split at laid
  · obtain ⟨m, described, registered⟩ := bind_eq_ok_iff.mp laid
    exact added (describe_modest described) registered
  · obtain ⟨m, described, registered⟩ := bind_eq_ok_iff.mp laid
    exact added (describe_modest described) registered
  · cases laid

theorem ofLines_modest (laid : Layout.ofLines lines = .ok l) :
    ∀ m ∈ l.methods, m.method.Modest := by
  refine @ofLines_induction l lines
    (fun l _ => ∀ m ∈ l.methods, m.method.Modest) (by simp) ?_ laid
  intro before after seen line modest stepped
  cases line_case stepped with
  | plain _ methods =>
      rw [methods]
      exact modest
  | directive _ carried =>
      cases directive_case carried with
      | entry | global | stack =>
          exact modest
      | method _ laid =>
          exact methodDirective_modest laid modest

namespace Tabulates

variable (tabulates : l.Tabulates lines)

include tabulates

/-- Counting on reaches no further than the number of methods beyond the
greatest index that can be written. -/
theorem index_bounds {k : Nat} (few : l.methods.size ≤ 2 ^ 62)
    (found : l.methods.toList[k]? = some m) :
    0 ≤ m.index.toInt ∧ m.index.toInt ≤ maxU16 + k := by
  induction k generalizing m with
  | zero =>
      obtain ⟨place, p, -, row⟩ := tabulates.exists_row found
      cases row.indexes with
      | written _ _ lower upper =>
          exact ⟨lower, by omega⟩
      | counted _ index =>
          rw [index, List.take_zero]
          decide
  | succ k inductionHypothesis =>
      obtain ⟨place, p, -, row⟩ := tabulates.exists_row found
      cases row.indexes with
      | written _ _ lower upper =>
          exact ⟨lower, by omega⟩
      | counted _ index =>
          have bound := (List.getElem?_eq_some_iff.mp found).1
          have before := List.getElem?_eq_getElem
            (by omega : k < l.methods.toList.length)
          obtain ⟨lower, upper⟩ := inductionHypothesis before
          rw [Array.length_toList] at bound
          simp only [maxU16] at upper ⊢
          rw [index, toInt_indexAfter_take before lower (by omega)]
          omega

/-- A table of methods lists the method directives. -/
theorem lists {k place : Nat} {p : Phrase}
    (few : l.methods.size ≤ 2 ^ 62)
    (short : instructionCount lines < 2 ^ 63)
    (declared : (methodDirectives lines)[k]? = some (place, p))
    (found : l.methods.toList[k]? = some m) :
    Lists lines (l.methods.toList.take k) place p m := by
  have row := tabulates.row declared found
  have indexes := row.indexes
  refine ⟨row.describes, row.toInt_entry short, ?_, ?_⟩
  · intro o written
    cases indexes with
    | written own value =>
        rw [own] at written
        cases written
        exact value
    | counted unwritten =>
        rw [unwritten] at written
        cases written
  · intro unwritten
    cases indexes with
    | written own =>
        rw [unwritten] at own
        cases own
    | counted _ index =>
        cases k with
        | zero =>
            rw [index]
            rfl
        | succ k =>
            have bound := (List.getElem?_eq_some_iff.mp found).1
            have before := List.getElem?_eq_getElem
              (by omega : k < l.methods.toList.length)
            have last : (l.methods.toList.take (k + 1)).getLast? =
                some l.methods.toList[k] := by
              simp [List.getLast?_take, before]
            obtain ⟨lower, upper⟩ := tabulates.index_bounds few before
            rw [Array.length_toList] at bound
            simp only [maxU16] at upper
            rw [index, toInt_indexAfter_take before lower (by omega), last]
            rfl

/-- Later methods begin no earlier. -/
theorem entries (short : instructionCount lines < 2 ^ 63) :
    l.methods.toList.Pairwise (·.entry.toInt ≤ ·.entry.toInt) := by
  rw [List.pairwise_iff_getElem]
  intro first second firstBound secondBound order
  obtain ⟨place, p, declared, row⟩ :=
    tabulates.exists_row (List.getElem?_eq_getElem firstBound)
  obtain ⟨later, q, laterDeclared, laterRow⟩ :=
    tabulates.exists_row (List.getElem?_eq_getElem secondBound)
  obtain ⟨bound, here⟩ := List.getElem?_eq_some_iff.mp declared
  obtain ⟨laterBound, there⟩ := List.getElem?_eq_some_iff.mp laterDeclared
  have ordered : place < later := by
    have places := List.pairwise_iff_getElem.mp
      (methodDirectives_ordered lines) first second bound laterBound order
    rwa [here, there] at places
  rw [row.toInt_entry short, laterRow.toInt_entry short]
  exact Int.ofNat_le.mpr (instructionCount_take_mono (Nat.le_of_lt ordered))

theorem entry_le (short : instructionCount lines < 2 ^ 63)
    (member : m ∈ l.methods) : m.entry.toInt ≤ instructionCount lines := by
  obtain ⟨k, found⟩ :=
    List.mem_iff_getElem?.mp (Array.mem_toList_iff.mpr member)
  obtain ⟨place, p, -, row⟩ := tabulates.exists_row found
  have address := instructionCount_take_le lines place
  rw [row.toInt_entry short]
  omega

end Tabulates

end Layout

/-! ## Where a program starts -/

section Entry

variable {l : Layout} {lines : List Line} {start : Int64}

/-- The address of a label, which is exact in a short text. -/
private theorem declares_of_label? (reflects : l.Reflects lines)
    (short : instructionCount lines < 2 ^ 63) {name : String} {target : Nat}
    (known : l.label? name = some target) :
    ∃ place, Declares lines place name ∧
      (Int64.ofNat target).toInt = instructionCount (lines.take place) := by
  obtain ⟨place, declares, rfl⟩ := (reflects.label? name target).mp known
  have address := instructionCount_take_le lines place
  exact ⟨place, declares, Int64.toInt_ofNat_of_lt (by omega)⟩

private theorem undeclared_of_label? (reflects : l.Reflects lines)
    {name : String} (unknown : l.label? name = none) (place : Nat) :
    ¬ Declares lines place name := by
  intro declares
  have known := (reflects.label? name _).mpr ⟨place, declares, rfl⟩
  rw [unknown] at known
  cases known

theorem entryAddress_eq_ok (reflects : l.Reflects lines)
    (collects : l.Collects lines) (short : instructionCount lines < 2 ^ 63)
    (settled : entryAddress l = .ok start) :
    StartsAt lines l.methods start := by
  simp only [entryAddress] at settled
  split at settled
  · rename_i unwritten
    rw [collects.entry] at unwritten
    cases known : l.label? "main" with
    | none =>
        rw [known] at settled
        cases settled
        exact .first unwritten (undeclared_of_label? reflects known) rfl
    | some target =>
        rw [known] at settled
        cases settled
        obtain ⟨place, declares, address⟩ :=
          declares_of_label? reflects short known
        exact .main unwritten declares address
  · rename_i o written
    rw [collects.entry] at written
    split at settled
    · obtain ⟨n, counted, rfl⟩ := map_eq_ok_iff.mp settled
      obtain ⟨value, lower, upper⟩ := integer_eq_ok_iff.mp counted
      have exactly : (Int64.ofInt n).toInt = n := by
        simp only [maxInt32] at upper
        exact Int64.toInt_ofInt_of_le (by omega) (by omega)
      rw [← exactly] at value lower upper
      exact .number written value lower upper
    · rename_i name symbol
      split at settled
      · cases settled
        obtain ⟨place, declares, address⟩ :=
          declares_of_label? reflects short ‹_›
        exact .label written symbol declares address
      · rename_i m unknown found
        cases settled
        obtain rfl : m.name = name := by
          simpa using Array.find?_some found
        exact .method written symbol (undeclared_of_label? reflects unknown)
          (Array.mem_of_find?_eq_some found) rfl
      · cases settled

/-- Only a number can be beyond the code. -/
theorem StartsAt.le {methods : Array NamedMethod}
    (starts : StartsAt lines methods start)
    (within : ∀ m ∈ methods, m.entry.toInt ≤ instructionCount lines)
    (named : ∀ o, entryOperand? lines = some o → o.kind ≠ .int) :
    start.toInt ≤ instructionCount lines := by
  cases starts with
  | @label _ _ place _ _ _ address | @main place _ _ address =>
      have bound := instructionCount_take_le lines place
      omega
  | method _ _ _ member own =>
      rw [own]
      exact within _ member
  | number written value =>
      exact absurd (kind_of_intValue value) (named _ written)
  | first _ _ zero =>
      rw [zero]
      exact Int.natCast_nonneg _

end Entry

/-! ## Images -/

theorem ofLines_data {lines : List Line} {img : Image} {l : Layout}
    (laid : ofLines lines = .ok img)
    (layout : Layout.ofLines lines = .ok l) :
    img.globals = l.globals ∧ img.stack = l.stack ∧
      entryAddress l = .ok img.entry := by
  simp only [ofLines, layout, bind_eq_ok_iff, pure_eq_ok_iff] at laid
  obtain ⟨_, same, code, -, entry, settled, rfl⟩ := laid
  cases same
  exact ⟨rfl, rfl, settled⟩

/-- What the assembler accepts becomes an image that says what the source
says.  The length of a text is a 64-bit number, as all indexes are. -/
theorem assemble_wellFormed {source : List UInt8} {img : Image}
    (short : source.length < 2 ^ 63) (accepted : assemble source = .ok img) :
    ∃ lines, Source.parse source = .ok lines ∧ WellFormed lines img := by
  obtain ⟨lines, parsed, laid⟩ := assemble_eq_ok accepted
  obtain ⟨l, layout, encoded⟩ := ofLines_eq_ok laid
  obtain ⟨globals, stack, settled⟩ := ofLines_data laid layout
  have methods := ofLines_methods laid layout
  have reflects := Layout.ofLines_reflects layout
  have tabulates := Layout.ofLines_tabulates layout
  have collects := Layout.ofLines_collects layout
  have size : img.words.size = instructionCount lines := by
    rw [encodeFrom_size encoded, length_instructions, Array.size_empty,
      Nat.zero_add]
  have statements := Source.statementCount_parse parsed
  have counted := instructionCount_le_statementCount lines
  have listed := length_methodDirectives_le lines
  have length := tabulates.length
  rw [Array.length_toList] at length
  have few : l.methods.size ≤ 2 ^ 62 := by omega
  have within : instructionCount lines < 2 ^ 63 := by omega
  have starts := entryAddress_eq_ok reflects collects within settled
  have entry_le : ∀ m ∈ l.methods,
      m.entry.toInt ≤ instructionCount lines :=
    fun _ member => tabulates.entry_le within member
  rw [← methods] at starts entry_le
  refine ⟨lines, parsed, ?_⟩
  exact {
    code := size
    listed := by rw [methods, length]
    method := by
      intro k place p m declared found
      rw [methods] at found ⊢
      exact tabulates.lists few within declared (by simpa using found)
    names := by
      rw [methods]
      exact tabulates.pairwise_fresh.imp And.left
    indexes := by
      rw [methods]
      exact tabulates.pairwise_fresh.imp And.right
    modest := by
      rw [methods]
      exact Layout.ofLines_modest layout
    entries := by
      rw [methods]
      exact tabulates.entries within
    entry_le := by
      rw [size]
      exact entry_le
    globals := by
      rw [globals]
      exact collects.globals
    stack := by
      rw [stack]
      exact collects.stack
    start := starts
    start_le := by
      rw [size]
      exact starts.le entry_le }

/-- A source with both ways to give an index, data of both kinds and two entry
directives. -/
def variedSource : List UInt8 :=
  (".method f, 2, 1, 9\n" ++
    "push r0\n" ++
    ".method g, 0, 0\n" ++
    ".entry f\n" ++
    ".global 3, -5\n" ++
    "main: end\n" ++
    ".stack 0, 1.5\n" ++
    ".global 3, 4294967295\n" ++
    ".entry g\n").toUTF8.toList

def variedImage : Image where
  magic := Image.expectedMagic
  version := Image.expectedVersion
  entry := 1
  code := some #[0x00000015, 0x00000024]
  methods := #[⟨"f", 9, 0, 2, 1⟩, ⟨"g", 10, 1, 0, 0⟩]
  globals := #[⟨3, -5⟩, ⟨3, -1⟩]
  stack := #[⟨0, 0x3FC00000⟩]
  checksum := Vector.replicate 32 0

theorem variedSource_wellFormed :
    variedSource.length < 2 ^ 63 ∧
      assemble variedSource = .ok variedImage ∧
        ∃ lines, Source.parse variedSource = .ok lines ∧
          WellFormed lines variedImage := by
  have short : variedSource.length < 2 ^ 63 := by decide +kernel
  have accepted : assemble variedSource = .ok variedImage :=
    toOption_eq_some_iff.mp (by decide +kernel)
  exact ⟨short, accepted, assemble_wellFormed short accepted⟩

end Assembly

end WindowMachine
