import WindowMachine.Proofs.Listing.Blocks

/-!
# Listings by way of the text of the code

The text of code has one part for each word and an empty one behind the last
newline, since the line of a word stays on one line.  So putting the methods
in front of the parts puts them in front of the addresses, and what is written
part by part is what is written address by address.
-/

namespace WindowMachine.Listing

/-! ## Parts of a text -/

theorem partsAfter_append {stop : Char} {part : List Char}
    (free : stop ∉ part) (rest : List Char) :
    partsAfter stop (part ++ stop :: rest) =
      (part ++ [stop]) :: partsAfter stop rest := by
  induction part with
  | nil =>
      simp [partsAfter]
  | cons c part inductionHypothesis =>
      simp only [List.mem_cons, not_or] at free
      simp [partsAfter, Ne.symm free.1, inductionHypothesis free.2]

/-- Parts without a stop are found again, each with its own. -/
theorem partsAfter_flatMap {stop : Char} {parts : List (List Char)}
    (free : ∀ part ∈ parts, stop ∉ part) :
    partsAfter stop (parts.flatMap (· ++ [stop])) =
      parts.map (· ++ [stop]) ++ [[]] := by
  induction parts with
  | nil =>
      rfl
  | cons part parts inductionHypothesis =>
      obtain ⟨own, others⟩ := List.forall_mem_cons.mp free
      rw [List.flatMap_cons, List.append_assoc, List.singleton_append,
        partsAfter_append own, inductionHypothesis others]
      rfl

theorem splitAfter_ofLines {lines : List String}
    (free : ∀ line ∈ lines, '\n' ∉ line.toList) :
    splitAfter '\n' (ofLines lines) = lines.map (· ++ "\n") ++ [""] := by
  have parts : ∀ part ∈ lines.map String.toList, '\n' ∉ part := by
    intro part member
    obtain ⟨line, inside, rfl⟩ := List.mem_map.mp member
    exact free line inside
  rw [splitAfter, toList_ofLines, partsAfter_flatMap parts]
  simp

/-! ## Texts of lines -/

theorem ofLines_cons (line : String) (lines : List String) :
    ofLines (line :: lines) = line ++ "\n" ++ ofLines lines := by
  apply String.toList_inj.mp
  simp [toList_ofLines]

theorem ofLines_append (lines more : List String) :
    ofLines (lines ++ more) = ofLines lines ++ ofLines more := by
  apply String.toList_inj.mp
  simp [toList_ofLines]

theorem textBefore_eq (img : Image) (address : Nat) :
    textBefore img address = ofLines (linesBefore img address) := by
  have declared (methods : List NamedMethod) (text : String) :
      methods.foldl (fun text m => text ++ "\n" ++ methodLine m ++ "\n") text =
        text ++ ofLines (methods.flatMap fun m => ["", methodLine m]) := by
    induction methods generalizing text with
    | nil =>
        simp [ofLines]
    | cons m methods inductionHypothesis =>
        rw [List.foldl_cons, inductionHypothesis, List.flatMap_cons,
          ofLines_append, ofLines_cons, ofLines_cons]
        simp [ofLines, String.append_assoc]
  rw [textBefore, linesBefore, ofLines_append, declared, String.empty_append]
  split
  · rfl
  · rfl

/-- The parts of the lines of code are merged to the blocks of code. -/
theorem mergeFrom_lines (img : Image) (address : Nat) (words : List Word) :
    mergeFrom img address
        ((words.mapIdx fun offset w => wordLine (address + offset) w).map
          (· ++ "\n") ++ [""]) =
      ofLines (blocksFrom img address words) := by
  induction words generalizing address with
  | nil =>
      simp [mergeFrom, blocksFrom, textBefore_eq]
  | cons w words inductionHypothesis =>
      have shifted :
          (fun offset w => wordLine (address + (offset + 1)) w) =
            fun offset w => wordLine (address + 1 + offset) w := by
        funext offset w
        rw [Nat.add_right_comm, Nat.add_assoc]
      have later := inductionHypothesis (address + 1)
      rw [blocksFrom, ofLines_append, ofLines_cons, ← later]
      simp only [List.mapIdx_cons, shifted, Nat.add_zero, List.map_cons,
        List.cons_append, mergeFrom, textBefore_eq, String.append_assoc]

/-- Both ways give the same text. -/
theorem merged_eq (img : Image) : merged img = ofImage img := by
  have free : ∀ line ∈ codeLines img.words, '\n' ∉ line.toList := by
    intro line member
    obtain ⟨address, inside, rfl⟩ :=
      Array.mem_mapIdx.mp (Array.mem_toList_iff.mp member)
    exact newline_not_mem_wordLine address _
  have code := mergeFrom_lines img 0 img.words.toList
  simp only [Nat.zero_add] at code
  rw [merged, ofCode, splitAfter_ofLines free, codeLines,
    Array.toList_mapIdx, code, ofImage, imageLines_eq, preface]
  simp [ofLines_append, ofLines_cons, String.append_assoc]

end WindowMachine.Listing
