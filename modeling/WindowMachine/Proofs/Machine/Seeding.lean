import WindowMachine.Proofs.Machine.Reachable

/-!
# Methods of an image on a machine

Seeding goes through the entries of an image one by one.  If no entry is
refused, it is a fold of the setters.  Setting a method changes what is found
at its own index and nowhere else, so methods with different indexes are all
found afterwards, each at its index.
-/

namespace WindowMachine

namespace Machine

variable {m n : Machine} {index other : Int64} {method : Method}

theorem method?_eq_some_iff :
    m.method? index = some method ↔
      ∃ place, position? index m.methods.size = some place ∧
        m.methods[place]? = some (some method) := by
  simp only [method?, bind, Option.bind_eq_some_iff,
    Option.join_eq_some_iff]

theorem method?_congr (same : n.methods = m.methods) :
    n.method? index = m.method? index := by
  simp only [method?, same]

theorem setMethod_method?_self
    (set : m.setMethod index method = .ok n) :
    n.method? index = some method := by
  obtain ⟨-, -, place, found, rfl⟩ := setMethod_eq_ok_iff.mp set
  have inside := (position?_eq_some_iff.mp found).2
  apply method?_eq_some_iff.mpr
  refine ⟨place, ?_, ?_⟩
  · simpa using found
  · simp [inside]

theorem setMethod_method?_of_ne
    (set : m.setMethod index method = .ok n) (different : other ≠ index) :
    n.method? other = m.method? other := by
  obtain ⟨-, -, place, found, rfl⟩ := setMethod_eq_ok_iff.mp set
  simp only [method?, Array.size_setIfInBounds]
  cases position : position? other m.methods.size with
  | none =>
      rfl
  | some otherPlace =>
      have index := (position?_eq_some_iff.mp found).1
      have otherIndex := (position?_eq_some_iff.mp position).1
      have apart : place ≠ otherPlace := by
        rintro rfl
        exact different (Int64.toInt_inj.mp (otherIndex.trans index.symm))
      simp [Array.getElem?_setIfInBounds_ne apart]

end Machine

namespace Image

variable {m n : Machine} {entries : List NamedMethod} {entry : NamedMethod}

theorem seedMethod_eq_ok_iff :
    seedMethod m entry = .ok n ↔
      m.setMethod entry.index entry.method = .ok n := by
  simp only [seedMethod]
  cases m.setMethod entry.index entry.method with
  | error why =>
      simp
  | ok set =>
      simp

theorem seedAll_eq_none_iff {α : Type}
    {set : Machine → α → Except Failure Machine} {entries : List α} :
    seedAll set m entries = (n, none) ↔ entries.foldlM set m = .ok n := by
  induction entries generalizing m with
  | nil =>
      simp [seedAll]
  | cons entry rest inductionHypothesis =>
      rw [List.foldlM_cons, bind_eq_ok_iff, seedAll]
      cases attempt : set m entry with
      | error why =>
          simp
      | ok next =>
          simp [inductionHypothesis]

theorem foldlM_method?_of_ne {index : Int64}
    (seeded : entries.foldlM seedMethod m = .ok n)
    (different : ∀ entry ∈ entries, index ≠ entry.index) :
    n.method? index = m.method? index := by
  induction entries generalizing m with
  | nil =>
      cases seeded
      rfl
  | cons first rest inductionHypothesis =>
      rw [List.foldlM_cons, bind_eq_ok_iff] at seeded
      obtain ⟨next, set, seeded⟩ := seeded
      have later := inductionHypothesis seeded
        (fun entry member => different entry (List.mem_cons_of_mem _ member))
      rw [later]
      exact Machine.setMethod_method?_of_ne (seedMethod_eq_ok_iff.mp set)
        (different first List.mem_cons_self)

/-- Methods with different indexes are all found, each at its index. -/
theorem foldlM_method? (seeded : entries.foldlM seedMethod m = .ok n)
    (distinct : entries.Pairwise fun one other => one.index ≠ other.index)
    (member : entry ∈ entries) :
    n.method? entry.index = some entry.method := by
  induction entries generalizing m with
  | nil =>
      cases member
  | cons first rest inductionHypothesis =>
      rw [List.foldlM_cons, bind_eq_ok_iff] at seeded
      obtain ⟨next, set, seeded⟩ := seeded
      obtain ⟨apart, distinct⟩ := List.pairwise_cons.mp distinct
      rcases List.mem_cons.mp member with rfl | later
      · rw [foldlM_method?_of_ne seeded apart]
        exact Machine.setMethod_method?_self (seedMethod_eq_ok_iff.mp set)
      · exact inductionHypothesis seeded distinct later

theorem seedAll_methods {α : Type}
    {set : Machine → α → Except Failure Machine}
    (keeps : ∀ entry before after,
      set before entry = .ok after → after.methods = before.methods)
    (entries : List α) :
    (seedAll set m entries).1.methods = m.methods := by
  refine @Machine.seedAll_keeps (fun k => k.methods = m.methods) m α set
    entries ?_ rfl
  intro entry _ before after same attempt
  rw [keeps entry before after attempt, same]

/-- An image that is applied as a whole has its methods in the table, and the
other seeds do not touch them. -/
theorem applyTo_eq_none {img : Image}
    (applied : img.applyTo m = (n, none)) :
    ∃ seeded, img.methods.toList.foldlM seedMethod m = .ok seeded ∧
      n.methods = seeded.methods := by
  simp only [applyTo] at applied
  split at applied
  · cases applied
  · rename_i seeded methods
    refine ⟨seeded, seedAll_eq_none_iff.mp methods, ?_⟩
    split at applied
    · cases applied
    · rename_i withGlobals globals
      have keptGlobals := @seedAll_methods seeded _
        (fun m g => m.setGlobal g.index g.value)
        (fun _ _ _ set => Machine.setGlobal_methods set) img.globals.toList
      have keptSlots := @seedAll_methods withGlobals _
        (fun m s => m.setSlot s.index s.bits)
        (fun _ _ _ set => Machine.setSlot_methods set) img.stack.toList
      rw [globals] at keptGlobals
      rw [applied] at keptSlots
      exact keptSlots.trans keptGlobals

end Image

end WindowMachine
