import WindowMachine.Proofs.Machine.Seeding

/-!
# Applied images

An image is applied seed by seed: methods first, then globals, then stack
values.  Whether a seed fits depends on the sizes of the regions, which no seed
changes.  An image is therefore refused just in case one of its seeds does not
fit the machine that it is applied to.  The first such seed gives the failure,
and only the seeds before it have been planted.

A region is written by the seeds of one kind, so it ends up with the last seed
of each place, and with what it held before where there is none.
-/

namespace WindowMachine

/-! ## Seeds -/

/-- One of the things that an image puts into a machine. -/
inductive Seed where
  | method (entry : NamedMethod)
  | global (entry : GlobalSeed)
  | slot (entry : StackSeed)
  deriving DecidableEq, Repr

/-- Whether an index is no position of a region. -/
def Outside (index : Int64) (size : Nat) : Prop :=
  index.toInt < 0 ∨ (size : Int) ≤ index.toInt

instance (index : Int64) (size : Nat) : Decidable (Outside index size) :=
  inferInstanceAs (Decidable (_ ∨ _))

namespace Seed

/-- Whether a machine has no place for a seed, or a seed is no method that it
could hold. -/
def Misfits (m : Machine) : Seed → Prop
  | .method entry =>
    Outside entry.index m.methods.size ∨
      entry.entry < 0 ∨ entry.args < 0 ∨ entry.locals < 0
  | .global entry => Outside entry.index m.globals.size
  | .slot entry => Outside entry.index m.stack.size

instance (m : Machine) (seed : Seed) : Decidable (seed.Misfits m) :=
  match seed with
  | .method _ => inferInstanceAs (Decidable (_ ∨ _))
  | .global _ | .slot _ => inferInstanceAs (Decidable (Outside _ _))

/-- Why a seed that misfits is refused. -/
def complaint (m : Machine) : Seed → Failure
  | .method entry =>
    .inMethod entry.name
      (if Outside entry.index m.methods.size then
        .methodIndex entry.index m.methods.size
      else .descriptor entry.method)
  | .global entry => .globalIndex entry.index m.globals.size
  | .slot entry => .slotIndex entry.index m.stack.size

end Seed

namespace Image

/-- The seeds of an image, in the order in which they are planted. -/
def seeds (img : Image) : List Seed :=
  img.methods.toList.map .method ++
    (img.globals.toList.map .global ++ img.stack.toList.map .slot)

/-- An image with the first seeds only. -/
def upTo (img : Image) (count : Nat) : Image :=
  { img with
    methods := img.methods.take count
    globals := img.globals.take (count - img.methods.size)
    stack := img.stack.take (count - img.methods.size - img.globals.size) }

theorem seeds_upTo (img : Image) (count : Nat) :
    (img.upTo count).seeds = img.seeds.take count := by
  simp [seeds, upTo, List.take_append]

end Image

/-! ## Planting -/

namespace Machine

variable {m n : Machine} {seed : Seed} {seeds : List Seed}

/-- A machine in which a seed is planted, if it is not refused. -/
def plant (m : Machine) : Seed → Except Failure Machine
  | .method entry => Image.seedMethod m entry
  | .global entry => m.setGlobal entry.index entry.value
  | .slot entry => m.setSlot entry.index entry.bits

/-- A machine with the place of a seed overwritten. -/
def planted (m : Machine) : Seed → Machine
  | .method entry =>
    { m with
      methods := m.methods.setIfInBounds entry.index.toInt.toNat
        (some entry.method) }
  | .global entry =>
    { m with
      globals := m.globals.setIfInBounds entry.index.toInt.toNat
        entry.value }
  | .slot entry =>
    { m with
      stack := m.stack.setIfInBounds entry.index.toInt.toNat entry.bits }

theorem position?_eq_none_iff {index : Int64} {size : Nat} :
    position? index size = none ↔ Outside index size := by
  simp only [position?, Outside]
  split
  · simp only [reduceCtorEq, false_iff]
    omega
  · simp only [true_iff]
    omega

theorem position?_of_not_outside {index : Int64} {size : Nat}
    (inside : ¬ Outside index size) :
    position? index size = some index.toInt.toNat := by
  simp only [Outside] at inside
  rw [position?_eq_some_iff]
  omega

theorem plant_of_fits (opened : m.closed = false)
    (fits : ¬ seed.Misfits m) : m.plant seed = .ok (m.planted seed) := by
  cases seed with
  | method entry =>
      simp only [Seed.Misfits, not_or] at fits
      obtain ⟨inside, fields⟩ := fits
      exact Image.seedMethod_eq_ok_iff.mpr (setMethod_eq_ok_iff.mpr
        ⟨opened, fields, _, position?_of_not_outside inside, rfl⟩)
  | global entry =>
      exact setGlobal_eq_ok_iff.mpr
        ⟨opened, _, position?_of_not_outside fits, rfl⟩
  | slot entry =>
      exact setSlot_eq_ok_iff.mpr
        ⟨opened, _, position?_of_not_outside fits, rfl⟩

theorem plant_of_misfits (opened : m.closed = false)
    (misfits : seed.Misfits m) :
    m.plant seed = .error (seed.complaint m) := by
  cases seed with
  | method entry =>
      by_cases outside : Outside entry.index m.methods.size
      · simp [plant, Image.seedMethod, setMethod, opened, Seed.complaint,
          outside, position?_eq_none_iff.mpr outside]
      · have fields := misfits.resolve_left outside
        simp [plant, Image.seedMethod, setMethod, opened, Seed.complaint,
          outside, position?_of_not_outside outside, NamedMethod.method,
          fields]
  | global entry =>
      simp [plant, setGlobal, opened, Seed.complaint,
        position?_eq_none_iff.mpr misfits]
  | slot entry =>
      simp [plant, setSlot, opened, Seed.complaint,
        position?_eq_none_iff.mpr misfits]

/-! ## Lists of seeds -/

/-- What planting does not touch: all but the regions, and their sizes. -/
structure SameApart (m n : Machine) : Prop where
  methods : n.methods.size = m.methods.size
  globals : n.globals.size = m.globals.size
  stack : n.stack.size = m.stack.size
  rest : n = { m with
    methods := n.methods, globals := n.globals, stack := n.stack }

theorem sameApart_foldl (seeds : List Seed) :
    m.SameApart (seeds.foldl planted m) := by
  induction seeds generalizing m with
  | nil =>
      exact ⟨rfl, rfl, rfl, rfl⟩
  | cons first rest inductionHypothesis =>
      have later := @inductionHypothesis (m.planted first)
      cases first with
      | method | global | slot =>
          refine ⟨?_, ?_, ?_, later.rest⟩
          · simpa [planted] using later.methods
          · simpa [planted] using later.globals
          · simpa [planted] using later.stack

namespace SameApart

variable (same : m.SameApart n)

include same

theorem misfits_iff : seed.Misfits n ↔ seed.Misfits m := by
  cases seed with
  | method | global | slot =>
      simp only [Seed.Misfits, same.methods, same.globals, same.stack]

theorem complaint_eq : seed.complaint n = seed.complaint m := by
  cases seed with
  | method | global | slot =>
      simp only [Seed.complaint, same.methods, same.globals, same.stack]

theorem closed_eq : n.closed = m.closed := by
  rw [same.rest]

end SameApart

theorem foldlM_plant (opened : m.closed = false)
    (fit : ∀ seed ∈ seeds, ¬ seed.Misfits m) :
    seeds.foldlM plant m = .ok (seeds.foldl planted m) := by
  induction seeds generalizing m with
  | nil =>
      rfl
  | cons first rest inductionHypothesis =>
      have same := @sameApart_foldl m [first]
      rw [List.foldlM_cons,
        plant_of_fits opened (fit first List.mem_cons_self)]
      refine @inductionHypothesis (m.planted first)
        (same.closed_eq.trans opened) ?_
      intro seed member misfits
      exact fit seed (List.mem_cons_of_mem _ member)
        (same.misfits_iff.mp misfits)

end Machine

namespace Image

open Machine

variable {m n : Machine} {seed : Seed} {seeds : List Seed} {img : Image}

section Lists

variable {α β : Type} {set : Machine → β → Except Failure Machine}

theorem seedAll_append (before after : List β) :
    seedAll set m (before ++ after) =
      match seedAll set m before with
      | (n, some why) => (n, some why)
      | (n, none) => seedAll set n after := by
  induction before generalizing m with
  | nil =>
      rfl
  | cons first rest inductionHypothesis =>
      simp only [List.cons_append, seedAll]
      cases set m first with
      | error why =>
          rfl
      | ok next =>
          exact inductionHypothesis

theorem seedAll_map (f : α → β) (entries : List α) :
    seedAll set m (entries.map f) =
      seedAll (fun m entry => set m (f entry)) m entries := by
  induction entries generalizing m with
  | nil =>
      rfl
  | cons first rest inductionHypothesis =>
      simp only [List.map_cons, seedAll]
      cases set m (f first) with
      | error why =>
          rfl
      | ok next =>
          exact inductionHypothesis

end Lists

theorem applyTo_eq_seedAll (img : Image) (m : Machine) :
    img.applyTo m = seedAll plant m img.seeds := by
  rw [seeds, seedAll_append, seedAll_map]
  simp only [seedAll_append, seedAll_map]
  rfl

theorem seedAll_of_fit (opened : m.closed = false)
    (fit : ∀ seed ∈ seeds, ¬ seed.Misfits m) :
    seedAll plant m seeds = (seeds.foldl planted m, none) :=
  seedAll_eq_none_iff.mpr (foldlM_plant opened fit)

theorem seedAll_of_misfit {after : List Seed} (opened : m.closed = false)
    (fit : ∀ seed ∈ seeds, ¬ seed.Misfits m) (misfits : seed.Misfits m) :
    seedAll plant m (seeds ++ seed :: after) =
      (seeds.foldl planted m, some (seed.complaint m)) := by
  have same := @sameApart_foldl m seeds
  rw [seedAll_append, seedAll_of_fit opened fit]
  simp only [seedAll, plant_of_misfits (same.closed_eq.trans opened)
    (same.misfits_iff.mpr misfits), same.complaint_eq]

/-! ## Regions -/

section Regions

variable {α β : Type}

/-- The last of some entries that name a place. -/
def lastNaming (index : α → Int64) (entries : List α) (place : Nat) :
    Option α :=
  entries.reverse.find? fun entry => (index entry).toInt == place

/-- A region with some entries written in turn. -/
def written (index : α → Int64) (value : α → β) (region : Array β)
    (entries : List α) : Array β :=
  entries.foldl
    (fun region entry =>
      region.setIfInBounds (index entry).toInt.toNat (value entry))
    region

variable {index : α → Int64} {value : α → β}

theorem lastNaming_cons (first : α) (rest : List α) (place : Nat) :
    lastNaming index (first :: rest) place =
      (lastNaming index rest place).or
        (if (index first).toInt = place then some first else none) := by
  simp only [lastNaming, List.reverse_cons, List.find?_append,
    List.find?_singleton, beq_iff_eq]

theorem written_getElem? {region : Array β} {entries : List α}
    (inside : ∀ entry ∈ entries, ¬ Outside (index entry) region.size)
    (place : Nat) :
    (written index value region entries)[place]? =
      ((lastNaming index entries place).map value).or region[place]? := by
  induction entries generalizing region with
  | nil =>
      rfl
  | cons first rest inductionHypothesis =>
      have later := @inductionHypothesis
        (region.setIfInBounds (index first).toInt.toNat (value first)) ?_
      · have here := inside first List.mem_cons_self
        simp only [Outside] at here
        rw [lastNaming_cons, Option.map_or, Option.or_assoc]
        refine later.trans (congrArg _ ?_)
        by_cases same : (index first).toInt = place
        · have there : (index first).toInt.toNat = place := by omega
          have bound : place < region.size := by omega
          rw [if_pos same, there]
          simp [bound]
        · have apart : (index first).toInt.toNat ≠ place := by omega
          rw [if_neg same, Array.getElem?_setIfInBounds_ne apart]
          rfl
      · intro entry member
        rw [Array.size_setIfInBounds]
        exact inside entry (List.mem_cons_of_mem _ member)

/-- Seeds of one kind are written into the region of their kind. -/
theorem foldl_planted (kind : α → Seed) (put : Array β → Machine)
    (plants : ∀ region entry,
      (put region).planted (kind entry) =
        put (region.setIfInBounds (index entry).toInt.toNat (value entry)))
    (region : Array β) (entries : List α) :
    (entries.map kind).foldl planted (put region) =
      put (written index value region entries) := by
  rw [List.foldl_map]
  exact List.foldl_hom put plants

end Regions

theorem foldl_planted_seeds (img : Image) (m : Machine) :
    img.seeds.foldl planted m =
      { m with
        methods :=
          written (·.index) (some ·.method) m.methods img.methods.toList
        globals := written (·.index) (·.value) m.globals img.globals.toList
        stack := written (·.index) (·.bits) m.stack img.stack.toList } := by
  have methods (m : Machine) :
      (img.methods.toList.map .method).foldl planted m =
        { m with
          methods :=
            written (·.index) (some ·.method) m.methods
              img.methods.toList } :=
    foldl_planted .method (fun methods => { m with methods })
      (fun _ _ => rfl) m.methods img.methods.toList
  have globals (m : Machine) :
      (img.globals.toList.map .global).foldl planted m =
        { m with
          globals :=
            written (·.index) (·.value) m.globals img.globals.toList } :=
    foldl_planted .global (fun globals => { m with globals })
      (fun _ _ => rfl) m.globals img.globals.toList
  have stack (m : Machine) :
      (img.stack.toList.map .slot).foldl planted m =
        { m with
          stack := written (·.index) (·.bits) m.stack img.stack.toList } :=
    foldl_planted .slot (fun stack => { m with stack })
      (fun _ _ => rfl) m.stack img.stack.toList
  rw [seeds, List.foldl_append, List.foldl_append, methods, globals, stack]

/-- Whether the places that an image names hold its last entries for them, and
all others what they held on another machine. -/
structure Holds (img : Image) (m n : Machine) : Prop where
  methods (place : Nat) : n.methods[place]? =
    ((lastNaming (·.index) img.methods.toList place).map
      (some ·.method)).or m.methods[place]?
  globals (place : Nat) : n.globals[place]? =
    ((lastNaming (·.index) img.globals.toList place).map
      (·.value)).or m.globals[place]?
  stack (place : Nat) : n.stack[place]? =
    ((lastNaming (·.index) img.stack.toList place).map
      (·.bits)).or m.stack[place]?

theorem holds_foldl (fit : ∀ seed ∈ img.seeds, ¬ seed.Misfits m) :
    img.Holds m (img.seeds.foldl planted m) := by
  rw [foldl_planted_seeds]
  refine ⟨written_getElem? ?_, written_getElem? ?_, written_getElem? ?_⟩
  · intro entry member
    have fits := fit (.method entry) (by simpa [seeds] using member)
    exact fun outside => fits (.inl outside)
  · intro entry member
    exact fit (.global entry) (by simpa [seeds] using member)
  · intro entry member
    exact fit (.slot entry) (by simpa [seeds] using member)

/-! ## The image as a whole -/

/-- Whether a seed is the first one of an image that misfits a machine. -/
structure FirstMisfit (img : Image) (m : Machine) (k : Nat) (seed : Seed) :
    Prop where
  here : img.seeds[k]? = some seed
  misfits : seed.Misfits m
  before (other : Seed) : other ∈ img.seeds.take k → ¬ other.Misfits m

/-- What comes of an image on a machine: another machine, and perhaps a
failure. -/
structure Plants (img : Image) (m n : Machine) (failure : Option Failure) :
    Prop where
  fails_iff : failure.isSome = true ↔ ∃ seed ∈ img.seeds, seed.Misfits m
  /-- A failure is the complaint of the first misfit, and the machine is that
  of the seeds before it. -/
  first (why : Failure) : failure = some why →
    ∃ k seed, img.FirstMisfit m k seed ∧ why = seed.complaint m ∧
      (img.upTo k).applyTo m = (n, none)
  holds : failure = none → img.Holds m n
  apart : m.SameApart n

theorem applyTo_of_fit (opened : m.closed = false)
    (fit : ∀ seed ∈ img.seeds, ¬ seed.Misfits m) :
    img.applyTo m = (img.seeds.foldl planted m, none) := by
  rw [applyTo_eq_seedAll, seedAll_of_fit opened fit]

/-- An image is applied seed by seed up to the first one that misfits, and
whatever it does it does to the regions only. -/
theorem applyTo_plants (img : Image) (opened : m.closed = false) :
    img.Plants m (img.applyTo m).1 (img.applyTo m).2 := by
  cases found : img.seeds.find? fun seed => decide (seed.Misfits m) with
  | none =>
      have fit : ∀ seed ∈ img.seeds, ¬ seed.Misfits m := by
        simpa using List.find?_eq_none.mp found
      rw [applyTo_of_fit opened fit]
      refine ⟨?_, ?_, fun _ => holds_foldl fit, sameApart_foldl _⟩
      · simpa using fit
      · rintro why ⟨⟩
  | some seed =>
      -- The seeds before the misfit all fit, with or without what follows.
      obtain ⟨misfits, before, after, split, fit⟩ :=
        List.find?_eq_some_iff_append.mp found
      have misfits : seed.Misfits m := by simpa using misfits
      have fit : ∀ other ∈ before, ¬ other.Misfits m := by simpa using fit
      have taken : img.seeds.take before.length = before := by simp [split]
      have stopped : img.applyTo m =
          (before.foldl planted m, some (seed.complaint m)) := by
        rw [applyTo_eq_seedAll, split, seedAll_of_misfit opened fit misfits]
      rw [stopped]
      refine ⟨?_, ?_, ?_, sameApart_foldl _⟩
      · simp only [Option.isSome_some, true_iff]
        exact ⟨seed, by simp [split], misfits⟩
      · rintro why ⟨⟩
        refine ⟨before.length, seed, ⟨by simp [split], misfits, ?_⟩, rfl, ?_⟩
        · rwa [taken]
        · rw [applyTo_of_fit opened, seeds_upTo, taken]
          rwa [seeds_upTo, taken]
      · rintro ⟨⟩

/-- An image that names one place twice and one that no small machine has. -/
def spoiltImage : Image where
  magic := expectedMagic
  version := expectedVersion
  entry := 0
  code := none
  methods := #[⟨"f", 1, 0, 0, 0⟩, ⟨"g", 1, 2, 1, 0⟩]
  globals := #[⟨0, 5⟩, ⟨9, 6⟩, ⟨0, 7⟩]
  stack := #[⟨0, 8⟩]
  checksum := Vector.replicate 32 0

def smallMachine : Machine :=
  blank { stack := 4, depth := 1, methods := 2, globals := 1 }

theorem spoiltImage_plants :
    smallMachine.closed = false ∧
      spoiltImage.Plants smallMachine (spoiltImage.applyTo smallMachine).1
        (some (.globalIndex 9 1)) ∧
        (spoiltImage.applyTo smallMachine).1 =
          { smallMachine with
            methods := #[none, some ⟨2, 1, 0⟩]
            globals := #[5] } := by
  have plants := applyTo_plants spoiltImage
    (show smallMachine.closed = false from rfl)
  exact ⟨rfl, plants, by decide⟩

end Image

end WindowMachine
