import Ve482.Vm.Bookkeeping

set_option autoImplicit false

namespace Ve482.Vm

open Function (update)

variable {np : Nat} {vm vm' : State np} {p : Fin np}

def vbAdd (left right : Nat) : Nat := (left + right) % 2 ^ 32

def vbSub (left right : Nat) : Nat := (left + (2 ^ 32 - right)) % 2 ^ 32

theorem vbAdd_eq {left right : Nat} (small : left + right < 2 ^ 32) :
    vbAdd left right = left + right :=
  Nat.mod_eq_of_lt small

theorem vbSub_eq {left right : Nat} (less : right ≤ left) (small : left < 2 ^ 32) :
    vbSub left right = left - right := by
  unfold vbSub
  omega

/-- The regions of a process are not empty, page aligned and apart. -/
structure Spread (vm : State np) (regions : List Ptr) : Prop where
  apart : regions.Pairwise fun left right =>
    (vm.virRegion left).vaddr + (vm.virRegion left).length ≤ (vm.virRegion right).vaddr
  positive : ∀ r ∈ regions, 0 < (vm.virRegion r).length
  aligned : ∀ r ∈ regions,
    (vm.virRegion r).vaddr % vmPageSize = 0 ∧ (vm.virRegion r).length % vmPageSize = 0

theorem Spread.sublist {regions some : List Ptr} (spread : Spread vm regions)
    (sub : some.Sublist regions) : Spread vm some :=
  ⟨spread.apart.sublist sub, fun r member => spread.positive r (sub.subset member),
    fun r member => spread.aligned r (sub.subset member)⟩

theorem Spread.nodup {regions : List Ptr} (spread : Spread vm regions) : regions.Nodup := by
  apply spread.apart.imp_of_mem
  intro left right inLeft _ apart same
  subst same
  have positive := spread.positive left inLeft
  omega

theorem Spread.congr {regions : List Ptr} (spread : Spread vm regions)
    (same : ∀ r ∈ regions, (vm'.virRegion r).vaddr = (vm.virRegion r).vaddr ∧
      (vm'.virRegion r).length = (vm.virRegion r).length) : Spread vm' regions := by
  constructor
  · apply spread.apart.imp_of_mem
    intro left right inLeft inRight apart
    rw [(same left inLeft).1, (same left inLeft).2, (same right inRight).1]
    exact apart
  · intro r member
    rw [(same r member).2]
    exact spread.positive r member
  · intro r member
    rw [(same r member).1, (same r member).2]
    exact spread.aligned r member

/-- Regions are apart if those before one, that one, and those after it are. -/
theorem spread_split {before rest : List Ptr} {r : Ptr} :
    Spread vm (before ++ r :: rest) ↔ Spread vm before ∧ Spread vm rest ∧
      (0 < (vm.virRegion r).length ∧ (vm.virRegion r).vaddr % vmPageSize = 0 ∧
        (vm.virRegion r).length % vmPageSize = 0) ∧
      (∀ other ∈ before, (vm.virRegion other).vaddr + (vm.virRegion other).length ≤
        (vm.virRegion r).vaddr) ∧
      ∀ other ∈ rest, (vm.virRegion r).vaddr + (vm.virRegion r).length ≤
        (vm.virRegion other).vaddr := by
  constructor
  · intro spread
    have own := spread.positive r (by simp)
    have aligned := spread.aligned r (by simp)
    obtain ⟨-, later, across⟩ := List.pairwise_append.mp spread.apart
    refine ⟨spread.sublist (List.sublist_append_left _ _), spread.sublist ?_, ⟨own, aligned⟩,
      fun other member => across other member r List.mem_cons_self,
      fun other member => (List.pairwise_cons.mp later).1 other member⟩
    exact (List.sublist_cons_self r rest).trans (List.sublist_append_right before _)
  · rintro ⟨earlier, later, ⟨own, aligned⟩, below, above⟩
    have cases' {other : Ptr} (member : other ∈ before ++ r :: rest) :
        other ∈ before ∨ other = r ∨ other ∈ rest := by simpa using member
    constructor
    · apply List.pairwise_append.mpr
      refine ⟨earlier.apart, List.pairwise_cons.mpr ⟨above, later.apart⟩, ?_⟩
      intro left inLeft right inRight
      have low := below left inLeft
      rcases List.mem_cons.mp inRight with rfl | inRest
      · exact low
      · have high := above right inRest
        omega
    · intro other member
      rcases cases' member with first | rfl | last
      · exact earlier.positive other first
      · exact own
      · exact later.positive other last
    · intro other member
      rcases cases' member with first | rfl | last
      · exact earlier.aligned other first
      · exact aligned
      · exact later.aligned other last

theorem Spread.disjoint {regions : List Ptr} (spread : Spread vm regions) {r other : Ptr}
    (member : r ∈ regions) (member' : other ∈ regions) (different : other ≠ r) :
    (vm.virRegion r).vaddr + (vm.virRegion r).length ≤ (vm.virRegion other).vaddr ∨
      (vm.virRegion other).vaddr + (vm.virRegion other).length ≤ (vm.virRegion r).vaddr := by
  obtain ⟨before, rest, rfl⟩ := List.append_of_mem member
  obtain ⟨-, -, -, below, above⟩ := spread_split.mp spread
  rcases List.mem_append.mp member' with inBefore | inRest
  · exact Or.inr (below other inBefore)
  · exact Or.inl (above other ((List.mem_cons.mp inRest).resolve_left different))

/-- One region gets another place between its neighbours. -/
theorem Spread.replace {before rest : List Ptr} {r : Ptr}
    (spread : Spread vm (before ++ r :: rest))
    (others : ∀ other, other ≠ r → vm'.virRegion other = vm.virRegion other)
    (positive : 0 < (vm'.virRegion r).length)
    (aligned : (vm'.virRegion r).vaddr % vmPageSize = 0 ∧ (vm'.virRegion r).length % vmPageSize = 0)
    (low : (vm.virRegion r).vaddr ≤ (vm'.virRegion r).vaddr)
    (high : ∀ other ∈ rest,
      (vm'.virRegion r).vaddr + (vm'.virRegion r).length ≤ (vm.virRegion other).vaddr) :
    Spread vm' (before ++ r :: rest) := by
  obtain ⟨earlier, later, ⟨own, -⟩, below, above⟩ := spread_split.mp spread
  have first {other : Ptr} (member : other ∈ before) :
      vm'.virRegion other = vm.virRegion other := by
    apply others
    rintro rfl
    have ends := below other member
    omega
  have last {other : Ptr} (member : other ∈ rest) :
      vm'.virRegion other = vm.virRegion other := by
    apply others
    rintro rfl
    have starts := above other member
    omega
  apply spread_split.mpr
  refine ⟨earlier.congr fun other member => by rw [first member]; exact ⟨rfl, rfl⟩,
    later.congr fun other member => by rw [last member]; exact ⟨rfl, rfl⟩, ⟨positive, aligned⟩,
    fun other member => ?_, fun other member => ?_⟩
  · rw [first member]
    exact Nat.le_trans (below other member) low
  · rw [last member]
    exact high other member

/-- A search for the last key that is small enough. -/
theorem search_split {regions : List Ptr} {small : Ptr → Bool} {r : Ptr}
    (found : (regions.filter small).getLast? = some r) :
    ∃ before rest, regions = before ++ r :: rest ∧ small r ∧ ∀ other ∈ rest, ¬ small other := by
  rw [List.getLast?_filter, List.find?_eq_some_iff_append] at found
  obtain ⟨here, after, before, split, large⟩ := found
  refine ⟨before.reverse, after.reverse, ?_, here, fun other member => ?_⟩
  · rw [← List.reverse_reverse regions, split]
    simp
  · simpa using large other (List.mem_reverse.mp member)

/-- A tree in which the keys before a place are small is searched from that place on. -/
theorem regions_from {regions before rest : List Ptr} {next : Nat}
    (split : regions = before ++ rest) (small : ∀ r ∈ before, (vm.virRegion r).vaddr < next)
    (large : ∀ r ∈ rest, next ≤ (vm.virRegion r).vaddr) :
    regions.dropWhile (fun r => (vm.virRegion r).vaddr < next) = rest := by
  rw [split, List.dropWhile_append_of_pos (by simpa using small)]
  cases rest with
  | nil => rfl
  | cons r rest =>
      apply List.dropWhile_cons_of_neg
      simpa using large r List.mem_cons_self

/-- The end of a region parts those up to it from those after it. -/
theorem Spread.cut {before rest : List Ptr} (spread : Spread vm (before ++ rest)) {last : Ptr}
    (isLast : before.getLast? = some last) :
    (∀ r ∈ before, (vm.virRegion r).vaddr < (vm.virRegion last).vaddr +
        (vm.virRegion last).length) ∧
      ∀ r ∈ rest, (vm.virRegion last).vaddr + (vm.virRegion last).length ≤
        (vm.virRegion r).vaddr := by
  obtain ⟨init, rfl⟩ := List.getLast?_eq_some_iff.mp isLast
  have positive := spread.positive last (by simp)
  obtain ⟨inner, -, across⟩ := List.pairwise_append.mp spread.apart
  constructor
  · intro r member
    cases List.mem_append.mp member with
    | inl earlier =>
        have apart := (List.pairwise_append.mp inner).2.2 r earlier last (List.mem_singleton_self _)
        omega
    | inr here =>
        rw [List.mem_singleton.mp here]
        omega
  · intro r member
    exact across last (by simp) r member

/-- `memset` of some slots. -/
def State.clearSlots (vm : State np) (r : Ptr) (first count : Nat) : State np :=
  let region := vm.virRegion r
  { vm with virRegion := update vm.virRegion r { region with
      physblocks := fun i =>
        if first ≤ i ∧ i < first + count then none else region.physblocks i } }

theorem clearSlots_slot (vm : State np) (r : Ptr) (first count : Nat) (other : Ptr) {i : Nat}
    (small : i < first) :
    ((vm.clearSlots r first count).virRegion other).physblocks i =
      (vm.virRegion other).physblocks i := by
  by_cases same : other = r
  · subst same
    simp only [State.clearSlots, Function.update_self]
    exact if_neg (by omega)
  · simp only [State.clearSlots, Function.update_of_ne same]

theorem clearSlots_place (vm : State np) (r : Ptr) (first count : Nat) (other : Ptr) :
    ((vm.clearSlots r first count).virRegion other).vaddr = (vm.virRegion other).vaddr ∧
      ((vm.clearSlots r first count).virRegion other).length = (vm.virRegion other).length ∧
      ((vm.clearSlots r first count).virRegion other).parent = (vm.virRegion other).parent := by
  by_cases same : other = r
  · subst same
    simp [State.clearSlots]
  · simp [State.clearSlots, same]

theorem smallStart_spread : Spread smallStart (smallStart.vmproc 0).vmRegionsAvl :=
  ⟨by decide, by decide, by decide⟩

end Ve482.Vm
