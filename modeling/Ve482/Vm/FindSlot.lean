import Ve482.Lib.Gaps
import Ve482.Vm.Regions

set_option autoImplicit false

namespace Ve482.Vm

variable {np : Nat} {vm : State np} {p : Fin np}

/-- `SLOT_FAIL` -/
def slotFail : Nat := 2 ^ 32 - 1

/-- `FREEVRANGE_TRY`: the start of the last `length` bytes of the range that are wanted. -/
def freevrangeTry (minv maxv length rangestart rangeend : Nat) : Option Nat :=
  let frstart := max rangestart minv
  let frend := min rangeend maxv
  if frstart < frend ∧ length ≤ frend - frstart then some (frend - length) else none

/-- `FREEVRANGE`: if possible, a page is left free on either side. -/
def freevrange (minv maxv length start last : Nat) (found : Option Nat) :
    Except Stop (Option Nat) := do
  assert (found = none) .regionFindSlotRange
  match freevrangeTry minv maxv length (vbAdd start vmPageSize) (vbSub last vmPageSize) with
  | some startv => return some startv
  | none => return freevrangeTry minv maxv length start last

/-- The end of a region, or 0 if there is none. -/
def endOrZero (vm : State np) : Option Ptr → Nat
  | some r => vbAdd (vm.virRegion r).vaddr (vm.virRegion r).length
  | none => 0

/-- `while ((vr = region_get_iter(&iter)) && !foundflag)`, with the regions still to come. -/
def findSlotLoop (vm : State np) (minv maxv length : Nat) :
    List Ptr → Option Nat → Except Stop (Option Nat)
  | [], found => .ok found
  | _ :: _, some startv => .ok (some startv)
  | vr :: iter, none => do
      let found ← freevrange minv maxv length (endOrZero vm iter.head?) (vm.virRegion vr).vaddr none
      findSlotLoop vm minv maxv length iter found

/-- The free range is looked for from the region after `maxv` down. -/
def findSlotSearch (vmDatatop : Nat) (vm : State np) (p : Fin np) (minv maxv length : Nat) :
    Except Stop (Option Nat) :=
  let regions := (vm.vmproc p).vmRegionsAvl
  let iter := (regions.filter fun r => (vm.virRegion r).vaddr < maxv).reverse
  match regions.find? fun r => maxv ≤ (vm.virRegion r).vaddr with
  | some lastregion => findSlotLoop vm minv maxv length (lastregion :: iter) none
  | none => do
      let found ← freevrange minv maxv length (endOrZero vm iter.head?) vmDatatop none
      findSlotLoop vm minv maxv length iter found

/-- `region_find_slot_range` from its checks on, when it is known where the range ends. -/
def findSlotBelow (vmDatatop : Nat) (vm : State np) (p : Fin np) (top minv maxv length : Nat) :
    Except Stop (Nat × Nat) := do
  assert (length % vmPageSize = 0) .regionFindSlotRange
  assert (minv < maxv) .regionFindSlotRange
  if maxv < vbAdd minv length then return (slotFail, top)
  else
    match ← findSlotSearch vmDatatop vm p minv maxv length with
    | none => return (slotFail, top)
    | some startv =>
        assert (minv ≤ startv) .regionFindSlotRange
        assert (startv < maxv) .regionFindSlotRange
        assert (vbAdd startv length ≤ maxv) .regionFindSlotRange
        return (startv, vbAdd startv length)

/-- The address and the new `vm_region_top`. -/
def regionFindSlotRange (vmDatatop : Nat) (vm : State np) (p : Fin np)
    (top minv maxv length : Nat) : Except Stop (Nat × Nat) := do
  assert (0 < length) .regionFindSlotRange
  if maxv = 0 then
    let maxv := vbAdd minv length
    if maxv ≤ minv then return (slotFail, top)
    else findSlotBelow vmDatatop vm p top minv maxv length
  else findSlotBelow vmDatatop vm p top minv maxv length

def regionFindSlot (vmDatatop : Nat) (vm : State np) (p : Fin np) (top minv maxv length : Nat) :
    Except Stop (Nat × Nat) := do
  let hint := top
  if maxv ≠ 0 ∧ hint < maxv ∧ minv ≤ hint then
    let (v, top) ← regionFindSlotRange vmDatatop vm p top minv hint length
    if v ≠ slotFail then return (v, top)
    else regionFindSlotRange vmDatatop vm p top minv maxv length
  else regionFindSlotRange vmDatatop vm p top minv maxv length

/-- A fit in a gap, first with a page left on either side. -/
def fit (minv maxv length : Nat) (gap : Nat × Nat) : Option Nat :=
  (freevrangeTry minv maxv length (vbAdd gap.1 vmPageSize) (vbSub gap.2 vmPageSize)).or
    (freevrangeTry minv maxv length gap.1 gap.2)

theorem freevrange_eq (minv maxv length : Nat) (gap : Nat × Nat) :
    freevrange minv maxv length gap.1 gap.2 none = .ok (fit minv maxv length gap) := by
  unfold freevrange fit
  rw [assert_true _ rfl]
  cases freevrangeTry minv maxv length (vbAdd gap.1 vmPageSize) (vbSub gap.2 vmPageSize) with
  | none => rfl
  | some startv => rfl

def place (vm : State np) (r : Ptr) : Nat × Nat :=
  ((vm.virRegion r).vaddr, vbAdd (vm.virRegion r).vaddr (vm.virRegion r).length)

theorem findSlotLoop_some (minv maxv length : Nat) (iter : List Ptr) (startv : Nat) :
    findSlotLoop vm minv maxv length iter (some startv) = .ok (some startv) := by
  cases iter with
  | nil => rfl
  | cons vr iter => rfl

/-- One gap is tried, and the loop goes on below it. -/
theorem findSlot_gap (minv maxv length last : Nat) (iter : List Ptr)
    (rest : ∀ next ∈ iter.head?, findSlotLoop vm minv maxv length iter none =
      .ok ((Gaps.gaps 0 (vm.virRegion next).vaddr (iter.tail.map (place vm))).findSome?
        (fit minv maxv length))) :
    (freevrange minv maxv length (endOrZero vm iter.head?) last none >>= fun found =>
        findSlotLoop vm minv maxv length iter found) =
      .ok ((Gaps.gaps 0 last (iter.map (place vm))).findSome? (fit minv maxv length)) := by
  cases iter with
  | nil =>
      rw [List.head?_nil, endOrZero, freevrange_eq minv maxv length (0, last), ok_bind,
        findSlotLoop, List.map_nil, Gaps.gaps, List.findSome?_singleton]
  | cons next iter =>
      have start : endOrZero vm (some next) = (place vm next).2 := rfl
      have below : Gaps.gaps 0 last ((next :: iter).map (place vm)) = ((place vm next).2, last) ::
          Gaps.gaps 0 (vm.virRegion next).vaddr (iter.map (place vm)) := rfl
      rw [List.head?_cons, start, freevrange_eq minv maxv length ((place vm next).2, last), ok_bind,
        below, List.findSome?_cons]
      cases fit minv maxv length ((place vm next).2, last) with
      | some startv => exact findSlotLoop_some minv maxv length (next :: iter) startv
      | none => exact rest next rfl

/-- The loop searches the gaps below a region. -/
theorem findSlotLoop_eq (minv maxv length : Nat) (vr : Ptr) (iter : List Ptr) :
    findSlotLoop vm minv maxv length (vr :: iter) none = .ok ((Gaps.gaps 0 (vm.virRegion vr).vaddr
      (iter.map (place vm))).findSome? (fit minv maxv length)) := by
  induction iter generalizing vr with
  | nil => exact findSlot_gap minv maxv length _ [] nofun
  | cons next iter ih =>
      rw [findSlotLoop]
      apply findSlot_gap
      intro other head
      obtain rfl : next = other := Option.some.inj head
      exact ih next

theorem freevrangeTry_some {minv maxv length start last v : Nat}
    (found : freevrangeTry minv maxv length start last = some v) :
    minv ≤ v ∧ start ≤ v ∧ v + length ≤ maxv ∧ v + length ≤ last := by
  unfold freevrangeTry at found
  dsimp only at found
  split at found
  · have value := Option.some.inj found
    omega
  · cases found

theorem freevrangeTry_fits {minv maxv length start last v : Nat} (positive : 0 < length)
    (inRange : minv ≤ v ∧ v + length ≤ maxv) (inGap : start ≤ v ∧ v + length ≤ last) :
    freevrangeTry minv maxv length start last ≠ none := by
  unfold freevrangeTry
  dsimp only
  rw [if_pos (by omega)]
  exact Option.some_ne_none _

variable {minv maxv length : Nat} {gap : Nat × Nat}

theorem fit_range {v : Nat} (found : fit minv maxv length gap = some v) :
    minv ≤ v ∧ v + length ≤ maxv := by
  unfold fit at found
  rcases Option.or_eq_some_iff.mp found with guarded | ⟨-, plain⟩
  · have inside := freevrangeTry_some guarded
    exact ⟨inside.1, inside.2.2.1⟩
  · have inside := freevrangeTry_some plain
    exact ⟨inside.1, inside.2.2.1⟩

/-- A gap with an end to take a page off is large enough for what was found in it. -/
theorem fit_inside {v : Nat} (found : fit minv maxv length gap = some v)
    (low : gap.1 + vmPageSize < 2 ^ 32) (high : vmPageSize ≤ gap.2) (bound : gap.2 < 2 ^ 32) :
    gap.1 ≤ v ∧ v + length ≤ gap.2 := by
  unfold fit at found
  rw [vbAdd_eq low, vbSub_eq high bound] at found
  rcases Option.or_eq_some_iff.mp found with guarded | ⟨-, plain⟩
  · have inside := freevrangeTry_some guarded
    omega
  · have inside := freevrangeTry_some plain
    omega

theorem fit_takes {v : Nat} (positive : 0 < length) (inRange : minv ≤ v ∧ v + length ≤ maxv)
    (inGap : gap.1 ≤ v ∧ v + length ≤ gap.2) : fit minv maxv length gap ≠ none := by
  unfold fit
  intro none
  exact freevrangeTry_fits positive inRange inGap (Option.or_eq_none_iff.mp none).2

/-- Under a region at address 0 the end of the gap is 0, and a page off it is near the end of the
address space. -/
theorem fit_zero (minv maxv : Nat) (positive : 0 < length) : fit minv maxv length (0, 0) =
    if max vmPageSize minv + length ≤ min (2 ^ 32 - vmPageSize) maxv then
      some (min (2 ^ 32 - vmPageSize) maxv - length) else none := by
  have low : vbAdd 0 vmPageSize = vmPageSize := by decide
  have high : vbSub 0 vmPageSize = 2 ^ 32 - vmPageSize := by decide
  have plain : freevrangeTry minv maxv length 0 0 = none := by
    unfold freevrangeTry
    dsimp only
    rw [if_neg (by omega)]
  unfold fit
  dsimp only
  rw [low, high, plain, Option.or_none]
  unfold freevrangeTry
  dsimp only
  by_cases room : max vmPageSize minv + length ≤ min (2 ^ 32 - vmPageSize) maxv
  · rw [if_pos room, if_pos (by omega)]
  · rw [if_neg room, if_neg (by omega)]

/-- No region meets what is from an address on. -/
def Away (vm : State np) (p : Fin np) (length v : Nat) : Prop :=
  ∀ r ∈ (vm.vmproc p).vmRegionsAvl, v + length ≤ (vm.virRegion r).vaddr ∨
    (vm.virRegion r).vaddr + (vm.virRegion r).length ≤ v

/-- There is room between two addresses. -/
def Room (vm : State np) (p : Fin np) (length low high : Nat) : Prop :=
  ∃ v, low ≤ v ∧ v + length ≤ high ∧ Away vm p length v

/-- The regions that start below an address, from the last one down. -/
def lower (vm : State np) (p : Fin np) (maxv : Nat) : List Ptr :=
  ((vm.vmproc p).vmRegionsAvl.filter fun r => (vm.virRegion r).vaddr < maxv).reverse

/-- Where the first gap ends. -/
def upper (vmDatatop : Nat) (vm : State np) (p : Fin np) (maxv : Nat) : Nat :=
  match (vm.vmproc p).vmRegionsAvl.find? fun r => maxv ≤ (vm.virRegion r).vaddr with
  | some lastregion => (vm.virRegion lastregion).vaddr
  | none => vmDatatop

/-- What the search finds. -/
def search (vmDatatop : Nat) (vm : State np) (p : Fin np) (minv maxv length : Nat) : Option Nat :=
  (Gaps.gaps 0 (upper vmDatatop vm p maxv) ((lower vm p maxv).map (place vm))).findSome?
    (fit minv maxv length)

theorem search_range {vmDatatop v : Nat}
    (found : search vmDatatop vm p minv maxv length = some v) : minv ≤ v ∧ v + length ≤ maxv := by
  obtain ⟨gap, -, fits⟩ := List.exists_of_findSome?_eq_some found
  exact fit_range fits

theorem findSlotSearch_eq (vmDatatop : Nat) (vm : State np) (p : Fin np) (minv maxv length : Nat) :
    findSlotSearch vmDatatop vm p minv maxv length =
      .ok (search vmDatatop vm p minv maxv length) := by
  unfold findSlotSearch search upper
  dsimp only
  cases (vm.vmproc p).vmRegionsAvl.find? fun r => maxv ≤ (vm.virRegion r).vaddr with
  | some lastregion => exact findSlotLoop_eq minv maxv length lastregion (lower vm p maxv)
  | none =>
      apply findSlot_gap minv maxv length vmDatatop (lower vm p maxv)
      intro next head
      obtain ⟨rest, split⟩ := List.head?_eq_some_iff.mp head
      rw [split]
      exact findSlotLoop_eq minv maxv length next rest

theorem findSlotBelow_eq (vmDatatop : Nat) (vm : State np) (p : Fin np) (top : Nat)
    (positive : 0 < length) (pages : length % vmPageSize = 0) (order : minv < maxv)
    (bound : maxv < 2 ^ 32) :
    findSlotBelow vmDatatop vm p top minv maxv length =
      .ok (match search vmDatatop vm p minv maxv length with
        | some v => (v, v + length)
        | none => (slotFail, top)) := by
  unfold findSlotBelow
  rw [assert_true _ pages, assert_true _ order, findSlotSearch_eq, ok_bind]
  by_cases long : maxv < vbAdd minv length
  · rw [if_pos long]
    have none : search vmDatatop vm p minv maxv length = none := by
      apply Option.eq_none_iff_forall_not_mem.mpr
      intro v found
      have inside := search_range found
      rw [vbAdd_eq (by omega)] at long
      omega
    rw [none]
    rfl
  · rw [if_neg long]
    cases found : search vmDatatop vm p minv maxv length with
    | none => rfl
    | some v =>
        have inside := search_range found
        dsimp only
        rw [assert_true _ inside.1, assert_true _ (by omega), vbAdd_eq (by omega),
          assert_true _ inside.2]
        rfl

/-- Regions that are apart descend from a bound. -/
theorem descends_reverse {regions : List Ptr} (spread : Spread vm regions)
    (known : ∀ r ∈ regions, (vm.virRegion r).vaddr + (vm.virRegion r).length < 2 ^ 32) {bound : Nat}
    (under : ∀ r ∈ regions, (vm.virRegion r).vaddr + (vm.virRegion r).length ≤ bound) :
    Gaps.Descends bound (regions.reverse.map (place vm)) := by
  induction regions using List.reverseRecOn generalizing bound with
  | nil => trivial
  | append_singleton init last ih =>
      obtain ⟨earlier, -, -, below, -⟩ := spread_split.mp spread
      have here := known last (by simp)
      rw [List.reverse_append, List.reverse_singleton, List.singleton_append, List.map_cons]
      refine ⟨?_, ?_, ih earlier (fun r member => known r (List.mem_append_left _ member)) below⟩
      · rw [place, vbAdd_eq here]
        exact under last (by simp)
      · rw [place, vbAdd_eq here]
        exact Nat.le_add_right _ _

section

variable {vmDatatop : Nat} (below : ∀ r ∈ (vm.vmproc p).vmRegionsAvl,
    (vm.virRegion r).vaddr + (vm.virRegion r).length ≤ vmDatatop)
  (spread : Spread vm (vm.vmproc p).vmRegionsAvl)
  (datatop : vmPageSize ≤ vmDatatop ∧ vmDatatop + vmPageSize < 2 ^ 32)

include below

include spread

theorem upper_spec (maxv : Nat) : upper vmDatatop vm p maxv ≤ vmDatatop ∧
    (∀ r ∈ lower vm p maxv,
      (vm.virRegion r).vaddr + (vm.virRegion r).length ≤ upper vmDatatop vm p maxv) ∧
    min maxv vmDatatop ≤ upper vmDatatop vm p maxv ∧
    (upper vmDatatop vm p maxv % vmPageSize = 0 ∨ upper vmDatatop vm p maxv = vmDatatop) := by
  unfold upper
  cases found : (vm.vmproc p).vmRegionsAvl.find? fun r => maxv ≤ (vm.virRegion r).vaddr with
  | none =>
      refine ⟨Nat.le_refl _, fun r member => ?_, Nat.min_le_right _ _, Or.inr rfl⟩
      rw [lower, List.mem_reverse, List.mem_filter] at member
      exact below r member.1
  | some lastregion =>
      have inside := List.mem_of_find?_eq_some found
      have large : maxv ≤ (vm.virRegion lastregion).vaddr := by
        simpa using List.find?_some found
      have short := below lastregion inside
      dsimp only
      refine ⟨by omega, fun r member => ?_, by omega, Or.inl (spread.aligned lastregion inside).1⟩
      rw [lower, List.mem_reverse, List.mem_filter] at member
      have small : (vm.virRegion r).vaddr < maxv := of_decide_eq_true member.2
      have start := spread.positive lastregion inside
      have different : r ≠ lastregion := by
        rintro rfl
        omega
      exact (spread.disjoint inside member.1 different).resolve_left (by omega)

include datatop

omit spread in
theorem mem_lower (maxv : Nat) {interval : Nat × Nat}
    (member : interval ∈ (lower vm p maxv).map (place vm)) :
    ∃ r ∈ (vm.vmproc p).vmRegionsAvl, (vm.virRegion r).vaddr < maxv ∧
      interval = ((vm.virRegion r).vaddr, (vm.virRegion r).vaddr + (vm.virRegion r).length) := by
  obtain ⟨r, inside, rfl⟩ := List.mem_map.mp member
  rw [lower, List.mem_reverse, List.mem_filter] at inside
  have short := below r inside.1
  refine ⟨r, inside.1, of_decide_eq_true inside.2, ?_⟩
  rw [place, vbAdd_eq (by omega)]

theorem lower_descends (maxv : Nat) : Gaps.Descends (upper vmDatatop vm p maxv)
    ((lower vm p maxv).map (place vm)) := by
  have under := (upper_spec below spread maxv).2.1
  have apart := spread.sublist (List.filter_sublist (p := fun r => (vm.virRegion r).vaddr < maxv))
  have known : ∀ r ∈ (vm.vmproc p).vmRegionsAvl.filter (fun r => (vm.virRegion r).vaddr < maxv),
      (vm.virRegion r).vaddr + (vm.virRegion r).length < 2 ^ 32 := by
    intro r member
    have short := below r (List.mem_filter.mp member).1
    omega
  simp only [lower, List.mem_reverse] at under ⊢
  exact descends_reverse apart known under

/-- What is found between two regions, or above them, is away from all regions. -/
theorem found_away {maxv v : Nat} {gap : Nat × Nat}
    (member : gap ∈ Gaps.gaps 0 (upper vmDatatop vm p maxv) ((lower vm p maxv).map (place vm)))
    (positive : 0 < gap.2) (fits : fit minv maxv length gap = some v) :
    v + length ≤ vmDatatop ∧ Away vm p length v := by
  have ends := upper_spec below spread maxv
  have descends := lower_descends below spread datatop maxv
  have range := fit_range fits
  obtain ⟨low, high⟩ := Gaps.mem_gaps member
  have start : gap.1 ≤ vmDatatop := by
    rcases low with zero | ⟨interval, inside, same⟩
    · omega
    · obtain ⟨r, inTree, -, rfl⟩ := mem_lower below datatop maxv inside
      exact same.le.trans (below r inTree)
  have last : gap.2 ≤ vmDatatop ∧ vmPageSize ≤ gap.2 := by
    rcases high with same | ⟨interval, inside, same⟩
    · rw [same] at positive ⊢
      refine ⟨ends.1, ?_⟩
      unfold vmPageSize at *
      omega
    · obtain ⟨r, inTree, -, rfl⟩ := mem_lower below datatop maxv inside
      have short := below r inTree
      have aligned := (spread.aligned r inTree).1
      dsimp only at same
      unfold vmPageSize at *
      omega
  have inside := fit_inside fits (by omega) last.2 (by omega)
  refine ⟨by omega, fun r inTree => ?_⟩
  by_cases small : (vm.virRegion r).vaddr < maxv
  · have listed : place vm r ∈ (lower vm p maxv).map (place vm) := by
      apply List.mem_map_of_mem
      rw [lower, List.mem_reverse, List.mem_filter]
      exact ⟨inTree, decide_eq_true small⟩
    have short := below r inTree
    have apart := Gaps.gap_clear descends member _ listed
    rw [place, vbAdd_eq (by omega)] at apart
    dsimp only at apart
    omega
  · omega

/-- Where there is room, the search finds some. -/
theorem search_room (positive : 0 < length)
    (room : Room vm p length minv (min maxv vmDatatop)) :
    ∃ v, search vmDatatop vm p minv maxv length = some v ∧ Away vm p length v := by
  obtain ⟨first, low, high, away⟩ := room
  have ends := upper_spec below spread maxv
  have clear : Gaps.Clear first (first + length) ((lower vm p maxv).map (place vm)) := by
    intro interval inside
    obtain ⟨r, inTree, -, rfl⟩ := mem_lower below datatop maxv inside
    exact away r inTree
  have takes (gap : Nat × Nat) (under : gap.1 ≤ first) (past : first + length ≤ gap.2) :
      fit minv maxv length gap ≠ none :=
    fit_takes positive ⟨low, by omega⟩ ⟨under, past⟩
  obtain ⟨gap, member, v, past, fits, found⟩ :=
    Gaps.search_clear (Nat.zero_le first) (Nat.le_trans high ends.2.2.1) clear takes
  have some : 0 < gap.2 := Nat.lt_of_lt_of_le positive (Nat.le_trans (Nat.le_add_left _ _) past)
  exact ⟨v, found, (found_away below spread datatop member some fits).2⟩

/-- Where there is none, only the gap under a region at address 0 is left. -/
theorem search_full (positive : 0 < length) (order : minv < maxv)
    (full : ¬ Room vm p length minv (min maxv vmDatatop)) :
    search vmDatatop vm p minv maxv length =
      if (∃ r ∈ (vm.vmproc p).vmRegionsAvl, (vm.virRegion r).vaddr = 0) ∧
          max vmPageSize minv + length ≤ min (2 ^ 32 - vmPageSize) maxv then
        some (min (2 ^ 32 - vmPageSize) maxv - length)
      else none := by
  have descends := lower_descends below spread datatop maxv
  have ends := upper_spec below spread maxv
  -- a gap with an end above 0 would be room
  have zero {gap : Nat × Nat} {v : Nat} (member : gap ∈ Gaps.gaps 0 (upper vmDatatop vm p maxv)
      ((lower vm p maxv).map (place vm))) (fits : fit minv maxv length gap = some v) :
      gap = (0, 0) := by
    have range := fit_range fits
    have empty : gap.2 = 0 := by
      by_contra some
      have away := found_away below spread datatop member (Nat.pos_of_ne_zero some) fits
      exact full ⟨v, range.1, by omega, away.2⟩
    have ordered := Gaps.gap_ordered descends (Nat.zero_le _) (fun _ _ => Nat.zero_le _) member
    exact Prod.ext (by omega) empty
  have lowest : (∃ r ∈ (vm.vmproc p).vmRegionsAvl, (vm.virRegion r).vaddr = 0) ↔
      (0, 0) ∈ Gaps.gaps 0 (upper vmDatatop vm p maxv) ((lower vm p maxv).map (place vm)) := by
    constructor
    · rintro ⟨r, inTree, atZero⟩
      have listed : place vm r ∈ (lower vm p maxv).map (place vm) := by
        apply List.mem_map_of_mem
        rw [lower, List.mem_reverse, List.mem_filter]
        exact ⟨inTree, decide_eq_true (by omega)⟩
      exact Gaps.bottom_gap descends (fun _ _ => Nat.zero_le _) listed atZero
    · intro member
      rcases (Gaps.mem_gaps member).2 with same | ⟨interval, inside, same⟩
      · have size : 0 < vmPageSize := by decide
        omega
      · obtain ⟨r, inTree, -, rfl⟩ := mem_lower below datatop maxv inside
        exact ⟨r, inTree, same.symm⟩
  have under := fit_zero minv maxv positive
  by_cases both : (∃ r ∈ (vm.vmproc p).vmRegionsAvl, (vm.virRegion r).vaddr = 0) ∧
      max vmPageSize minv + length ≤ min (2 ^ 32 - vmPageSize) maxv
  · rw [if_pos both.2] at under
    rw [if_pos both]
    cases found : search vmDatatop vm p minv maxv length with
    | none =>
        have missed := List.findSome?_eq_none_iff.mp found _ (lowest.mp both.1)
        rw [under] at missed
        cases missed
    | some v =>
        obtain ⟨gap, member, fits⟩ := List.exists_of_findSome?_eq_some found
        rw [zero member fits, under] at fits
        exact fits.symm
  · rw [if_neg both]
    cases found : search vmDatatop vm p minv maxv length with
    | none => rfl
    | some v =>
        obtain ⟨gap, member, fits⟩ := List.exists_of_findSome?_eq_some found
        have isZero := zero member fits
        rw [isZero] at member fits
        rw [under, if_neg fun room => both ⟨lowest.mpr member, room⟩] at fits
        cases fits

end

end Ve482.Vm
