import Ve482.Vm.Regions

set_option autoImplicit false

namespace Ve482.Vm

open Fallible (Ends)

variable {np : Nat} {vm : State np} {p : Fin np}

/-- `struct vm_region_info` -/
structure RegionInfo where
  vriAddr : Nat
  vriLength : Nat
  vriProt : BitVec 32
deriving DecidableEq

/-- `PROT_WRITE` -/
def protWrite : BitVec 32 := 2

/-- `for (voffset = 0; voffset < vr->length; voffset += VM_PAGE_SIZE)`, with `count` pages to
come: the first and the last `phys_region`, if any. -/
def firstLast (region : VirRegion np) :
    Nat → Nat → Option PhysRegion → Option PhysRegion →
      Except Stop (Option PhysRegion × Option PhysRegion)
  | 0, _, ph1, ph2 => .ok (ph1, ph2)
  | count + 1, voffset, ph1, ph2 => do
      match ← physblockGet region voffset with
      | none => firstLast region count (voffset + vmPageSize) ph1 ph2
      | some ph => firstLast region count (voffset + vmPageSize) (ph1.or (some ph)) (some ph)

/-- The loop of `get_region_info`, with `left` entries to go before `max`. An entry that the
loop steps over is not filled in. -/
def getRegionInfoLoop (vm : State np) :
    Nat → List Ptr → Nat → Except Stop (List (Option RegionInfo) × Nat)
  | 0, _, next => .ok ([], next)
  | _ + 1, [], next => .ok ([], next)
  | left + 1, vr :: vIter, _ => do
      let region := vm.virRegion vr
      let next := vbAdd region.vaddr region.length
      let pages := (region.length + vmPageSize - 1) / vmPageSize
      match ← firstLast region pages 0 none none with
      | (some ph1, some ph2) =>
          let vri : RegionInfo := {
            vriAddr := vbAdd region.vaddr ph1.offset
            vriLength := ph2.offset + vmPageSize - ph1.offset
            vriProt := if region.flags.writable then 0 else 0 &&& ~~~protWrite }
          let (entries, next) ← getRegionInfoLoop vm left vIter next
          return (some vri :: entries, next)
      | (ph1, ph2) =>
          assert (ph1 = none ∧ ph2 = none) .getRegionInfo
          -- `continue` comes before `region_incr_iter`
          let (entries, next) ← getRegionInfoLoop vm left (vr :: vIter) next
          return (none :: entries, next)

/-- The entries are as many as the call returns. -/
def getRegionInfo (vm : State np) (p : Fin np) (max nextp : Nat) :
    Except Stop (List (Option RegionInfo) × Nat) :=
  if max = 0 then .ok ([], nextp)
  else
    match (vm.vmproc p).vmRegionsAvl.dropWhile fun r => (vm.virRegion r).vaddr < nextp with
    | [] => .ok ([], nextp)
    | vIter => getRegionInfoLoop vm max vIter nextp

/-- The calls from a place on, each from where the last one ended, up to one that returns 0. -/
inductive Calls (vm : State np) (p : Fin np) (max : Nat) :
    Nat → List (List (Option RegionInfo)) → Prop where
  | last {nextp next : Nat} (call : getRegionInfo vm p max nextp = .ok ([], next)) :
      Calls vm p max nextp []
  | more {nextp next : Nat} {entries : List (Option RegionInfo)}
      {calls : List (List (Option RegionInfo))}
      (call : getRegionInfo vm p max nextp = .ok (entries, next)) (some : entries ≠ [])
      (rest : Calls vm p max next calls) : Calls vm p max nextp (entries :: calls)

/-- The slots of the pages that are there. -/
def VirRegion.resident (region : VirRegion np) : List Nat :=
  (List.range (region.length / vmPageSize)).filter fun i => (region.physblocks i).isSome

/-- The part of the region from its first to its last resident page. -/
def VirRegion.report (region : VirRegion np) : Option RegionInfo :=
  match region.resident.head?, region.resident.getLast? with
  | some first, some last => some {
      vriAddr := vbAdd region.vaddr (first * vmPageSize)
      vriLength := (last + 1 - first) * vmPageSize
      vriProt := 0 }
  | _, _ => none

/-- The calls from 0 on report every region that has a page, once and in order, and nothing
else; and they fill in what they return. -/
def Enumerates (vm : State np) (p : Fin np) (max : Nat) : Prop :=
  ∃ calls, Calls vm p max 0 calls ∧ calls.flatten =
    ((vm.vmproc p).vmRegionsAvl.filterMap fun r => (vm.virRegion r).report).map some

theorem VirRegion.report_none {region : VirRegion np} :
    region.report = none ↔ region.resident = [] := by
  unfold report
  cases resident : region.resident with
  | nil => simp
  | cons first rest => simp [List.getLast?_cons]

theorem firstLast_ok {region : VirRegion np} (sound : region.Sound) (count first : Nat)
    (all : first + count = region.length / vmPageSize) (ph1 ph2 : Option PhysRegion) :
    firstLast region count (first * vmPageSize) ph1 ph2 =
      .ok (ph1.or ((List.range' first count).filterMap region.physblocks).head?,
        ((List.range' first count).filterMap region.physblocks).getLast?.or ph2) := by
  induction count generalizing first ph1 ph2 with
  | zero => simp [firstLast]
  | succ count ih =>
      have next : first * vmPageSize + vmPageSize = (first + 1) * vmPageSize :=
        (Nat.succ_mul first vmPageSize).symm
      rw [firstLast, sound.get (by omega), ok_bind, next]
      cases slot : region.physblocks first with
      | none =>
          dsimp only
          rw [ih (first + 1) (by omega), List.range'_succ, List.filterMap_cons, slot]
      | some ph =>
          dsimp only
          rw [ih (first + 1) (by omega), List.range'_succ, List.filterMap_cons, slot]
          generalize (List.range' (first + 1) count).filterMap region.physblocks = later
          have head : (ph1.or (some ph)).or later.head? = ph1.or (some ph) := by
            cases ph1 <;> rfl
          have last : (ph :: later).getLast?.or ph2 = later.getLast?.or (some ph) := by
            rw [List.getLast?_cons]
            cases later.getLast? <;> rfl
          rw [head, List.head?_cons, last]

theorem VirRegion.Sound.offsets_eq {region : VirRegion np} (sound : region.Sound) :
    ((List.range (region.length / vmPageSize)).filterMap region.physblocks).map
      PhysRegion.offset = region.resident.map (· * vmPageSize) := by
  unfold VirRegion.resident
  have inside : ∀ i ∈ List.range (region.length / vmPageSize),
      i < region.length / vmPageSize := fun i => List.mem_range.mp
  revert inside
  generalize List.range (region.length / vmPageSize) = slots
  intro inside
  induction slots with
  | nil => rfl
  | cons i slots ih =>
      have rest := ih fun j member => inside j (List.mem_cons_of_mem i member)
      rw [List.filterMap_cons, List.filter_cons]
      cases slot : region.physblocks i with
      | none => exact rest
      | some pr =>
          have offset := sound.offsets i pr (inside i List.mem_cons_self) slot
          simp only [Option.isSome_some, if_true, List.map_cons, rest, offset]

/-- What the loop finds in a region is what is reported of it. -/
theorem VirRegion.Sound.firstLast {region : VirRegion np} (sound : region.Sound) :
    region.report = none ∧ Vm.firstLast region ((region.length + vmPageSize - 1) / vmPageSize) 0
        none none = .ok (none, none) ∨
      ∃ ph1 ph2, Vm.firstLast region ((region.length + vmPageSize - 1) / vmPageSize) 0 none none =
          .ok (some ph1, some ph2) ∧
        region.report =
          some ⟨vbAdd region.vaddr ph1.offset, ph2.offset + vmPageSize - ph1.offset, 0⟩ := by
  have pages : (region.length + vmPageSize - 1) / vmPageSize = region.length / vmPageSize := by
    have aligned := sound.aligned
    unfold vmPageSize at aligned ⊢
    omega
  have found := firstLast_ok sound (region.length / vmPageSize) 0 (Nat.zero_add _) none none
  have offsets := sound.offsets_eq
  rw [Nat.zero_mul, ← List.range_eq_range', Option.none_or, Option.or_none] at found
  rw [pages, found, report]
  revert offsets
  generalize (List.range (region.length / vmPageSize)).filterMap region.physblocks = prs
  intro offsets
  have heads := congrArg List.head? offsets
  have lasts := congrArg List.getLast? offsets
  rw [List.head?_map, List.head?_map] at heads
  rw [List.getLast?_map, List.getLast?_map] at lasts
  cases first : prs.head? with
  | none =>
      left
      rw [first] at heads
      have none := Option.map_eq_none_iff.mp heads.symm
      rw [List.head?_eq_none_iff.mp first, none]
      exact ⟨rfl, rfl⟩
  | some ph1 =>
      right
      obtain ⟨ph2, last⟩ : ∃ ph2, prs.getLast? = some ph2 := by
        cases last : prs.getLast? with
        | none =>
            rw [List.getLast?_eq_none_iff.mp last] at first
            cases first
        | some ph2 => exact ⟨ph2, rfl⟩
      rw [first] at heads
      rw [last] at lasts ⊢
      obtain ⟨i, head, low⟩ := Option.map_eq_some_iff.mp heads.symm
      obtain ⟨k, tail, high⟩ := Option.map_eq_some_iff.mp lasts.symm
      refine ⟨ph1, ph2, rfl, ?_⟩
      rw [head, tail, ← low, ← high]
      dsimp only
      rw [Nat.sub_mul, Nat.succ_mul]

/-- The loop as it is when the slots are in order. -/
def walk (vm : State np) : Nat → List Ptr → Nat → List (Option RegionInfo) × Nat
  | 0, _, next => ([], next)
  | _ + 1, [], next => ([], next)
  | left + 1, vr :: vIter, _ =>
      let next := vbAdd (vm.virRegion vr).vaddr (vm.virRegion vr).length
      match (vm.virRegion vr).report with
      | some vri => (some vri :: (walk vm left vIter next).1, (walk vm left vIter next).2)
      | none => (none :: (walk vm left (vr :: vIter) next).1, (walk vm left (vr :: vIter) next).2)

theorem getRegionInfoLoop_walk (left : Nat) {vIter : List Ptr}
    (sound : ∀ r ∈ vIter, (vm.virRegion r).Sound) (next : Nat) :
    getRegionInfoLoop vm left vIter next = .ok (walk vm left vIter next) := by
  induction left generalizing vIter next with
  | zero => rfl
  | succ left ih =>
      cases vIter with
      | nil => rfl
      | cons vr vIter =>
          have own := sound vr List.mem_cons_self
          have others : ∀ r ∈ vIter, (vm.virRegion r).Sound :=
            fun r member => sound r (List.mem_cons_of_mem vr member)
          rw [getRegionInfoLoop, walk]
          rcases own.firstLast with ⟨empty, found⟩ | ⟨ph1, ph2, found, report⟩
          · rw [found, ok_bind, empty]
            dsimp only
            rw [assert_true _ ⟨rfl, rfl⟩, ih sound]
            rfl
          · rw [found, ok_bind, report]
            dsimp only
            have prot : (if (vm.virRegion vr).flags.writable then (0 : BitVec 32)
                else 0 &&& ~~~protWrite) = 0 := by
              split <;> rfl
            rw [ih others, ok_bind, prot]
            rfl

theorem getRegionInfo_walk {max : Nat} (positive : 0 < max)
    (sound : ∀ r ∈ (vm.vmproc p).vmRegionsAvl, (vm.virRegion r).Sound) (nextp : Nat) :
    getRegionInfo vm p max nextp = .ok (walk vm max
      ((vm.vmproc p).vmRegionsAvl.dropWhile fun r => (vm.virRegion r).vaddr < nextp) nextp) := by
  obtain ⟨left, rfl⟩ := Nat.exists_eq_add_of_lt positive
  unfold getRegionInfo
  rw [if_neg (by omega)]
  have iterated : ∀ r ∈ (vm.vmproc p).vmRegionsAvl.dropWhile
      (fun r => (vm.virRegion r).vaddr < nextp), (vm.virRegion r).Sound :=
    fun r member => sound r ((List.dropWhile_sublist _).subset member)
  revert iterated
  generalize (vm.vmproc p).vmRegionsAvl.dropWhile _ = vIter
  intro iterated
  cases vIter with
  | nil => rfl
  | cons vr vIter => exact getRegionInfoLoop_walk _ iterated nextp

/-- Where the last of some regions ends. -/
def endOf (vm : State np) (regions : List Ptr) (next : Nat) : Nat :=
  match regions.getLast? with
  | some last => vbAdd (vm.virRegion last).vaddr (vm.virRegion last).length
  | none => next

theorem endOf_cons (vr : Ptr) (regions : List Ptr) (next : Nat) :
    endOf vm (vr :: regions) next =
      endOf vm regions (vbAdd (vm.virRegion vr).vaddr (vm.virRegion vr).length) := by
  unfold endOf
  rw [List.getLast?_cons]
  cases regions.getLast? <;> rfl

/-- Regions that have pages are reported one by one. -/
theorem walk_filled {left : Nat} {vIter : List Ptr}
    (filled : ∀ r ∈ vIter.take left, (vm.virRegion r).report ≠ none) (next : Nat) :
    walk vm left vIter next = ((vIter.take left).map fun r => (vm.virRegion r).report,
      endOf vm (vIter.take left) next) := by
  induction left generalizing vIter next with
  | zero => rfl
  | succ left ih =>
      cases vIter with
      | nil => rfl
      | cons vr vIter =>
          rw [List.take_succ_cons] at filled ⊢
          have rest := ih (fun r member => filled r (List.mem_cons_of_mem vr member))
            (vbAdd (vm.virRegion vr).vaddr (vm.virRegion vr).length)
          rw [walk, endOf_cons, List.map_cons]
          cases report : (vm.virRegion vr).report with
          | none => exact absurd report (filled vr List.mem_cons_self)
          | some vri => rw [rest]

/-- A region without a page leaves an entry that is not filled in. -/
theorem walk_unfilled {left : Nat} {vIter : List Ptr} {r : Ptr} (member : r ∈ vIter.take left)
    (empty : (vm.virRegion r).report = none) (next : Nat) :
    none ∈ (walk vm left vIter next).1 := by
  induction left generalizing vIter next with
  | zero => simp at member
  | succ left ih =>
      cases vIter with
      | nil => simp at member
      | cons vr vIter =>
          rw [walk]
          cases report : (vm.virRegion vr).report with
          | none => exact List.mem_cons_self
          | some vri =>
              apply List.mem_cons_of_mem
              apply ih
              rw [List.take_succ_cons] at member
              cases List.mem_cons.mp member with
              | inl here =>
                  rw [← here, empty] at report
                  cases report
              | inr later => exact later

/-- A call that fills something in goes on where some region ends. -/
theorem walk_next {left : Nat} {vIter : List Ptr} (some : 0 < left) (present : vIter ≠ [])
    (next : Nat) : (walk vm left vIter next).1 ≠ [] ∧ ∃ r ∈ vIter,
      (walk vm left vIter next).2 = vbAdd (vm.virRegion r).vaddr (vm.virRegion r).length := by
  induction left generalizing vIter next with
  | zero => exact absurd some (Nat.lt_irrefl 0)
  | succ left ih =>
      cases vIter with
      | nil => exact absurd rfl present
      | cons vr vIter =>
          have later (rest : List Ptr) (inside : ∀ r ∈ rest, r ∈ vr :: vIter) :
              ∃ r ∈ vr :: vIter, (walk vm left rest
                (vbAdd (vm.virRegion vr).vaddr (vm.virRegion vr).length)).2 =
                  vbAdd (vm.virRegion r).vaddr (vm.virRegion r).length := by
            rcases Nat.eq_zero_or_pos left with rfl | goes
            · exact ⟨vr, List.mem_cons_self, rfl⟩
            cases rest with
            | nil =>
                obtain ⟨left, rfl⟩ := Nat.exists_eq_add_of_lt goes
                exact ⟨vr, List.mem_cons_self, rfl⟩
            | cons other rest =>
                obtain ⟨-, r, member, ends⟩ := ih goes (List.cons_ne_nil other rest)
                  (vbAdd (vm.virRegion vr).vaddr (vm.virRegion vr).length)
                exact ⟨r, inside r member, ends⟩
          rw [walk]
          cases (vm.virRegion vr).report with
          | none => exact ⟨nofun, later _ fun _ member => member⟩
          | some vri =>
              exact ⟨nofun, later _ fun _ member => List.mem_cons_of_mem vr member⟩

theorem endOf_append (before : List Ptr) {regions : List Ptr} (some : regions ≠ [])
    (first next : Nat) : endOf vm (before ++ regions) first = endOf vm regions next := by
  unfold endOf
  rw [List.getLast?_append]
  cases last : regions.getLast? with
  | none => exact absurd (List.getLast?_eq_none_iff.mp last) some
  | some r => rfl

/-- A call that starts where some regions end goes on with those after them. -/
theorem Spread.from_end {before rest : List Ptr} (spread : Spread vm (before ++ rest))
    (below : ∀ r ∈ before, (vm.virRegion r).vaddr + (vm.virRegion r).length < 2 ^ 32) :
    (before ++ rest).dropWhile (fun r => (vm.virRegion r).vaddr < endOf vm before 0) = rest := by
  cases last : before.getLast? with
  | none =>
      apply regions_from rfl
      · intro r member
        rw [List.getLast?_eq_none_iff.mp last] at member
        cases member
      · intro r member
        unfold endOf
        rw [last]
        exact Nat.zero_le _
  | some r =>
      have stop : endOf vm before 0 = (vm.virRegion r).vaddr + (vm.virRegion r).length := by
        unfold endOf
        rw [last]
        exact vbAdd_eq (below r (List.mem_of_getLast? last))
      rw [stop]
      exact regions_from rfl (spread.cut last).1 (spread.cut last).2

section

variable {max : Nat} (positive : 0 < max) (spread : Spread vm (vm.vmproc p).vmRegionsAvl)
  (sound : ∀ r ∈ (vm.vmproc p).vmRegionsAvl, (vm.virRegion r).Sound)
include positive spread sound

/-- Where a region ends at the last address or past it, every call finds it again. -/
theorem not_calls_of_wrap
    (fits : ∀ r ∈ (vm.vmproc p).vmRegionsAvl,
      (vm.virRegion r).vaddr < 2 ^ 32 ∧ (vm.virRegion r).length < 2 ^ 32) {last : Ptr}
    (member : last ∈ (vm.vmproc p).vmRegionsAvl)
    (wraps : 2 ^ 32 ≤ (vm.virRegion last).vaddr + (vm.virRegion last).length) {nextp : Nat}
    (low : nextp ≤ (vm.virRegion last).vaddr) (calls : List (List (Option RegionInfo))) :
    ¬ Calls vm p max nextp calls := by
  have ends (r : Ptr) (inside : r ∈ (vm.vmproc p).vmRegionsAvl) :
      vbAdd (vm.virRegion r).vaddr (vm.virRegion r).length ≤ (vm.virRegion last).vaddr := by
    have own := fits r inside
    have small := fits last member
    unfold vbAdd
    by_cases same : r = last
    · subst same
      omega
    · rcases spread.disjoint member inside same with after | before
      · omega
      · rw [Nat.mod_eq_of_lt (Nat.lt_of_le_of_lt before small.1)]
        exact before
  have found {nextp : Nat} (low : nextp ≤ (vm.virRegion last).vaddr) :
      last ∈ (vm.vmproc p).vmRegionsAvl.dropWhile fun r => (vm.virRegion r).vaddr < nextp := by
    have split := List.takeWhile_append_dropWhile (p := fun r => (vm.virRegion r).vaddr < nextp)
      (l := (vm.vmproc p).vmRegionsAvl)
    rw [← split] at member
    refine (List.mem_append.mp member).resolve_left fun early => ?_
    have less := List.all_eq_true.mp List.all_takeWhile last early
    simp only [decide_eq_true_eq] at less
    omega
  intro called
  induction called with
  | @last nextp next call =>
      rw [getRegionInfo_walk positive sound] at call
      obtain ⟨filled, -⟩ := @walk_next np vm max _ positive (List.ne_nil_of_mem (found low)) nextp
      exact filled (congrArg Prod.fst (Except.ok.inj call))
  | @more nextp next entries calls call some rest ih =>
      rw [getRegionInfo_walk positive sound] at call
      obtain ⟨-, r, inside, stops⟩ :=
        @walk_next np vm max _ positive (List.ne_nil_of_mem (found low)) nextp
      rw [Except.ok.inj call] at stops
      dsimp only at stops
      refine ih ?_
      rw [stops]
      exact ends r ((List.dropWhile_sublist _).subset inside)

section Below

variable (below : ∀ r ∈ (vm.vmproc p).vmRegionsAvl,
  (vm.virRegion r).vaddr + (vm.virRegion r).length < 2 ^ 32)
include below

theorem getRegionInfo_from {before rest : List Ptr}
    (split : (vm.vmproc p).vmRegionsAvl = before ++ rest) :
    getRegionInfo vm p max (endOf vm before 0) =
      .ok (walk vm max rest (endOf vm before 0)) := by
  have iter : (before ++ rest).dropWhile
      (fun r => (vm.virRegion r).vaddr < endOf vm before 0) = rest :=
    Spread.from_end (split ▸ spread) fun r member =>
      below r (split ▸ List.mem_append_left rest member)
  rw [getRegionInfo_walk positive sound, split, iter]

/-- If all regions have pages, the calls report them in groups of `max`. -/
theorem calls_filled (rest : List Ptr) (before : List Ptr)
    (split : (vm.vmproc p).vmRegionsAvl = before ++ rest)
    (filled : ∀ r ∈ rest, (vm.virRegion r).report ≠ none) :
    ∃ calls, Calls vm p max (endOf vm before 0) calls ∧
      calls.flatten = rest.map fun r => (vm.virRegion r).report := by
  induction length : rest.length using Nat.strong_induction_on generalizing rest before with
  | _ size ih =>
      have call := getRegionInfo_from positive spread sound below split
      cases rest with
      | nil =>
          obtain ⟨left, rfl⟩ := Nat.exists_eq_add_of_lt positive
          exact ⟨[], .last call, rfl⟩
      | cons r rest =>
          have some : (r :: rest).take max ≠ [] := by
            obtain ⟨left, rfl⟩ := Nat.exists_eq_add_of_lt positive
            simp
          have inTake : ∀ other ∈ (r :: rest).take max, (vm.virRegion other).report ≠ none :=
            fun other member => filled other (List.mem_of_mem_take member)
          rw [walk_filled inTake, ← endOf_append before some 0] at call
          have fewer : ((r :: rest).drop max).length < size := by
            rw [List.length_drop, ← length, List.length_cons]
            omega
          have split' : (vm.vmproc p).vmRegionsAvl =
              before ++ (r :: rest).take max ++ (r :: rest).drop max := by
            rw [List.append_assoc, List.take_append_drop]
            exact split
          obtain ⟨calls, later, flat⟩ := ih _ fewer _ _ split'
            (fun other member => filled other (List.mem_of_mem_drop member)) rfl
          refine ⟨_ :: calls, .more call ?_ later, ?_⟩
          · intro none
            exact some (List.map_eq_nil_iff.mp none)
          · rw [List.flatten_cons, flat, ← List.map_append, List.take_append_drop]

/-- A region without a page is met by some call. -/
theorem calls_unfilled {nextp : Nat} {calls : List (List (Option RegionInfo))}
    (called : Calls vm p max nextp calls) {before rest : List Ptr} (start : nextp = endOf vm before 0)
    (split : (vm.vmproc p).vmRegionsAvl = before ++ rest) {r : Ptr} (member : r ∈ rest)
    (empty : (vm.virRegion r).report = none) : none ∈ calls.flatten := by
  have some {rest : List Ptr} (member : r ∈ rest) : rest.take max ≠ [] := by
    simp only [ne_eq, List.take_eq_nil_iff, not_or]
    exact ⟨by omega, List.ne_nil_of_mem member⟩
  induction called generalizing before rest with
  | last call =>
      rw [start, getRegionInfo_from positive spread sound below split] at call
      have entries := congrArg Prod.fst (Except.ok.inj call)
      by_cases filled : ∀ other ∈ rest.take max, (vm.virRegion other).report ≠ none
      · rw [walk_filled filled] at entries
        exact absurd (List.map_eq_nil_iff.mp entries) (some member)
      · obtain ⟨other, inside, hidden⟩ : ∃ other ∈ rest.take max,
            (vm.virRegion other).report = none := by simpa using filled
        have unfilled := walk_unfilled inside hidden (endOf vm before 0)
        rw [entries] at unfilled
        exact unfilled
  | more call present later ih =>
      rw [start, getRegionInfo_from positive spread sound below split] at call
      have result := Except.ok.inj call
      rw [List.flatten_cons, List.mem_append]
      by_cases filled : ∀ other ∈ rest.take max, (vm.virRegion other).report ≠ none
      · rw [walk_filled filled, ← endOf_append before (some member) 0] at result
        have split' : (vm.vmproc p).vmRegionsAvl = before ++ rest.take max ++ rest.drop max := by
          rw [List.append_assoc, List.take_append_drop]
          exact split
        have inRest : r ∈ rest.take max ++ rest.drop max := by
          rw [List.take_append_drop]
          exact member
        have left := (List.mem_append.mp inRest).resolve_left fun taken => filled r taken empty
        exact Or.inr (ih (Prod.mk.inj result).2.symm split' left)
      · obtain ⟨other, inside, hidden⟩ : ∃ other ∈ rest.take max,
            (vm.virRegion other).report = none := by simpa using filled
        have unfilled := walk_unfilled inside hidden (endOf vm before 0)
        rw [result] at unfilled
        exact Or.inl unfilled

end Below

/-- The calls enumerate the regions exactly if every region has a resident page, and none ends at
the last address or past it. -/
theorem enumerates_iff (fits : ∀ r ∈ (vm.vmproc p).vmRegionsAvl,
    (vm.virRegion r).vaddr < 2 ^ 32 ∧ (vm.virRegion r).length < 2 ^ 32) :
    Enumerates vm p max ↔ ∀ r ∈ (vm.vmproc p).vmRegionsAvl, (vm.virRegion r).resident ≠ [] ∧
      (vm.virRegion r).vaddr + (vm.virRegion r).length < 2 ^ 32 := by
  have start : (0 : Nat) = endOf vm [] 0 := rfl
  constructor
  · rintro ⟨calls, called, flat⟩
    have below (r : Ptr) (member : r ∈ (vm.vmproc p).vmRegionsAvl) :
        (vm.virRegion r).vaddr + (vm.virRegion r).length < 2 ^ 32 := by
      by_contra wraps
      exact not_calls_of_wrap positive spread sound fits member (Nat.le_of_not_lt wraps)
        (Nat.zero_le _) calls called
    intro r member
    refine ⟨fun empty => ?_, below r member⟩
    have hidden := calls_unfilled positive spread sound below called start
      (List.nil_append _).symm member (VirRegion.report_none.mpr empty)
    rw [flat] at hidden
    simp at hidden
  · intro good
    have resident := fun r member => (good r member).1
    have below := fun r member => (good r member).2
    have filled : ∀ r ∈ (vm.vmproc p).vmRegionsAvl, (vm.virRegion r).report ≠ none :=
      fun r member none => resident r member (VirRegion.report_none.mp none)
    obtain ⟨calls, called, flat⟩ := calls_filled positive spread sound below _ []
      (List.nil_append _).symm filled
    refine ⟨calls, called, ?_⟩
    rw [flat]
    revert filled
    generalize (vm.vmproc p).vmRegionsAvl = regions
    intro filled
    induction regions with
    | nil => rfl
    | cons r regions ih =>
        obtain ⟨vri, report⟩ := Option.ne_none_iff_exists'.mp (filled r List.mem_cons_self)
        have rest := ih fun other member => filled other (List.mem_cons_of_mem r member)
        rw [List.map_cons, List.filterMap_cons, report, List.map_cons, rest]

end

/-- The region of the small server, and an empty one after it. -/
def withEmptyRegion : State 2 :=
  { smallStart with
    vmproc := fun p => if p = firstProcess then ⟨1, true, [0, 1], 0⟩ else ⟨2, true, [], 0⟩
    virRegion := fun r =>
      if r = 0 then smallRegion
      else { smallRegion with vaddr := 16 * vmPageSize, physblocks := fun _ => none } }

theorem withEmptyRegion_spread : Spread withEmptyRegion (withEmptyRegion.vmproc 0).vmRegionsAvl :=
  ⟨by decide, by decide, by decide⟩

theorem withEmptyRegion_sound (r : Ptr) : (withEmptyRegion.virRegion r).Sound := by
  by_cases first : r = 0
  · have region : withEmptyRegion.virRegion r = smallRegion := if_pos first
    rw [region]
    exact smallRegion_sound
  · have region : withEmptyRegion.virRegion r =
        { smallRegion with vaddr := 16 * vmPageSize, physblocks := fun _ => none } := if_neg first
    rw [region]
    exact ⟨by decide, nofun⟩

theorem enumerates_iff_small :
    Enumerates smallStart 0 1 ↔
      ∀ r ∈ (smallStart.vmproc 0).vmRegionsAvl, (smallStart.virRegion r).resident ≠ [] ∧
        (smallStart.virRegion r).vaddr + (smallStart.virRegion r).length < 2 ^ 32 :=
  enumerates_iff Nat.one_pos smallStart_spread (fun _ _ => smallRegion_sound) (by decide)

/-- The second entry is returned but not filled in. -/
theorem empty_region_counted :
    (getRegionInfo withEmptyRegion 0 2 0).map Prod.fst =
        .ok [some ⟨8 * vmPageSize, 3 * vmPageSize, 0⟩, none] ∧
      ¬ Enumerates withEmptyRegion 0 2 := by
  refine ⟨by decide, ?_⟩
  rintro ⟨calls, called, flat⟩
  have start : 0 = endOf withEmptyRegion [] 0 := rfl
  have hidden := calls_unfilled Nat.two_pos withEmptyRegion_spread
    (fun r _ => withEmptyRegion_sound r) (by decide) called start (List.nil_append _).symm
    (show 1 ∈ [0, 1] by decide) (by decide)
  rw [flat] at hidden
  simp at hidden

end Ve482.Vm
