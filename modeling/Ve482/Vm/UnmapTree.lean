import Ve482.Vm.Unmap

set_option autoImplicit false

namespace Ve482.Vm

variable {np : Nat} {answers : Answers} {vm vm' : State np} {p : Fin np} {r : Ptr}

section

variable {before rest : List Ptr}

theorem Spread.remove (spread : Spread vm (before ++ r :: rest)) :
    treeRemove vm (before ++ r :: rest) (vm.virRegion r).vaddr = before ++ rest := by
  obtain ⟨earlier, -, -, below, -⟩ := spread_split.mp spread
  have different : ∀ other ∈ before,
      ¬ decide ((vm.virRegion other).vaddr = (vm.virRegion r).vaddr) = true := by
    intro other member
    have ends := below other member
    have positive := earlier.positive other member
    simp only [decide_eq_true_eq]
    omega
  rw [treeRemove, List.eraseP_append_right _ different, List.eraseP_cons_of_pos (by simp)]

/-- A region comes between those with smaller and those with larger addresses. -/
theorem treeInsert_between
    (below : ∀ other ∈ before, (vm.virRegion other).vaddr < (vm.virRegion r).vaddr)
    (above : ∀ other ∈ rest, (vm.virRegion r).vaddr < (vm.virRegion other).vaddr) :
    treeInsert vm (before ++ rest) r = before ++ r :: rest := by
  have new : ¬ ∃ other ∈ before ++ rest, (vm.virRegion other).vaddr = (vm.virRegion r).vaddr := by
    rintro ⟨other, member, same⟩
    rcases List.mem_append.mp member with inBefore | inRest
    · exact Nat.ne_of_lt (below other inBefore) same
    · exact Nat.ne_of_gt (above other inRest) same
  have small : ∀ other ∈ before,
      decide ((vm.virRegion other).vaddr < (vm.virRegion r).vaddr) = true := by simpa using below
  have taken : rest.takeWhile (fun other => (vm.virRegion other).vaddr < (vm.virRegion r).vaddr) =
      [] := by
    cases rest with
    | nil => rfl
    | cons first rest =>
        have later := above first List.mem_cons_self
        exact List.takeWhile_cons_of_neg (by simpa using Nat.le_of_lt later)
  unfold treeInsert
  dsimp only
  rw [if_neg new, List.takeWhile_append_of_pos small, taken, List.append_nil,
    regions_from rfl below fun other member => Nat.le_of_lt (above other member)]

/-- An inserted region that had no equal is removed again by its key. -/
theorem treeRemove_insert {tree : List Ptr}
    (new : ∀ other ∈ tree, (vm.virRegion other).vaddr ≠ (vm.virRegion r).vaddr) :
    treeRemove vm (treeInsert vm tree r) (vm.virRegion r).vaddr = tree := by
  have none : ¬ ∃ other ∈ tree, (vm.virRegion other).vaddr = (vm.virRegion r).vaddr := by
    rintro ⟨other, member, same⟩
    exact new other member same
  have different : ∀ other ∈ tree.takeWhile
      (fun other => (vm.virRegion other).vaddr < (vm.virRegion r).vaddr),
      ¬ decide ((vm.virRegion other).vaddr = (vm.virRegion r).vaddr) = true := by
    intro other member
    simpa using new other ((List.takeWhile_sublist _).subset member)
  unfold treeInsert treeRemove
  dsimp only
  rw [if_neg none, List.eraseP_append_right _ different, List.eraseP_cons_of_pos (by simp),
    List.takeWhile_append_dropWhile]

/-- A search by key in a tree of regions that are apart. -/
def regionFind (vm : State np) (p : Fin np) (key : Nat) : Option Ptr :=
  (vm.vmproc p).vmRegionsAvl.find? fun r => (vm.virRegion r).vaddr = key

theorem Spread.find (spread : Spread vm (vm.vmproc p).vmRegionsAvl)
    (member : r ∈ (vm.vmproc p).vmRegionsAvl) :
    regionFind vm p (vm.virRegion r).vaddr = some r := by
  obtain ⟨before, rest, split⟩ := List.append_of_mem member
  rw [split] at spread
  obtain ⟨earlier, -, -, below, -⟩ := spread_split.mp spread
  unfold regionFind
  rw [split, List.find?_append, List.find?_eq_none.mpr, Option.none_or,
    List.find?_cons_of_pos (by simp)]
  intro other inBefore
  have ends := below other inBefore
  have positive := earlier.positive other inBefore
  simp only [decide_eq_true_eq]
  omega

end

/-- The other regions are in the tree as they were, and the region with what is left of it. -/
structure Unmapped (vm vm' : State np) (p : Fin np) (r : Ptr) (offset len : Nat) : Prop where
  others : ∀ other ∈ (vm.vmproc p).vmRegionsAvl, other ≠ r →
    regionFind vm' p (vm.virRegion other).vaddr = some other ∧
      vm'.virRegion other = vm.virRegion other
  vaddr : (vm'.virRegion r).vaddr =
    if offset = 0 then (vm.virRegion r).vaddr + len else (vm.virRegion r).vaddr
  length : (vm'.virRegion r).length =
    if offset = 0 ∨ offset + len = (vm.virRegion r).length then (vm.virRegion r).length - len
    else (vm.virRegion r).length
  kept : 0 < (vm'.virRegion r).length → regionFind vm' p (vm'.virRegion r).vaddr = some r
  gone : (vm'.virRegion r).length = 0 →
    r ∉ (vm'.vmproc p).vmRegionsAvl ∧ ∀ i, (vm'.virRegion r).physblocks i = none
  spread : Spread vm' (vm'.vmproc p).vmRegionsAvl

section

variable (spread : Spread vm (vm.vmproc p).vmRegionsAvl)
  (below : ∀ r ∈ (vm.vmproc p).vmRegionsAvl,
    (vm.virRegion r).vaddr + (vm.virRegion r).length < 2 ^ 32)
  (member : r ∈ (vm.vmproc p).vmRegionsAvl) {offset len : Nat} (positive : 0 < len)
  (pages : offset % vmPageSize = 0 ∧ len % vmPageSize = 0)
  (fits : offset + len ≤ (vm.virRegion r).length)

include spread below member positive pages fits

/-- A region of which something is left stays where it is in the tree. -/
theorem Moved.part (moved : Moved vm vm' p r offset len)
    (part : ¬ (offset = 0 ∧ len = (vm.virRegion r).length)) :
    (vm'.vmproc p).vmRegionsAvl = (vm.vmproc p).vmRegionsAvl ∧
      Spread vm' (vm.vmproc p).vmRegionsAvl := by
  obtain ⟨before, rest, split⟩ := List.append_of_mem member
  have short := below r member
  have whole := spread.aligned r member
  rw [split] at spread
  obtain ⟨earlier, -, -, low, high⟩ := spread_split.mp spread
  have vaddr := moved.vaddr
  have length := moved.length
  rw [vbAdd_eq (by omega)] at vaddr
  have shape : (vm.virRegion r).vaddr ≤ (vm'.virRegion r).vaddr ∧
      0 < (vm'.virRegion r).length ∧
      (vm'.virRegion r).vaddr + (vm'.virRegion r).length ≤
        (vm.virRegion r).vaddr + (vm.virRegion r).length ∧
      (vm'.virRegion r).vaddr % vmPageSize = 0 ∧ (vm'.virRegion r).length % vmPageSize = 0 := by
    rw [vaddr, length]
    unfold vmPageSize at whole pages ⊢
    split <;> split <;> omega
  have placed : Spread vm' (before ++ r :: rest) := by
    apply spread.replace moved.others shape.2.1 shape.2.2.2 shape.1
    intro other inRest
    exact Nat.le_trans shape.2.2.1 (high other inRest)
  rw [split]
  refine ⟨?_, placed⟩
  rw [moved.tree]
  by_cases start : offset = 0
  · obtain ⟨-, -, -, low', high'⟩ := spread_split.mp placed
    rw [if_pos start, if_neg fun all => part ⟨start, all⟩, split, spread.remove]
    apply treeInsert_between
    · intro other inBefore
      have ends := low' other inBefore
      have own := (placed.sublist (List.sublist_append_left _ _)).positive other inBefore
      omega
    · intro other inRest
      have starts := high' other inRest
      omega
  · rw [if_neg start, split]

theorem unmapped_part (moved : Moved vm vm' p r offset len)
    (part : ¬ (offset = 0 ∧ len = (vm.virRegion r).length)) :
    Unmapped vm vm' p r offset len := by
  obtain ⟨tree, spread'⟩ := moved.part spread below member positive pages fits part
  have short := below r member
  have vaddr := moved.vaddr
  rw [vbAdd_eq (by omega)] at vaddr
  rw [← tree] at spread' member
  refine ⟨fun other inside different => ⟨?_, moved.others other different⟩, vaddr, moved.length,
    fun _ => spread'.find member, fun empty => ?_, spread'⟩
  · rw [← moved.others other different]
    rw [← tree] at inside
    exact spread'.find inside
  · exact absurd empty (Nat.ne_of_gt (spread'.positive r member))

/-- A region that is gone leaves the others alone if none of them starts at its end. -/
theorem unmapped_whole_iff (moved : Moved vm vm' p r offset len)
    (whole : offset = 0 ∧ len = (vm.virRegion r).length) :
    Unmapped vm vm' p r offset len ↔ ¬ ∃ other ∈ (vm.vmproc p).vmRegionsAvl,
      (vm.virRegion other).vaddr = (vm.virRegion r).vaddr + (vm.virRegion r).length := by
  obtain ⟨rfl, rfl⟩ := whole
  obtain ⟨before, rest, split⟩ := List.append_of_mem member
  have short := below r member
  have nodup := spread.nodup
  have vaddr := moved.vaddr
  have length := moved.length
  have tree := moved.tree
  rw [if_pos rfl, vbAdd_eq (by omega)] at vaddr
  rw [if_pos (Or.inl rfl), Nat.sub_self] at length
  have removed : treeRemove vm (before ++ r :: rest) (vm.virRegion r).vaddr = before ++ rest := by
    rw [split] at spread
    exact spread.remove
  dsimp only at tree
  rw [if_pos rfl, if_pos rfl, split, removed] at tree
  rw [split] at nodup
  have outside : r ∉ before ++ rest := by
    intro inside
    rw [List.nodup_middle] at nodup
    exact (List.nodup_cons.mp nodup).1 inside
  have kept : ∀ other ∈ before ++ rest, vm'.virRegion other = vm.virRegion other :=
    fun other inside => moved.others other fun same => outside (same ▸ inside)
  have sub : (before ++ rest).Sublist (vm.vmproc p).vmRegionsAvl := by
    rw [split]
    exact List.Sublist.append_left (List.sublist_cons_self r rest) before
  have spread' : Spread vm' (before ++ rest) :=
    (spread.sublist sub).congr fun other inside => by rw [kept other inside]; exact ⟨rfl, rfl⟩
  constructor
  · rintro unmapped ⟨other, inside, neighbour⟩
    have apart := spread.positive r member
    have different : other ≠ r := by
      rintro rfl
      omega
    have still : other ∈ before ++ rest := by
      rw [split] at inside
      rcases List.mem_append.mp inside with inBefore | inRest
      · exact List.mem_append_left rest inBefore
      · exact List.mem_append_right before ((List.mem_cons.mp inRest).resolve_left different)
    have equal : (vm'.virRegion other).vaddr = (vm'.virRegion r).vaddr := by
      rw [kept other still, vaddr, neighbour]
    have found : other ∈ (vm'.vmproc p).vmRegionsAvl :=
      List.mem_of_find?_eq_some (unmapped.others other inside different).1
    obtain ⟨first, last, split'⟩ := List.append_of_mem still
    have nodup' := spread'.nodup
    rw [treeInsert, if_pos ⟨other, still, equal⟩, split', ← equal] at tree
    rw [split'] at spread'
    rw [spread'.remove] at tree
    rw [tree] at found
    rw [split', List.nodup_middle] at nodup'
    exact (List.nodup_cons.mp nodup').1 found
  · intro none
    have new : ∀ other ∈ before ++ rest, (vm'.virRegion other).vaddr ≠ (vm'.virRegion r).vaddr := by
      intro other inside same
      rw [kept other inside, vaddr] at same
      exact none ⟨other, sub.subset inside, same⟩
    rw [treeRemove_insert new] at tree
    rw [← tree] at spread' outside
    refine ⟨fun other inside different => ⟨?_, moved.others other different⟩, vaddr, moved.length,
      fun some => absurd length (Nat.ne_of_gt some), fun empty => ⟨outside, moved.freed empty⟩, spread'⟩
    rw [← moved.others other different]
    apply spread'.find
    rw [tree]
    rw [split] at inside
    rcases List.mem_append.mp inside with inBefore | inRest
    · exact List.mem_append_left rest inBefore
    · exact List.mem_append_right before ((List.mem_cons.mp inRest).resolve_left different)

/-- The other regions stay in place unless the whole region goes and one starts at its end. -/
theorem unmapped_iff :
    ((vm.virRegion r).Sound →
      (∀ pb, (vm.virRegion r).allRefs.count pb ≤ (vm.physBlock pb).refcount) →
        ∃ code vm', mapUnmapRegion answers vm p r offset len = .ok (code, vm')) ∧
    ∀ code vm', mapUnmapRegion answers vm p r offset len = .ok (code, vm') →
      (Unmapped vm vm' p r offset len ↔
        ¬ (offset = 0 ∧ len = (vm.virRegion r).length ∧ ∃ other ∈ (vm.vmproc p).vmRegionsAvl,
          (vm.virRegion other).vaddr = (vm.virRegion r).vaddr + (vm.virRegion r).length)) := by
  have short := below r member
  have small : (vm.virRegion r).length < 2 ^ 32 := by omega
  constructor
  · intro sound counted
    have inside : offset / vmPageSize + len / vmPageSize ≤ (vm.virRegion r).length / vmPageSize := by
      unfold vmPageSize at pages ⊢
      omega
    obtain ⟨code, vm', result, -⟩ : ∃ code vm', mapUnmapRegion answers vm p r
        (offset / vmPageSize * vmPageSize) (len / vmPageSize * vmPageSize) = .ok (code, vm') ∧ _ :=
      mapUnmapRegion_ok small sound counted inside
    rw [Nat.div_mul_cancel (Nat.dvd_of_mod_eq_zero pages.1),
      Nat.div_mul_cancel (Nat.dvd_of_mod_eq_zero pages.2)] at result
    exact ⟨code, vm', result⟩
  · intro code vm' result
    have moved := (mapUnmapRegion_moved small pages.2 fits positive).of_eq result
    by_cases whole : offset = 0 ∧ len = (vm.virRegion r).length
    · rw [unmapped_whole_iff spread below member positive pages fits moved whole]
      exact not_congr ⟨fun neighbour => ⟨whole.1, whole.2, neighbour⟩, fun all => all.2.2⟩
    · refine iff_of_true (unmapped_part spread below member positive pages fits moved whole) ?_
      exact fun all => whole ⟨all.1, all.2.1⟩

end

theorem unmapped_iff_small :
    (smallRegion.Sound → (∀ pb, smallRegion.allRefs.count pb ≤ (smallStart.physBlock pb).refcount) →
        ∃ code vm', mapUnmapRegion (firstFit 16) smallStart 0 0 0 (4 * vmPageSize) =
          .ok (code, vm')) ∧
    ∀ code vm', mapUnmapRegion (firstFit 16) smallStart 0 0 0 (4 * vmPageSize) = .ok (code, vm') →
      (Unmapped smallStart vm' 0 0 0 (4 * vmPageSize) ↔
        ¬ (0 = 0 ∧ 4 * vmPageSize = smallRegion.length ∧ ∃ other ∈ (smallStart.vmproc 0).vmRegionsAvl,
          (smallStart.virRegion other).vaddr = smallRegion.vaddr + smallRegion.length)) :=
  unmapped_iff smallStart_spread (by decide) (by decide) (by decide)
    ⟨by decide, by decide⟩ (by decide)

/-- The region of the small server, and one that starts at its end. -/
def withNeighbour : State 2 :=
  { smallStart with
    vmproc := fun p => if p = firstProcess then ⟨1, true, [0, 1], 0⟩ else ⟨2, true, [], 0⟩
    virRegion := fun r =>
      if r = 0 then smallRegion
      else { smallRegion with vaddr := 12 * vmPageSize, physblocks := fun _ => none } }

/-- The whole first region is unmapped, and the second one is no longer in the tree. -/
theorem neighbour_removed :
    (mapUnmapRegion (firstFit 16) withNeighbour 0 0 0 (4 * vmPageSize)).map
      (fun result => (result.2.vmproc 0).vmRegionsAvl) = .ok [] ∧
    ¬ ∃ code vm', mapUnmapRegion (firstFit 16) withNeighbour 0 0 0 (4 * vmPageSize) =
        .ok (code, vm') ∧ Unmapped withNeighbour vm' 0 0 0 (4 * vmPageSize) := by
  have tree : (mapUnmapRegion (firstFit 16) withNeighbour 0 0 0 (4 * vmPageSize)).map
      (fun result => (result.2.vmproc 0).vmRegionsAvl) = .ok [] := by decide
  refine ⟨tree, ?_⟩
  rintro ⟨code, vm', result, unmapped⟩
  have found := (unmapped.others 1 (by decide) (by decide)).1
  rw [result] at tree
  have empty : (vm'.vmproc 0).vmRegionsAvl = [] := Except.ok.inj tree
  rw [regionFind, empty] at found
  cases found

end Ve482.Vm
