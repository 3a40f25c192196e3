import Ve482.Vm.UnmapTree

set_option autoImplicit false

namespace Ve482.Vm

open Fallible (Ends)

variable {np : Nat} {answers : Answers} {vm vm' : State np} {p : Fin np} {r : Ptr}

/-- A page that is found is one of the region's. -/
theorem mapLookup_finds (vm : State np) (p : Fin np) (a : Nat) :
    Ends (fun _ => True) (fun found => ∀ r pr, found = some (r, some pr) →
        ∃ i, r ∈ (vm.vmproc p).vmRegionsAvl ∧ a = (vm.virRegion r).vaddr + i * vmPageSize ∧
          i * vmPageSize < (vm.virRegion r).length ∧ (vm.virRegion r).physblocks i = some pr)
      (mapLookup vm p a) := by
  unfold mapLookup
  cases searched : regionSearch vm p a with
  | none =>
      intro r pr found
      cases found
  | some other =>
      have member : other ∈ (vm.vmproc p).vmRegionsAvl :=
        (List.mem_filter.mp (List.mem_of_getLast? searched)).1
      dsimp only
      split
      · next range =>
          refine (physblockGet_slot _ _).bind fun found slot => ?_
          obtain ⟨aligned, -, same, -⟩ := slot
          cases found with
          | none =>
              intro r pr unfound
              cases unfound
          | some physr =>
              refine assert_ends (fun _ => trivial) fun _ r pr result => ?_
              obtain ⟨rfl, rfl⟩ : other = r ∧ physr = pr := by simpa using result
              refine ⟨_, member, ?_, ?_, same.symm⟩
              · unfold vmPageSize at aligned ⊢
                omega
              · unfold vmPageSize at aligned ⊢
                omega
      · intro r pr found
        cases found

/-- A region of a process is found at each of its pages. -/
theorem Spread.lookup (spread : Spread vm (vm.vmproc p).vmRegionsAvl)
    (member : r ∈ (vm.vmproc p).vmRegionsAvl) (sound : (vm.virRegion r).Sound) {i : Nat}
    (small : i < (vm.virRegion r).length / vmPageSize) :
    mapLookup vm p ((vm.virRegion r).vaddr + i * vmPageSize) =
      .ok (some (r, (vm.virRegion r).physblocks i)) := by
  have low := slot_lt small
  have searched : regionSearch vm p ((vm.virRegion r).vaddr + i * vmPageSize) = some r := by
    obtain ⟨before, rest, split⟩ := List.append_of_mem member
    rw [split] at spread
    obtain ⟨-, -, -, -, above⟩ := spread_split.mp spread
    have later : rest.filter (fun other => (vm.virRegion other).vaddr ≤
        (vm.virRegion r).vaddr + i * vmPageSize) = [] := by
      apply List.filter_eq_nil_iff.mpr
      intro other inRest
      have starts := above other inRest
      simp only [decide_eq_true_eq]
      omega
    unfold regionSearch
    rw [split, List.filter_append, List.filter_cons_of_pos (by simp), later]
    simp
  unfold mapLookup
  rw [searched]
  dsimp only
  rw [if_pos ⟨Nat.le_add_right _ _, by omega⟩, Nat.add_sub_cancel_left, sound.get small, ok_bind]
  cases resident : (vm.virRegion r).physblocks i with
  | none => rfl
  | some pr => exact assert_true _ (sound.offsets i pr small resident)

/-- The pages of the region from `first` to `last` are gone, and the others are found as before. -/
structure PagesKept (vm vm' : State np) (p : Fin np) (r : Ptr) (first last : Nat) : Prop where
  outside : ∀ a pr, mapLookup vm p a = .ok (some (r, some pr)) → a < first ∨ last ≤ a →
    ∃ pr', mapLookup vm' p a = .ok (some (r, some pr')) ∧ pr'.ph = pr.ph
  inside : ∀ a, first ≤ a → a < last → ∀ other pr, mapLookup vm' p a ≠ .ok (some (other, some pr))
  sound : (vm'.virRegion r).Sound

section

variable (spread : Spread vm (vm.vmproc p).vmRegionsAvl)
  (below : ∀ r ∈ (vm.vmproc p).vmRegionsAvl,
    (vm.virRegion r).vaddr + (vm.virRegion r).length < 2 ^ 32)
  (member : r ∈ (vm.vmproc p).vmRegionsAvl) {first count : Nat}
  (less : count < (vm.virRegion r).length / vmPageSize)
  (moved : Moved vm vm' p r (first * vmPageSize) (count * vmPageSize))
  (positive : 0 < count)
  (slots : ∀ i < (vm'.virRegion r).length / vmPageSize,
    (vm'.virRegion r).physblocks i = (vm.virRegion r).unmappedSlot first count i)
  (sound : (vm.virRegion r).Sound) (inside : first + count ≤ (vm.virRegion r).length / vmPageSize)

include spread below member less moved

/-- The new place of the region, in pages. -/
theorem Moved.pages :
    (first = 0 ∧ (vm'.virRegion r).vaddr = (vm.virRegion r).vaddr + count * vmPageSize ∧
      (vm'.virRegion r).length = (vm.virRegion r).length - count * vmPageSize) ∨
    (0 < first ∧ (vm'.virRegion r).vaddr = (vm.virRegion r).vaddr ∧
      ((vm'.virRegion r).length = (vm.virRegion r).length ∨
        first + count = (vm.virRegion r).length / vmPageSize ∧
          (vm'.virRegion r).length = first * vmPageSize)) := by
  have short := below r member
  have whole := (spread.aligned r member).2
  have vaddr := moved.vaddr
  have length := moved.length
  unfold vmPageSize at *
  by_cases start : first = 0
  · rw [if_pos (by omega), vbAdd_eq (by omega)] at vaddr
    rw [if_pos (by omega)] at length
    exact Or.inl ⟨start, vaddr, length⟩
  · rw [if_neg (by omega)] at vaddr
    refine Or.inr ⟨by omega, vaddr, ?_⟩
    by_cases upto : first * 4096 + count * 4096 = (vm.virRegion r).length
    · rw [if_pos (Or.inr upto)] at length
      exact Or.inr ⟨by omega, by omega⟩
    · rw [if_neg (by omega)] at length
      exact Or.inl length

include positive slots

/-- A page outside the range has a slot in the new place. -/
theorem slot_outside
    (resident : 0 < first ∨ ∀ i < (vm.virRegion r).length / vmPageSize,
      ((vm.virRegion r).physblocks i).isSome →
        i * vmPageSize < max (count * vmPageSize) ((vm.virRegion r).length - count * vmPageSize))
    {i : Nat} {pr : PhysRegion} (small : i < (vm.virRegion r).length / vmPageSize)
    (here : (vm.virRegion r).physblocks i = some pr) (outside : i < first ∨ first + count ≤ i) :
    ∃ j pr', j < (vm'.virRegion r).length / vmPageSize ∧
      (vm'.virRegion r).vaddr + j * vmPageSize = (vm.virRegion r).vaddr + i * vmPageSize ∧
      (vm'.virRegion r).physblocks j = some pr' ∧ pr'.ph = pr.ph := by
  have whole := (spread.aligned r member).2
  rcases moved.pages spread below member less with
    ⟨start, vaddr, length⟩ | ⟨start, vaddr, length⟩
  · have bound := (resident.resolve_left (by omega)) i small (by rw [here]; rfl)
    have room : i - count < (vm'.virRegion r).length / vmPageSize := by
      rw [length]
      unfold vmPageSize at *
      omega
    have back : count + (i - count) = i := by omega
    have early : i < (vm.virRegion r).length / vmPageSize - count := by
      unfold vmPageSize at *
      omega
    refine ⟨i - count, { pr with offset := vbSub pr.offset (count * vmPageSize) }, room, ?_, ?_,
      rfl⟩
    · rw [vaddr]
      unfold vmPageSize
      omega
    · rw [slots _ room, VirRegion.unmappedSlot, if_pos start, back, if_pos early, here]
      rfl
  · have room : i < (vm'.virRegion r).length / vmPageSize := by
      unfold vmPageSize at *
      omega
    refine ⟨i, pr, room, by rw [vaddr], ?_, rfl⟩
    rw [slots _ room, VirRegion.unmappedSlot, if_neg (by omega), if_neg (by omega), here]

include sound

theorem slots_sound
    (resident : 0 < first ∨ ∀ i < (vm.virRegion r).length / vmPageSize,
      ((vm.virRegion r).physblocks i).isSome →
        i * vmPageSize < max (count * vmPageSize) ((vm.virRegion r).length - count * vmPageSize))
    (aligned : (vm'.virRegion r).length % vmPageSize = 0) : (vm'.virRegion r).Sound := by
  have short := below r member
  have whole := (spread.aligned r member).2
  refine ⟨aligned, fun i pr small here => ?_⟩
  rw [slots i small, VirRegion.unmappedSlot] at here
  rcases moved.pages spread below member less with
    ⟨start, -, length⟩ | ⟨start, -, length⟩
  · rw [if_pos start] at here
    split at here
    · next early =>
        obtain ⟨pr', resident', rfl⟩ := Option.map_eq_some_iff.mp here
        have offset := sound.offsets (count + i) pr' (by omega) resident'
        show vbSub pr'.offset (count * vmPageSize) = i * vmPageSize
        rw [offset]
        unfold vmPageSize at *
        rw [vbSub_eq (by omega) (by omega)]
        omega
    · next late =>
        have bound := (resident.resolve_left (by omega)) (count + i) (by
          rw [length] at small
          unfold vmPageSize at *
          omega) (by rw [here]; rfl)
        rw [length] at small
        unfold vmPageSize at *
        omega
  · rw [if_neg (by omega)] at here
    split at here
    · cases here
    · apply sound.offsets i pr _ here
      unfold vmPageSize at *
      omega

include inside

theorem pages_kept (tree : (vm'.vmproc p).vmRegionsAvl = (vm.vmproc p).vmRegionsAvl)
    (spread' : Spread vm' (vm'.vmproc p).vmRegionsAvl)
    (resident : 0 < first ∨ ∀ i < (vm.virRegion r).length / vmPageSize,
      ((vm.virRegion r).physblocks i).isSome →
        i * vmPageSize < max (count * vmPageSize) ((vm.virRegion r).length - count * vmPageSize)) :
    PagesKept vm vm' p r ((vm.virRegion r).vaddr + first * vmPageSize)
      ((vm.virRegion r).vaddr + (first + count) * vmPageSize) := by
  have own : r ∈ (vm'.vmproc p).vmRegionsAvl := tree ▸ member
  have sound' := slots_sound spread below member less moved positive slots sound resident
    (spread'.aligned r own).2
  refine ⟨fun a pr found outside => ?_, fun a low high other pr found => ?_, sound'⟩
  · obtain ⟨i, -, rfl, small, here⟩ := (mapLookup_finds vm p a).of_eq found r pr rfl
    have whole := sound.aligned
    obtain ⟨j, pr', room, place, here', same⟩ := slot_outside spread below member less moved
      positive slots resident (i := i) (by unfold vmPageSize at *; omega) here
      (by unfold vmPageSize at *; omega)
    refine ⟨pr', ?_, same⟩
    rw [← place, spread'.lookup own sound' room, here']
  · obtain ⟨i, inside', rfl, small, here⟩ := (mapLookup_finds vm' p a).of_eq found other pr rfl
    rw [tree] at inside'
    have whole := sound'.aligned
    by_cases isRegion : other = r
    · subst isRegion
      have room : i < (vm'.virRegion other).length / vmPageSize := by
        unfold vmPageSize at *
        omega
      rw [slots i room, VirRegion.unmappedSlot] at here
      rcases moved.pages spread below member less with
        ⟨start, vaddr, -⟩ | ⟨start, vaddr, -⟩
      · rw [vaddr] at low high
        unfold vmPageSize at *
        omega
      · rw [if_neg (by omega), if_pos (by unfold vmPageSize at *; omega)] at here
        cases here
    · have apart := spread.disjoint member inside' isRegion
      rw [moved.others other isRegion] at low high small
      unfold vmPageSize at *
      omega

end

/-- A resident page at or after the new end keeps the offset that it had. -/
theorem slot_stale {count i : Nat} {pr : PhysRegion} (sound : (vm.virRegion r).Sound)
    (sound' : (vm'.virRegion r).Sound) (positive : 0 < count)
    (length : (vm'.virRegion r).length = (vm.virRegion r).length - count * vmPageSize)
    (slots : ∀ i < (vm'.virRegion r).length / vmPageSize,
      (vm'.virRegion r).physblocks i = (vm.virRegion r).unmappedSlot 0 count i)
    (small : i < (vm.virRegion r).length / vmPageSize)
    (here : (vm.virRegion r).physblocks i = some pr) :
    i * vmPageSize < max (count * vmPageSize) ((vm.virRegion r).length - count * vmPageSize) := by
  by_contra late
  have whole := sound.aligned
  have room : i - count < (vm'.virRegion r).length / vmPageSize := by
    rw [length]
    unfold vmPageSize at *
    omega
  have back : count + (i - count) = i := by
    unfold vmPageSize at *
    omega
  have after : ¬ i < (vm.virRegion r).length / vmPageSize - count := by
    unfold vmPageSize at *
    omega
  have stale := slots _ room
  rw [VirRegion.unmappedSlot, if_pos rfl, back, if_neg after, here] at stale
  have offset := sound.offsets i pr small here
  have offset' := sound'.offsets _ pr room stale
  unfold vmPageSize at *
  omega

/-- The offsets are lowered only up to the new end, before the slots are moved. -/
theorem pages_kept_iff (spread : Spread vm (vm.vmproc p).vmRegionsAvl)
    (below : ∀ r ∈ (vm.vmproc p).vmRegionsAvl,
      (vm.virRegion r).vaddr + (vm.virRegion r).length < 2 ^ 32)
    (member : r ∈ (vm.vmproc p).vmRegionsAvl) (sound : (vm.virRegion r).Sound)
    (counted : ∀ pb, (vm.virRegion r).allRefs.count pb ≤ (vm.physBlock pb).refcount)
    {offset len : Nat} (positive : 0 < len)
    (pages : offset % vmPageSize = 0 ∧ len % vmPageSize = 0)
    (fits : offset + len ≤ (vm.virRegion r).length) (less : len < (vm.virRegion r).length) :
    ∃ code vm', mapUnmapRegion answers vm p r offset len = .ok (code, vm') ∧
      (PagesKept vm vm' p r ((vm.virRegion r).vaddr + offset)
          ((vm.virRegion r).vaddr + offset + len) ↔
        0 < offset ∨ ∀ i < (vm.virRegion r).length / vmPageSize,
          ((vm.virRegion r).physblocks i).isSome →
            i * vmPageSize < max len ((vm.virRegion r).length - len)) := by
  obtain ⟨first, rfl⟩ : ∃ first, offset = first * vmPageSize :=
    ⟨offset / vmPageSize, (Nat.div_mul_cancel (Nat.dvd_of_mod_eq_zero pages.1)).symm⟩
  obtain ⟨count, rfl⟩ : ∃ count, len = count * vmPageSize :=
    ⟨len / vmPageSize, (Nat.div_mul_cancel (Nat.dvd_of_mod_eq_zero pages.2)).symm⟩
  have size : 0 < vmPageSize := by decide
  have whole := sound.aligned
  have short := below r member
  have some : 0 < count := Nat.pos_of_mul_pos_right positive
  have inside : first + count ≤ (vm.virRegion r).length / vmPageSize := by
    unfold vmPageSize at *
    omega
  have part : count < (vm.virRegion r).length / vmPageSize := by
    unfold vmPageSize at *
    omega
  obtain ⟨code, vm', result, slots⟩ : ∃ code vm', mapUnmapRegion answers vm p r
      (first * vmPageSize) (count * vmPageSize) = .ok (code, vm') ∧ _ :=
    mapUnmapRegion_ok (by omega) sound counted inside
  have moved : Moved vm vm' p r (first * vmPageSize) (count * vmPageSize) :=
    (mapUnmapRegion_moved (by omega) pages.2 fits positive).of_eq result
  obtain ⟨tree, spread'⟩ := moved.part spread below member positive pages fits
    (fun all => Nat.ne_of_lt less all.2)
  have slots := slots (spread'.positive r member)
  refine ⟨code, vm', result, ?_⟩
  rw [Nat.add_assoc, ← Nat.add_mul]
  constructor
  · intro kept
    by_cases start : first = 0
    · subst start
      refine Or.inr fun i small resident => ?_
      obtain ⟨pr, here⟩ := Option.isSome_iff_exists.mp resident
      have length := moved.length
      rw [if_pos (Or.inl (Nat.zero_mul _))] at length
      exact slot_stale sound kept.sound some length slots small here
    · exact Or.inl (Nat.mul_pos (Nat.pos_of_ne_zero start) size)
  · intro resident
    apply pages_kept spread below member part moved some slots sound inside tree (tree ▸ spread')
    exact resident.imp_left fun start => Nat.pos_of_mul_pos_right start

theorem pages_kept_iff_small : ∃ code vm',
    mapUnmapRegion (firstFit 16) smallStart 0 0 0 4096 = .ok (code, vm') ∧
      (PagesKept smallStart vm' 0 0 (8 * vmPageSize) (8 * vmPageSize + 4096) ↔
        0 < 0 ∨ ∀ i < smallRegion.length / vmPageSize, (smallRegion.physblocks i).isSome →
          i * vmPageSize < max 4096 (smallRegion.length - 4096)) :=
  pages_kept_iff smallStart_spread (by decide) (by decide) smallRegion_sound smallStart_counted
    (by decide) ⟨by decide, by decide⟩ (by decide) (by decide)

/-- Two of four pages are unmapped at the start, and the third page is not found any more. -/
theorem third_page_lost :
    mapLookup smallStart 0 (10 * vmPageSize) = .ok (some (0, some ⟨2, 2 * vmPageSize⟩)) ∧
    (mapUnmapRegion (firstFit 16) smallStart 0 0 0 8192).map
      (fun result => mapLookup result.2 0 (10 * vmPageSize)) =
        .ok (.error (.assertion .physblockGet)) ∧
    ¬ ∃ code vm', mapUnmapRegion (firstFit 16) smallStart 0 0 0 8192 = .ok (code, vm') ∧
      PagesKept smallStart vm' 0 0 (8 * vmPageSize) (10 * vmPageSize) := by
  have before : mapLookup smallStart 0 (10 * vmPageSize) =
      .ok (some (0, some ⟨2, 2 * vmPageSize⟩)) := by decide
  have after : (mapUnmapRegion (firstFit 16) smallStart 0 0 0 8192).map
      (fun result => mapLookup result.2 0 (10 * vmPageSize)) =
        .ok (.error (.assertion .physblockGet)) := by decide
  refine ⟨before, after, ?_⟩
  rintro ⟨code, vm', result, kept⟩
  obtain ⟨pr, found, -⟩ := kept.outside _ _ before (Or.inr (Nat.le_refl _))
  rw [result] at after
  exact absurd (found.symm.trans (Except.ok.inj after)) nofun

end Ve482.Vm
