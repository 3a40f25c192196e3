import Ve482.Vm.Regions
import Ve482.Vm.Clean

set_option autoImplicit false

namespace Ve482.Vm

open Function (update)
open Fallible (Ends)

variable {np : Nat} {answers : Answers} {vm vm' : State np} {p : Fin np} {r : Ptr}

/-- Removal is by key. -/
def treeRemove (vm : State np) (tree : List Ptr) (key : Nat) : List Ptr :=
  tree.eraseP fun r => (vm.virRegion r).vaddr = key

def regionRemove (vm : State np) (p : Fin np) (key : Nat) : State np :=
  let proc := vm.vmproc p
  vm.setProc p { proc with vmRegionsAvl := treeRemove vm proc.vmRegionsAvl key }

namespace State

def setPlace (vm : State np) (r : Ptr) (vaddr length : Nat) : State np :=
  { vm with virRegion := update vm.virRegion r { vm.virRegion r with vaddr, length } }

/-- `memmove` of some slots to the start. -/
def moveSlots (vm : State np) (r : Ptr) (first count : Nat) : State np :=
  let region := vm.virRegion r
  { vm with virRegion := update vm.virRegion r { region with
      physblocks := fun i =>
        if i < count then region.physblocks (first + i) else region.physblocks i } }

end State

/-- `for (voffset = offset; voffset < r->length; voffset += VM_PAGE_SIZE)` of `map_unmap_region`,
with `count` pages to come. -/
def shrinkOffsets (r : Ptr) (offset len : Nat) :
    Nat → Nat → State np → Except Stop (State np)
  | 0, _, vm => .ok vm
  | count + 1, voffset, vm => do
      match ← physblockGet (vm.virRegion r) voffset with
      | none => shrinkOffsets r offset len count (voffset + vmPageSize) vm
      | some pr =>
          assert (offset ≤ pr.offset) .mapUnmapRegion
          let pr := { pr with offset := vbSub pr.offset len }
          shrinkOffsets r offset len count (voffset + vmPageSize)
            (vm.setSlot r (voffset / vmPageSize) (some pr))

/-- `if(offset == 0)` of `map_unmap_region`. -/
def unmapStart (vm : State np) (p : Fin np) (r : Ptr) (offset len freeslots : Nat) :
    Except Stop (State np) := do
  let region := vm.virRegion r
  let vm := regionRemove vm p region.vaddr
  let length := vbSub region.length len
  let vm := vm.setPlace r (vbAdd region.vaddr len) length
  let remslots ← physSlot length
  let vm := regionInsert vm p r
  let vm ← shrinkOffsets r offset len ((length - offset + vmPageSize - 1) / vmPageSize) offset vm
  return if remslots ≠ 0 then vm.moveSlots r freeslots remslots else vm

/-- If the unmap is at the start or the end of the region, the region shrinks. -/
def shrinkRegion (vm : State np) (p : Fin np) (r : Ptr) (offset len freeslots : Nat) :
    Except Stop (State np) :=
  let region := vm.virRegion r
  if offset = 0 then unmapStart vm p r offset len freeslots
  else if vbAdd offset len = region.length then do
    assert (len ≤ region.length) .mapUnmapRegion
    return vm.setPlace r region.vaddr (vbSub region.length len)
  else .ok vm

/-- A region without a length is unlinked and freed. -/
def unlinkEmpty (vm : State np) (p : Fin np) (r : Ptr) : Except Stop (State np) :=
  let region := vm.virRegion r
  if region.length = 0 then mapFree (regionRemove vm p region.vaddr) r else .ok vm

def mapUnmapRegion (answers : Answers) (vm : State np) (p : Fin np) (r : Ptr)
    (offset len : Nat) : Except Stop (Code × State np) := do
  let freeslots ← physSlot len
  if (vm.virRegion r).length < vbAdd offset len ∨ len % vmPageSize ≠ 0 then return (.einval, vm)
  else
    let vm ← mapSubfree vm r offset len
    let vm ← shrinkRegion vm p r offset len freeslots
    let vm ← unlinkEmpty vm p r
    return (if answers.ptWritemap vm.calls then .ok else .enomem, vm.called)

theorem clearSlots_congr (same : vm'.virRegion = vm.virRegion) (r : Ptr) (first count : Nat) :
    (vm'.clearSlots r first count).virRegion = (vm.clearSlots r first count).virRegion := by
  unfold State.clearSlots
  rw [same]

theorem clearSlots_succ (vm : State np) (r : Ptr) (first count : Nat) :
    ((vm.setSlot r first none).clearSlots r (first + 1) count).virRegion =
      (vm.clearSlots r first (count + 1)).virRegion := by
  unfold State.clearSlots State.setSlot
  dsimp only
  rw [Function.update_self, Function.update_idem]
  congr 2
  funext i
  by_cases here : i = first
  · subst here
    rw [if_neg (by omega), if_pos (by omega)]
    exact Function.update_self _ _ _
  · dsimp only
    rw [Function.update_of_ne here]
    by_cases inside : first + 1 ≤ i ∧ i < first + 1 + count
    · rw [if_pos inside, if_pos (by omega)]
    · rw [if_neg inside, if_neg (by omega)]

theorem setSlot_self (vm : State np) {r : Ptr} {i : Nat} {slot : Option PhysRegion}
    (same : (vm.virRegion r).physblocks i = slot) : vm.setSlot r i slot = vm := by
  subst same
  simp [State.setSlot]

theorem setSlot_region (vm : State np) (r : Ptr) (i : Nat) (slot : Option PhysRegion) :
    (vm.setSlot r i slot).virRegion r = { vm.virRegion r with
      physblocks := update (vm.virRegion r).physblocks i slot } :=
  Function.update_self _ _ _

theorem pbUnreferenced_ok {i : Nat} {pr : PhysRegion} (sound : (vm.virRegion r).Sound)
    (small : i < (vm.virRegion r).length / vmPageSize)
    (resident : (vm.virRegion r).physblocks i = some pr)
    (counted : 0 < (vm.physBlock pr.ph).refcount) :
    ∃ vm', pbUnreferenced vm r pr = .ok vm' ∧ vm'.vmproc = vm.vmproc ∧
      vm'.virRegion = (vm.setSlot r i none).virRegion ∧ vm'.calls = vm.calls ∧
      ∀ pb, (vm.physBlock pb).refcount ≤ (vm'.physBlock pb).refcount + [pr.ph].count pb := by
  obtain ⟨free, left, -⟩ := pbUnreferenced_slot sound small resident counted
  refine ⟨_, left, rfl, rfl, rfl, fun pb => ?_⟩
  by_cases same : pb = pr.ph
  · subst same
    simp only [State.setSlot, State.setBlock, Function.update_self, List.count_singleton_self]
    omega
  · simp [State.setSlot, State.setBlock, same]

theorem VirRegion.Sound.setSlot (sound : (vm.virRegion r).Sound) (i : Nat) :
    ((vm.setSlot r i none).virRegion r).Sound := by
  simp only [State.setSlot, Function.update_self]
  refine ⟨sound.aligned, fun j pr small resident => ?_⟩
  by_cases same : j = i
  · subst same
    simp at resident
  · exact sound.offsets j pr small ((Function.update_of_ne same _ _).symm.trans resident)

/-- The pages of some slots are given back. -/
theorem mapSubfreeLoop_ok {start last : Nat} (count first : Nat)
    (sound : (vm.virRegion r).Sound)
    (inside : first + count ≤ (vm.virRegion r).length / vmPageSize)
    (low : start ≤ first * vmPageSize) (high : (first + count) * vmPageSize ≤ last)
    (counted : ∀ pb, ((vm.virRegion r).refs first count).count pb ≤ (vm.physBlock pb).refcount) :
    ∃ vm', mapSubfreeLoop r start last count (first * vmPageSize) vm = .ok vm' ∧
      vm'.vmproc = vm.vmproc ∧ vm'.virRegion = (vm.clearSlots r first count).virRegion ∧
      vm'.calls = vm.calls := by
  induction count generalizing first vm with
  | zero =>
      refine ⟨vm, rfl, rfl, ?_, rfl⟩
      have none : ∀ i, ¬ (first ≤ i ∧ i < first + 0) := by omega
      simp only [State.clearSlots, none, if_false]
      exact (Function.update_eq_self r vm.virRegion).symm
  | succ count ih =>
      have small : first < (vm.virRegion r).length / vmPageSize := by omega
      have next : first * vmPageSize + vmPageSize = (first + 1) * vmPageSize :=
        (Nat.succ_mul first vmPageSize).symm
      have more : start ≤ (first + 1) * vmPageSize :=
        Nat.le_trans low (Nat.mul_le_mul_right _ (Nat.le_succ first))
      have upto : (first + 1 + count) * vmPageSize ≤ last := by
        rw [Nat.add_assoc, Nat.add_comm 1 count]
        exact high
      rw [mapSubfreeLoop, sound.get small, ok_bind, next]
      cases resident : (vm.virRegion r).physblocks first with
      | none =>
          rw [VirRegion.refs_none count resident] at counted
          obtain ⟨vm', result, procs, regions, calls⟩ :=
            ih (first + 1) sound (by omega) more upto counted
          refine ⟨vm', result, procs, ?_, calls⟩
          rw [regions, ← clearSlots_succ]
          rw [setSlot_self vm resident]
      | some pr =>
          have offset := sound.offsets first pr small resident
          rw [VirRegion.refs_some count resident] at counted
          have positive := counted pr.ph
          rw [List.count_cons_self] at positive
          obtain ⟨vm1, unreferenced, procs1, regions1, calls1, counts⟩ :=
            pbUnreferenced_ok sound small resident (by omega)
          have region : vm1.virRegion r = (vm.setSlot r first none).virRegion r := by rw [regions1]
          have length : (vm1.virRegion r).length = (vm.virRegion r).length := by
            rw [region]
            simp [State.setSlot]
          have refs : (vm1.virRegion r).refs (first + 1) count =
              (vm.virRegion r).refs (first + 1) count := by
            apply VirRegion.refs_congr
            intro i from' _
            rw [region]
            have later : i ≠ first := by omega
            simp [State.setSlot, later]
          have below : pr.offset < last := by
            have size : 0 < vmPageSize := by decide
            have upto' : (first + 1) * vmPageSize ≤ (first + 1 + count) * vmPageSize :=
              Nat.mul_le_mul_right _ (Nat.le_add_right _ _)
            omega
          dsimp only
          rw [assert_true _ (by omega), assert_true _ below, unreferenced, ok_bind]
          have sound1 : (vm1.virRegion r).Sound := region ▸ sound.setSlot first
          have counted1 : ∀ pb, ((vm1.virRegion r).refs (first + 1) count).count pb ≤
              (vm1.physBlock pb).refcount := by
            intro pb
            have before := counted pb
            have after := counts pb
            rw [List.count_cons] at before
            rw [List.count_singleton] at after
            rw [refs]
            omega
          obtain ⟨vm', result, procs, regions, calls⟩ :=
            ih (first + 1) sound1 (by rw [length]; omega) more upto counted1
          refine ⟨vm', result, procs.trans procs1, ?_, calls.trans calls1⟩
          rw [regions, clearSlots_congr regions1, clearSlots_succ]

theorem pages_round (count : Nat) : (count * vmPageSize + vmPageSize - 1) / vmPageSize = count := by
  unfold vmPageSize
  omega

theorem mapSubfree_ok {first count : Nat} (sound : (vm.virRegion r).Sound)
    (inside : first + count ≤ (vm.virRegion r).length / vmPageSize)
    (counted : ∀ pb, (vm.virRegion r).allRefs.count pb ≤ (vm.physBlock pb).refcount) :
    ∃ vm', mapSubfree vm r (first * vmPageSize) (count * vmPageSize) = .ok vm' ∧
      vm'.vmproc = vm.vmproc ∧ vm'.virRegion = (vm.clearSlots r first count).virRegion ∧
      vm'.calls = vm.calls := by
  unfold mapSubfree
  rw [pages_round]
  refine mapSubfreeLoop_ok count first sound inside (Nat.le_refl _) ?_ fun pb => ?_
  · rw [Nat.add_mul]
  · refine Nat.le_trans (List.Sublist.count_le pb ?_) (counted pb)
    obtain ⟨rest, all⟩ := Nat.exists_eq_add_of_le inside
    have split : (vm.virRegion r).allRefs = (vm.virRegion r).refs 0 first ++
        ((vm.virRegion r).refs first count ++ (vm.virRegion r).refs (first + count) rest) := by
      unfold VirRegion.allRefs
      rw [all, Nat.add_assoc, VirRegion.refs_append, Nat.zero_add, VirRegion.refs_append]
    rw [split]
    exact (List.sublist_append_left _ _).trans (List.sublist_append_right _ _)

/-- The offsets of some slots are lowered. -/
def State.lowerSlots (vm : State np) (r : Ptr) (len first count : Nat) : State np :=
  let region := vm.virRegion r
  { vm with virRegion := update vm.virRegion r { region with
      physblocks := fun i =>
        if first ≤ i ∧ i < first + count then
          (region.physblocks i).map fun pr => { pr with offset := vbSub pr.offset len }
        else region.physblocks i } }

theorem lowerSlots_region (vm : State np) (r : Ptr) (len first count : Nat) :
    (vm.lowerSlots r len first count).virRegion r = { vm.virRegion r with
      physblocks := fun i =>
        if first ≤ i ∧ i < first + count then
          ((vm.virRegion r).physblocks i).map fun pr => { pr with offset := vbSub pr.offset len }
        else (vm.virRegion r).physblocks i } :=
  Function.update_self _ _ _

theorem moveSlots_region (vm : State np) (r : Ptr) (first count : Nat) :
    (vm.moveSlots r first count).virRegion r = { vm.virRegion r with
      physblocks := fun i => if i < count then (vm.virRegion r).physblocks (first + i)
        else (vm.virRegion r).physblocks i } :=
  Function.update_self _ _ _

theorem lowerSlots_succ (vm : State np) (r : Ptr) (len first count : Nat) :
    (vm.setSlot r first (((vm.virRegion r).physblocks first).map fun pr =>
        { pr with offset := vbSub pr.offset len })).lowerSlots r len (first + 1) count =
      vm.lowerSlots r len first (count + 1) := by
  unfold State.lowerSlots State.setSlot
  dsimp only
  rw [Function.update_self, Function.update_idem]
  congr 3
  funext i
  by_cases here : i = first
  · subst here
    rw [if_neg (by omega), if_pos (by omega)]
    exact Function.update_self _ _ _
  · dsimp only
    rw [Function.update_of_ne here]
    by_cases inside : first + 1 ≤ i ∧ i < first + 1 + count
    · rw [if_pos inside, if_pos (by omega)]
    · rw [if_neg inside, if_neg (by omega)]

theorem shrinkOffsets_ok {len : Nat} (count first : Nat)
    (inside : first + count ≤ (vm.virRegion r).length / vmPageSize)
    (offsets : ∀ i pr, first ≤ i → i < first + count → (vm.virRegion r).physblocks i = some pr →
      pr.offset = i * vmPageSize) :
    shrinkOffsets r 0 len count (first * vmPageSize) vm =
      .ok (vm.lowerSlots r len first count) := by
  induction count generalizing first vm with
  | zero =>
      have none : ∀ i, ¬ (first ≤ i ∧ i < first + 0) := by omega
      simp only [State.lowerSlots, none, if_false]
      rw [Function.update_eq_self]
      rfl
  | succ count ih =>
      have small : first < (vm.virRegion r).length / vmPageSize := by omega
      have next : first * vmPageSize + vmPageSize = (first + 1) * vmPageSize :=
        (Nat.succ_mul first vmPageSize).symm
      have here := physblockGet_ok small fun pr => offsets first pr (Nat.le_refl _) (by omega)
      rw [shrinkOffsets, here, ok_bind, next, ← lowerSlots_succ]
      have later : ∀ (slot : Option PhysRegion) (i : Nat) (pr : PhysRegion), first + 1 ≤ i →
          i < first + 1 + count →
          ((vm.setSlot r first slot).virRegion r).physblocks i = some pr →
            pr.offset = i * vmPageSize := by
        intro slot i pr low high resident
        have different : i ≠ first := by omega
        rw [setSlot_region] at resident
        dsimp only at resident
        rw [Function.update_of_ne different] at resident
        exact offsets i pr (by omega) (by omega) resident
      have room : ∀ slot : Option PhysRegion,
          first + 1 + count ≤ ((vm.setSlot r first slot).virRegion r).length / vmPageSize := by
        intro slot
        rw [setSlot_region]
        dsimp only
        omega
      cases resident : (vm.virRegion r).physblocks first with
      | none =>
          have rest := ih (first + 1) (room none) (later none)
          rw [setSlot_self vm resident] at rest
          rw [Option.map_none, setSlot_self vm resident]
          exact rest
      | some pr =>
          dsimp only
          rw [assert_true _ (Nat.zero_le _), (offset_slot first).1]
          exact ih (first + 1) (room _) (later _)

/-- The slots that are left when `count` pages from `first` on are unmapped: at the start, an
offset is lowered only before the new end. -/
def VirRegion.unmappedSlot (region : VirRegion np) (first count i : Nat) : Option PhysRegion :=
  if first = 0 then
    if count + i < region.length / vmPageSize - count then
      (region.physblocks (count + i)).map fun pr =>
        { pr with offset := vbSub pr.offset (count * vmPageSize) }
    else region.physblocks (count + i)
  else if first ≤ i ∧ i < first + count then none
  else region.physblocks i

theorem unmapStart_ok {count : Nat} (small : (vm.virRegion r).length < 2 ^ 32)
    (sound : (vm.virRegion r).Sound) (inside : count ≤ (vm.virRegion r).length / vmPageSize) :
    ∃ vm', unmapStart vm p r 0 (count * vmPageSize) count = .ok vm' ∧
      (vm'.virRegion r).length = (vm.virRegion r).length - count * vmPageSize ∧
      ∀ i < (vm.virRegion r).length / vmPageSize - count,
        (vm'.virRegion r).physblocks i = (vm.virRegion r).unmappedSlot 0 count i := by
  have aligned := sound.aligned
  have short : count * vmPageSize ≤ (vm.virRegion r).length := by
    unfold vmPageSize at inside ⊢
    omega
  have rest : ((vm.virRegion r).length - count * vmPageSize) % vmPageSize = 0 ∧
      ((vm.virRegion r).length - count * vmPageSize) / vmPageSize =
        (vm.virRegion r).length / vmPageSize - count := by
    unfold vmPageSize at inside aligned short ⊢
    omega
  have pages : ((vm.virRegion r).length - count * vmPageSize - 0 + vmPageSize - 1) / vmPageSize =
      (vm.virRegion r).length / vmPageSize - count := by
    unfold vmPageSize at inside aligned short ⊢
    omega
  unfold unmapStart
  dsimp only
  rw [vbSub_eq short small, physSlot_ok rest.1, ok_bind, pages, rest.2]
  generalize vbAdd (vm.virRegion r).vaddr (count * vmPageSize) = vaddr
  have own : (regionInsert ((regionRemove vm p (vm.virRegion r).vaddr).setPlace r vaddr
      ((vm.virRegion r).length - count * vmPageSize)) p r).virRegion r =
      { vm.virRegion r with vaddr, length := (vm.virRegion r).length - count * vmPageSize } :=
    Function.update_self _ _ _
  generalize regionInsert ((regionRemove vm p (vm.virRegion r).vaddr).setPlace r vaddr
    ((vm.virRegion r).length - count * vmPageSize)) p r = vm1 at own ⊢
  have lowered : shrinkOffsets r 0 (count * vmPageSize)
      ((vm.virRegion r).length / vmPageSize - count) 0 vm1 = .ok (vm1.lowerSlots r
        (count * vmPageSize) 0 ((vm.virRegion r).length / vmPageSize - count)) := by
    rw [← Nat.zero_mul vmPageSize]
    apply shrinkOffsets_ok
    · rw [own, Nat.zero_add, rest.2]
    · intro i pr _ high resident
      rw [own] at resident
      exact sound.offsets i pr (by omega) resident
  rw [lowered, ok_bind]
  have region : (vm1.lowerSlots r (count * vmPageSize) 0
      ((vm.virRegion r).length / vmPageSize - count)).virRegion r = { vm.virRegion r with
        vaddr
        length := (vm.virRegion r).length - count * vmPageSize
        physblocks := fun i =>
          if 0 ≤ i ∧ i < 0 + ((vm.virRegion r).length / vmPageSize - count) then
            ((vm.virRegion r).physblocks i).map fun pr =>
              { pr with offset := vbSub pr.offset (count * vmPageSize) }
          else (vm.virRegion r).physblocks i } := by
    rw [lowerSlots_region, own]
  generalize vm1.lowerSlots r (count * vmPageSize) 0
    ((vm.virRegion r).length / vmPageSize - count) = vm2 at region ⊢
  by_cases some : (vm.virRegion r).length / vmPageSize - count ≠ 0
  · refine ⟨_, congrArg Except.ok (if_pos some), ?_, fun i low => ?_⟩
    · rw [moveSlots_region, region]
    · rw [moveSlots_region, region]
      dsimp only
      rw [if_pos low, VirRegion.unmappedSlot, if_pos rfl, Nat.zero_add]
      by_cases before : count + i < (vm.virRegion r).length / vmPageSize - count
      · rw [if_pos before, if_pos ⟨Nat.zero_le _, before⟩]
      · rw [if_neg before, if_neg fun both => before both.2]
  · refine ⟨_, congrArg Except.ok (if_neg some), ?_, fun i low => absurd low (by omega)⟩
    rw [region]

theorem clearSlots_region (vm : State np) (r : Ptr) (first count : Nat) :
    (vm.clearSlots r first count).virRegion r = { vm.virRegion r with
      physblocks := fun i => if first ≤ i ∧ i < first + count then none
        else (vm.virRegion r).physblocks i } :=
  Function.update_self _ _ _

theorem setPlace_region (vm : State np) (r : Ptr) (vaddr length : Nat) :
    (vm.setPlace r vaddr length).virRegion r = { vm.virRegion r with vaddr, length } :=
  Function.update_self _ _ _

theorem unlinkEmpty_ok (vm : State np) (p : Fin np) (r : Ptr) :
    ∃ vm', unlinkEmpty vm p r = .ok vm' ∧ (0 < (vm'.virRegion r).length → vm' = vm) := by
  unfold unlinkEmpty
  dsimp only
  by_cases empty : (vm.virRegion r).length = 0
  · have length : ((regionRemove vm p (vm.virRegion r).vaddr).virRegion r).length = 0 := empty
    have none : (0 + vmPageSize - 1) / vmPageSize = 0 := by decide
    rw [if_pos empty]
    unfold mapFree mapSubfree
    rw [length, none]
    refine ⟨_, rfl, fun some => ?_⟩
    dsimp only at some
    rw [Function.update_self] at some
    exact absurd empty (Nat.ne_of_gt some)
  · rw [if_neg empty]
    exact ⟨vm, rfl, fun _ => rfl⟩

theorem unmappedSlot_cleared (region : VirRegion np) (first count i : Nat) :
    ({ region with physblocks := fun i =>
        if first ≤ i ∧ i < first + count then none else region.physblocks i } :
          VirRegion np).unmappedSlot first count i = region.unmappedSlot first count i := by
  unfold VirRegion.unmappedSlot
  dsimp only
  by_cases start : first = 0
  · have outside : ¬ (first ≤ count + i ∧ count + i < first + count) := by omega
    rw [if_pos start, if_pos start, if_neg outside]
  · rw [if_neg start, if_neg start]
    split
    · rfl
    · rfl

theorem shrinkRegion_ok {first count : Nat} (small : (vm.virRegion r).length < 2 ^ 32)
    (sound : (vm.virRegion r).Sound)
    (inside : first + count ≤ (vm.virRegion r).length / vmPageSize)
    (cleared : ∀ i, first ≤ i → i < first + count → (vm.virRegion r).physblocks i = none) :
    ∃ vm', shrinkRegion vm p r (first * vmPageSize) (count * vmPageSize) count = .ok vm' ∧
      ∀ i < (vm'.virRegion r).length / vmPageSize,
        (vm'.virRegion r).physblocks i = (vm.virRegion r).unmappedSlot first count i := by
  have fits : (first + count) * vmPageSize ≤ (vm.virRegion r).length := by
    unfold vmPageSize at inside ⊢
    omega
  rw [Nat.add_mul] at fits
  have size : 0 < vmPageSize := by decide
  unfold shrinkRegion
  dsimp only
  by_cases start : first = 0
  · subst start
    have few : count ≤ (vm.virRegion r).length / vmPageSize := by omega
    obtain ⟨vm', result, length, slots⟩ := unmapStart_ok (p := p) small sound few
    simp only [Nat.zero_mul, if_true]
    refine ⟨vm', result, fun i below => slots i ?_⟩
    rw [length] at below
    unfold vmPageSize at below ⊢
    omega
  · have some : first * vmPageSize ≠ 0 := Nat.mul_ne_zero start (Nat.ne_of_gt size)
    have same : ∀ i, (vm.virRegion r).physblocks i = (vm.virRegion r).unmappedSlot first count i := by
      intro i
      unfold VirRegion.unmappedSlot
      rw [if_neg start]
      split
      · next range => exact cleared i range.1 range.2
      · rfl
    rw [if_neg some, vbAdd_eq (by omega)]
    by_cases whole : first * vmPageSize + count * vmPageSize = (vm.virRegion r).length
    · rw [if_pos whole, assert_true _ (by omega)]
      refine ⟨_, rfl, fun i _ => ?_⟩
      rw [setPlace_region]
      exact same i
    · rw [if_neg whole]
      exact ⟨vm, rfl, fun i _ => same i⟩

/-- No assertion fails, and the slots that are left are known. -/
theorem mapUnmapRegion_ok {first count : Nat} (small : (vm.virRegion r).length < 2 ^ 32)
    (sound : (vm.virRegion r).Sound)
    (counted : ∀ pb, (vm.virRegion r).allRefs.count pb ≤ (vm.physBlock pb).refcount)
    (inside : first + count ≤ (vm.virRegion r).length / vmPageSize) :
    ∃ code vm', mapUnmapRegion answers vm p r (first * vmPageSize) (count * vmPageSize) =
        .ok (code, vm') ∧
      (0 < (vm'.virRegion r).length → ∀ i < (vm'.virRegion r).length / vmPageSize,
        (vm'.virRegion r).physblocks i = (vm.virRegion r).unmappedSlot first count i) := by
  have fits : (first + count) * vmPageSize ≤ (vm.virRegion r).length := by
    unfold vmPageSize at inside ⊢
    omega
  rw [Nat.add_mul] at fits
  obtain ⟨aligned, slots⟩ := offset_slot count
  obtain ⟨vm1, freed, procs, regions, calls⟩ := mapSubfree_ok sound inside counted
  have region : vm1.virRegion r = { vm.virRegion r with
      physblocks := fun i => if first ≤ i ∧ i < first + count then none
        else (vm.virRegion r).physblocks i } := by
    rw [regions, clearSlots_region]
  have sound1 : (vm1.virRegion r).Sound := by
    rw [region]
    refine ⟨sound.aligned, fun i pr below resident => sound.offsets i pr below ?_⟩
    dsimp only at resident
    split at resident
    · cases resident
    · exact resident
  have cleared : ∀ i, first ≤ i → i < first + count → (vm1.virRegion r).physblocks i = none := by
    intro i low high
    rw [region]
    exact if_pos ⟨low, high⟩
  have length : (vm1.virRegion r).length = (vm.virRegion r).length := by rw [region]
  rw [← length] at small inside
  obtain ⟨vm2, shrunk, left⟩ := shrinkRegion_ok (p := p) small sound1 inside cleared
  obtain ⟨vm3, unlinked, kept⟩ := unlinkEmpty_ok vm2 p r
  unfold mapUnmapRegion
  rw [physSlot_ok slots, ok_bind, aligned, vbAdd_eq (by omega),
    if_neg (by simpa [slots] using fits), freed, ok_bind, shrunk, ok_bind, unlinked]
  refine ⟨_, vm3.called, rfl, fun some i below => ?_⟩
  have same : vm3 = vm2 := kept some
  subst same
  rw [← unmappedSlot_cleared, ← region]
  exact left i below

/-- Only slots of one region have changed. -/
structure Reslotted (r : Ptr) (vm vm' : State np) : Prop where
  vmproc : vm'.vmproc = vm.vmproc
  others : ∀ other, other ≠ r → vm'.virRegion other = vm.virRegion other
  own : ∃ physblocks, vm'.virRegion r = { vm.virRegion r with physblocks }

theorem Reslotted.refl (vm : State np) : Reslotted r vm vm :=
  ⟨rfl, fun _ _ => rfl, _, rfl⟩

theorem Reslotted.trans {first second third : State np} (left : Reslotted r first second)
    (right : Reslotted r second third) : Reslotted r first third := by
  obtain ⟨slots, own⟩ := left.own
  obtain ⟨slots', own'⟩ := right.own
  refine ⟨right.vmproc.trans left.vmproc, fun other different => ?_, slots', ?_⟩
  · rw [right.others other different, left.others other different]
  · rw [own', own]

theorem reslotted_setSlot (vm : State np) (i : Nat) (slot : Option PhysRegion) :
    Reslotted r vm (vm.setSlot r i slot) :=
  ⟨rfl, fun _ different => Function.update_of_ne different _ _, _, setSlot_region vm r i slot⟩

theorem physblockSet_reslotted (vm : State np) (offset : Nat) (pr : Option PhysRegion) :
    Ends (fun _ => True) (Reslotted r vm) (physblockSet vm r offset pr) := by
  refine (physblockSet_slot vm r offset pr).imp fun vm' set => ?_
  rw [set]
  exact reslotted_setSlot vm _ _

theorem pbUnreferenced_reslotted (vm : State np) (pr : PhysRegion) :
    Ends (fun _ => True) (Reslotted r vm) (pbUnreferenced vm r pr) := by
  unfold pbUnreferenced
  refine assert_ends (fun _ => trivial) fun _ => ?_
  refine (physblockSet_reslotted _ _ _).imp fun vm' slotted => Reslotted.trans ?_ slotted
  split
  · exact ⟨rfl, fun _ _ => rfl, _, rfl⟩
  · exact ⟨rfl, fun _ _ => rfl, _, rfl⟩

theorem mapSubfreeLoop_reslotted (start last count voffset : Nat) (vm : State np) :
    Ends (fun _ => True) (Reslotted r vm) (mapSubfreeLoop r start last count voffset vm) := by
  induction count generalizing voffset vm with
  | zero => exact .refl vm
  | succ count ih =>
      rw [mapSubfreeLoop]
      refine (physblockGet_ends _ _).bind fun found _ => ?_
      cases found with
      | none => exact ih _ vm
      | some pr =>
          refine assert_ends (fun _ => trivial) fun _ => assert_ends (fun _ => trivial) fun _ => ?_
          exact (pbUnreferenced_reslotted vm pr).bind fun vm1 slotted =>
            (ih _ vm1).imp fun _ later => slotted.trans later

theorem shrinkOffsets_reslotted (offset len count voffset : Nat) (vm : State np) :
    Ends (fun _ => True) (Reslotted r vm) (shrinkOffsets r offset len count voffset vm) := by
  induction count generalizing voffset vm with
  | zero => exact .refl vm
  | succ count ih =>
      rw [shrinkOffsets]
      refine (physblockGet_ends _ _).bind fun found _ => ?_
      cases found with
      | none => exact ih _ vm
      | some pr =>
          refine assert_ends (fun _ => trivial) fun _ => (ih _ _).imp fun _ later => ?_
          exact (reslotted_setSlot vm _ _).trans later

theorem mapFree_reslotted (vm : State np) :
    Ends (fun _ => True) (fun vm' => Reslotted r vm vm' ∧ ∀ i, (vm'.virRegion r).physblocks i = none)
      (mapFree vm r) := by
  unfold mapFree mapSubfree
  refine (mapSubfreeLoop_reslotted _ _ _ _ vm).bind fun vm1 slotted => ?_
  refine ⟨slotted.trans ⟨rfl, fun _ different => Function.update_of_ne different _ _, _,
    Function.update_self _ _ _⟩, fun i => ?_⟩
  show (update vm1.virRegion r _ r).physblocks i = none
  rw [Function.update_self]

theorem treeInsert_congr (same : ∀ other, (vm'.virRegion other).vaddr = (vm.virRegion other).vaddr)
    (tree : List Ptr) (r : Ptr) : treeInsert vm' tree r = treeInsert vm tree r := by
  unfold treeInsert
  simp only [same]

theorem treeRemove_congr (same : ∀ other, (vm'.virRegion other).vaddr = (vm.virRegion other).vaddr)
    (tree : List Ptr) (key : Nat) : treeRemove vm' tree key = treeRemove vm tree key := by
  unfold treeRemove
  simp only [same]

theorem regionInsert_tree (vm : State np) (p : Fin np) (r : Ptr) :
    ((regionInsert vm p r).vmproc p).vmRegionsAvl = treeInsert vm (vm.vmproc p).vmRegionsAvl r :=
  congrArg Vmproc.vmRegionsAvl (Function.update_self p _ vm.vmproc)

theorem regionRemove_tree (vm : State np) (p : Fin np) (key : Nat) :
    ((regionRemove vm p key).vmproc p).vmRegionsAvl =
      treeRemove vm (vm.vmproc p).vmRegionsAvl key :=
  congrArg Vmproc.vmRegionsAvl (Function.update_self p _ vm.vmproc)

theorem Reslotted.vaddr (slotted : Reslotted r vm vm') (other : Ptr) :
    (vm'.virRegion other).vaddr = (vm.virRegion other).vaddr := by
  by_cases same : other = r
  · subst same
    obtain ⟨slots, own⟩ := slotted.own
    rw [own]
  · rw [slotted.others other same]

theorem Reslotted.length (slotted : Reslotted r vm vm') :
    (vm'.virRegion r).length = (vm.virRegion r).length := by
  obtain ⟨slots, own⟩ := slotted.own
  rw [own]

/-- Where the regions of the process are when `len` bytes from `offset` on are unmapped. -/
structure Moved (vm vm' : State np) (p : Fin np) (r : Ptr) (offset len : Nat) : Prop where
  others : ∀ other, other ≠ r → vm'.virRegion other = vm.virRegion other
  vaddr : (vm'.virRegion r).vaddr =
    if offset = 0 then vbAdd (vm.virRegion r).vaddr len else (vm.virRegion r).vaddr
  length : (vm'.virRegion r).length =
    if offset = 0 ∨ offset + len = (vm.virRegion r).length then (vm.virRegion r).length - len
    else (vm.virRegion r).length
  tree : (vm'.vmproc p).vmRegionsAvl =
    if offset = 0 then
      let tree := treeInsert vm' (treeRemove vm (vm.vmproc p).vmRegionsAvl (vm.virRegion r).vaddr) r
      if len = (vm.virRegion r).length then treeRemove vm' tree (vm'.virRegion r).vaddr else tree
    else (vm.vmproc p).vmRegionsAvl
  freed : (vm'.virRegion r).length = 0 → ∀ i, (vm'.virRegion r).physblocks i = none

theorem unmapStart_moved {len : Nat} (small : (vm.virRegion r).length < 2 ^ 32)
    (fits : len ≤ (vm.virRegion r).length) (freeslots : Nat) :
    Ends (fun _ => True) (fun vm' =>
        (∀ other, other ≠ r → vm'.virRegion other = vm.virRegion other) ∧
        (vm'.virRegion r).vaddr = vbAdd (vm.virRegion r).vaddr len ∧
        (vm'.virRegion r).length = (vm.virRegion r).length - len ∧
        (vm'.vmproc p).vmRegionsAvl = treeInsert vm'
          (treeRemove vm (vm.vmproc p).vmRegionsAvl (vm.virRegion r).vaddr) r)
      (unmapStart vm p r 0 len freeslots) := by
  unfold unmapStart
  dsimp only
  rw [vbSub_eq fits small]
  have slots : Ends (fun _ => True) (fun _ => True)
      (physSlot ((vm.virRegion r).length - len)) := by
    unfold physSlot
    exact assert_ends (fun _ => trivial) fun _ => trivial
  refine slots.bind fun remslots _ => ?_
  have others : ∀ other, other ≠ r → (regionInsert ((regionRemove vm p
      (vm.virRegion r).vaddr).setPlace r (vbAdd (vm.virRegion r).vaddr len)
      ((vm.virRegion r).length - len)) p r).virRegion other = vm.virRegion other :=
    fun other different => Function.update_of_ne different _ _
  have own : (regionInsert ((regionRemove vm p (vm.virRegion r).vaddr).setPlace r
      (vbAdd (vm.virRegion r).vaddr len) ((vm.virRegion r).length - len)) p r).virRegion r =
      { vm.virRegion r with
        vaddr := vbAdd (vm.virRegion r).vaddr len, length := (vm.virRegion r).length - len } :=
    Function.update_self _ _ _
  have tree : ((regionInsert ((regionRemove vm p (vm.virRegion r).vaddr).setPlace r
      (vbAdd (vm.virRegion r).vaddr len) ((vm.virRegion r).length - len)) p r).vmproc
      p).vmRegionsAvl = treeInsert (regionInsert ((regionRemove vm p
        (vm.virRegion r).vaddr).setPlace r (vbAdd (vm.virRegion r).vaddr len)
        ((vm.virRegion r).length - len)) p r)
        (treeRemove vm (vm.vmproc p).vmRegionsAvl (vm.virRegion r).vaddr) r := by
    rw [regionInsert_tree]
    show treeInsert _ ((regionRemove vm p (vm.virRegion r).vaddr).vmproc p).vmRegionsAvl r = _
    rw [regionRemove_tree]
    rfl
  generalize regionInsert ((regionRemove vm p (vm.virRegion r).vaddr).setPlace r
    (vbAdd (vm.virRegion r).vaddr len) ((vm.virRegion r).length - len)) p r = vm1 at *
  refine (shrinkOffsets_reslotted _ _ _ _ vm1).bind fun vm2 slotted => ?_
  have moved : Reslotted r vm1 (if remslots ≠ 0 then vm2.moveSlots r freeslots remslots else vm2) := by
    split
    · exact slotted.trans ⟨rfl, fun _ different => Function.update_of_ne different _ _, _,
        moveSlots_region vm2 r freeslots remslots⟩
    · exact slotted
  refine ⟨fun other different => (moved.others other different).trans (others other different),
    ?_, ?_, ?_⟩
  · rw [moved.vaddr, own]
  · rw [moved.length, own]
  · rw [moved.vmproc, tree]
    exact (treeInsert_congr moved.vaddr _ _).symm

/-- Where the regions are before an empty one is unlinked. -/
structure Shrunk (vm vm' : State np) (p : Fin np) (r : Ptr) (offset len : Nat) : Prop where
  others : ∀ other, other ≠ r → vm'.virRegion other = vm.virRegion other
  vaddr : (vm'.virRegion r).vaddr =
    if offset = 0 then vbAdd (vm.virRegion r).vaddr len else (vm.virRegion r).vaddr
  length : (vm'.virRegion r).length =
    if offset = 0 ∨ offset + len = (vm.virRegion r).length then (vm.virRegion r).length - len
    else (vm.virRegion r).length
  tree : (vm'.vmproc p).vmRegionsAvl =
    if offset = 0 then treeInsert vm'
      (treeRemove vm (vm.vmproc p).vmRegionsAvl (vm.virRegion r).vaddr) r
    else (vm.vmproc p).vmRegionsAvl

theorem shrinkRegion_shrunk {offset len : Nat} (small : (vm.virRegion r).length < 2 ^ 32)
    (fits : offset + len ≤ (vm.virRegion r).length) (freeslots : Nat) :
    Ends (fun _ => True) (fun vm' => Shrunk vm vm' p r offset len)
      (shrinkRegion vm p r offset len freeslots) := by
  unfold shrinkRegion
  dsimp only
  by_cases start : offset = 0
  · subst start
    rw [if_pos rfl]
    refine (unmapStart_moved small (by omega) freeslots).imp fun vm' moved => ?_
    obtain ⟨others, vaddr, length, tree⟩ := moved
    exact ⟨others, by rw [if_pos rfl, vaddr], by rw [if_pos (Or.inl rfl), length],
      by rw [if_pos rfl, tree]⟩
  · rw [if_neg start, vbAdd_eq (by omega)]
    by_cases whole : offset + len = (vm.virRegion r).length
    · rw [if_pos whole, vbSub_eq (by omega) small]
      refine assert_ends (fun _ => trivial) fun _ => ?_
      refine ⟨fun _ different => Function.update_of_ne different _ _, ?_, ?_, (if_neg start).symm⟩
      · rw [if_neg start, setPlace_region]
      · rw [if_pos (Or.inr whole), setPlace_region]
    · rw [if_neg whole]
      refine ⟨fun _ _ => rfl, (if_neg start).symm, (if_neg ?_).symm, (if_neg start).symm⟩
      exact fun either => either.elim start whole

theorem unlinkEmpty_unlinked (vm : State np) (p : Fin np) (r : Ptr) :
    Ends (fun _ => True) (fun vm' => (∀ other, other ≠ r → vm'.virRegion other = vm.virRegion other) ∧
        (vm'.virRegion r).vaddr = (vm.virRegion r).vaddr ∧
        (vm'.virRegion r).length = (vm.virRegion r).length ∧
        (vm'.vmproc p).vmRegionsAvl = (if (vm.virRegion r).length = 0 then
          treeRemove vm (vm.vmproc p).vmRegionsAvl (vm.virRegion r).vaddr
          else (vm.vmproc p).vmRegionsAvl) ∧
        ((vm'.virRegion r).length = 0 → ∀ i, (vm'.virRegion r).physblocks i = none))
      (unlinkEmpty vm p r) := by
  unfold unlinkEmpty
  dsimp only
  by_cases empty : (vm.virRegion r).length = 0
  · rw [if_pos empty, if_pos empty]
    refine (mapFree_reslotted _).imp fun vm' freed => ?_
    obtain ⟨slotted, none⟩ := freed
    refine ⟨slotted.others, slotted.vaddr r, slotted.length, ?_, fun _ => none⟩
    rw [slotted.vmproc]
    exact regionRemove_tree vm p _
  · rw [if_neg empty, if_neg empty]
    exact ⟨fun _ _ => rfl, rfl, rfl, rfl, fun length => absurd length empty⟩

theorem mapUnmapRegion_moved {offset len : Nat} (small : (vm.virRegion r).length < 2 ^ 32)
    (aligned : len % vmPageSize = 0) (fits : offset + len ≤ (vm.virRegion r).length)
    (positive : 0 < len) :
    Ends (fun _ => True) (fun result => Moved vm result.2 p r offset len)
      (mapUnmapRegion answers vm p r offset len) := by
  unfold mapUnmapRegion
  rw [physSlot_ok aligned, ok_bind, vbAdd_eq (by omega), if_neg (by simpa [aligned] using fits)]
  refine (mapSubfreeLoop_reslotted _ _ _ _ vm).bind fun vm1 slotted => ?_
  rw [← slotted.length] at small fits
  refine (shrinkRegion_shrunk small fits _).bind fun vm2 shrunk => ?_
  refine (unlinkEmpty_unlinked vm2 p r).bind fun vm' unlinked => ?_
  obtain ⟨others, vaddr, length, tree, freed⟩ := unlinked
  rw [slotted.length] at fits
  show Moved vm vm'.called p r offset len
  refine ⟨fun other different => ?_, ?_, ?_, ?_, freed⟩
  · exact (others other different).trans ((shrunk.others other different).trans
      (slotted.others other different))
  · show (vm'.virRegion r).vaddr = _
    rw [vaddr, shrunk.vaddr, slotted.vaddr]
  · show (vm'.virRegion r).length = _
    rw [length, shrunk.length, slotted.length]
  · have keys : ∀ other, (vm'.called.virRegion other).vaddr = (vm2.virRegion other).vaddr := by
      intro other
      by_cases same : other = r
      · rw [same]
        exact vaddr
      · exact congrArg VirRegion.vaddr (others other same)
    have length2 := shrunk.length
    rw [slotted.length] at length2
    show (vm'.vmproc p).vmRegionsAvl = _
    rw [tree, shrunk.tree, slotted.vmproc, slotted.vaddr, treeRemove_congr slotted.vaddr]
    by_cases start : offset = 0
    · rw [if_pos start, if_pos start, treeInsert_congr keys, keys r]
      rw [if_pos (Or.inl start)] at length2
      by_cases whole : len = (vm.virRegion r).length
      · rw [if_pos (by omega), if_pos whole, treeRemove_congr keys]
      · rw [if_neg (by omega), if_neg whole]
    · rw [if_neg start, if_neg start]
      apply if_neg
      by_cases whole : offset + len = (vm.virRegion r).length
      · rw [if_pos (Or.inr whole)] at length2
        omega
      · rw [if_neg fun either => either.elim start whole] at length2
        omega

end Ve482.Vm
