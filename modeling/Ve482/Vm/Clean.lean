import Mathlib.Data.List.FinRange
import Ve482.Vm.Books
import Ve482.Vm.Slots

set_option autoImplicit false

namespace Ve482.Vm

open Function (update)
open Fallible (Ends)

variable {np : Nat} {header : Header np} {answers : Answers} {vm vm' : State np}

def allRegions (vm : State np) : List Ptr :=
  (List.finRange np).flatMap fun p => (vm.vmproc p).vmRegionsAvl

theorem mem_allRegions {p : Fin np} {r : Ptr} (member : r ∈ (vm.vmproc p).vmRegionsAvl) :
    r ∈ allRegions vm :=
  List.mem_flatMap.mpr ⟨p, List.mem_finRange p, member⟩

/-- Every reference of a region is counted, and the pages of the blocks are pages. -/
structure Blocks (vm : State np) : Prop where
  distinct : (allRegions vm).Nodup
  sound : ∀ r ∈ allRegions vm, (vm.virRegion r).Sound
  aligned : ∀ r ∈ allRegions vm, (vm.virRegion r).vaddr % vmPageSize = 0
  counted : ∀ pb, (procRefs vm (allRegions vm)).count pb ≤ (vm.physBlock pb).refcount
  pages : ∀ pb, 0 < (vm.physBlock pb).refcount → (vm.physBlock pb).phys % vmPageSize = 0
  fresh : ∀ pb, vm.newBlock ≤ pb → (vm.physBlock pb).refcount = 0

theorem Blocks.of_regions (blocks : Blocks vm)
    (lists : ∀ p, (vm'.vmproc p).vmRegionsAvl = (vm.vmproc p).vmRegionsAvl)
    (virRegion : ∀ r ∈ allRegions vm, vm'.virRegion r = vm.virRegion r)
    (physBlock : vm'.physBlock = vm.physBlock) (newBlock : vm'.newBlock = vm.newBlock) :
    Blocks vm' := by
  have regions : allRegions vm' = allRegions vm := by
    unfold allRegions
    simp only [lists]
  have refs : procRefs vm' (allRegions vm) = procRefs vm (allRegions vm) := procRefs_congr virRegion
  refine ⟨?_, fun r member => ?_, fun r member => ?_, ?_, ?_, ?_⟩
  · rw [regions]
    exact blocks.distinct
  · rw [regions] at member
    rw [virRegion r member]
    exact blocks.sound r member
  · rw [regions] at member
    rw [virRegion r member]
    exact blocks.aligned r member
  · rw [regions, refs, physBlock]
    exact blocks.counted
  · rw [physBlock]
    exact blocks.pages
  · rw [physBlock, newBlock]
    exact blocks.fresh

theorem Blocks.congr (blocks : Blocks vm)
    (lists : ∀ p, (vm'.vmproc p).vmRegionsAvl = (vm.vmproc p).vmRegionsAvl)
    (virRegion : vm'.virRegion = vm.virRegion) (physBlock : vm'.physBlock = vm.physBlock)
    (newBlock : vm'.newBlock = vm.newBlock) : Blocks vm' :=
  blocks.of_regions lists (fun _ _ => by rw [virRegion]) physBlock newBlock

theorem Blocks.idle (blocks : Blocks vm) (free : Finset Nat) (calls : Nat) :
    Blocks { vm with free, calls } :=
  ⟨blocks.distinct, blocks.sound, blocks.aligned, blocks.counted, blocks.pages, blocks.fresh⟩

theorem Blocks.called (blocks : Blocks vm) : Blocks vm.called := blocks.idle _ _

/-- A slot of a region of some process. -/
structure Slot (vm : State np) (r : Ptr) (i : Nat) : Prop where
  region : r ∈ allRegions vm
  small : i < (vm.virRegion r).length / vmPageSize

theorem Blocks.referenced (blocks : Blocks vm) {r : Ptr} {i : Nat} {pr : PhysRegion}
    (slot : Slot vm r i) (resident : (vm.virRegion r).physblocks i = some pr) :
    0 < (vm.physBlock pr.ph).refcount := by
  have member : pr.ph ∈ procRefs vm (allRegions vm) := by
    refine List.mem_flatMap.mpr ⟨r, slot.region, ?_⟩
    exact VirRegion.mem_refs.mpr ⟨i, pr, Nat.zero_le _, by have := slot.small; omega, resident, rfl⟩
  exact Nat.lt_of_lt_of_le (List.count_pos_iff.mpr member) (blocks.counted pr.ph)

/-- Setting a slot whose page is where it should be. -/
theorem Blocks.setSlot (blocks : Blocks vm) {r : Ptr} {i : Nat}
    (slot : Option PhysRegion) (offset : ∀ pr, slot = some pr → pr.offset = i * vmPageSize)
    (physBlock : Ptr → PhysBlock) (newBlock : Ptr)
    (counted : ∀ pb, (procRefs (vm.setSlot r i slot) (allRegions vm)).count pb ≤
      (physBlock pb).refcount)
    (pages : ∀ pb, 0 < (physBlock pb).refcount → (physBlock pb).phys % vmPageSize = 0)
    (fresh : ∀ pb, newBlock ≤ pb → (physBlock pb).refcount = 0) :
    Blocks { vm.setSlot r i slot with physBlock, newBlock } := by
  have place := setSlot_place vm r i slot
  refine ⟨blocks.distinct, fun other member => ⟨?_, ?_⟩, fun other member => ?_, counted, pages,
    fresh⟩
  · show ((vm.setSlot r i slot).virRegion other).length % vmPageSize = 0
    rw [(place other).2]
    exact (blocks.sound other member).aligned
  · intro j pr small resident
    change j < ((vm.setSlot r i slot).virRegion other).length / vmPageSize at small
    change ((vm.setSlot r i slot).virRegion other).physblocks j = some pr at resident
    rw [(place other).2] at small
    rw [setSlot_slot] at resident
    by_cases isSlot : other = r ∧ j = i
    · rw [if_pos isSlot] at resident
      rw [isSlot.2]
      exact offset pr resident
    · rw [if_neg isSlot] at resident
      exact (blocks.sound other member).offsets j pr small resident
  · show ((vm.setSlot r i slot).virRegion other).vaddr % vmPageSize = 0
    rw [(place other).1]
    exact blocks.aligned other member

namespace State

/-- A slot has given its reference back. -/
def parted (vm : State np) (r : Ptr) (i : Nat) (pb : Ptr) : State np :=
  (vm.setBlock pb { vm.physBlock pb with refcount := (vm.physBlock pb).refcount - 1 }).setSlot r i none

/-- A slot has got a page of its own. -/
def filled (vm : State np) (r : Ptr) (i click : Nat) : State np :=
  { vm.setSlot r i (some ⟨vm.newBlock, i * vmPageSize⟩) with
    physBlock := update vm.physBlock vm.newBlock ⟨click2abs click, 1⟩
    newBlock := vm.newBlock + 1
    free := vm.free.erase click
    calls := vm.calls + 4 }

end State

theorem Blocks.parted (blocks : Blocks vm) {r : Ptr} {i : Nat} {pr : PhysRegion}
    (slot : Slot vm r i)
    (resident : (vm.virRegion r).physblocks i = some pr) : Blocks (vm.parted r i pr.ph) := by
  refine blocks.setSlot none nofun _ _ ?_ ?_ ?_
  · intro pb
    have changed := procRefs_setSlot vm none slot.region blocks.distinct slot.small pb
    have before := blocks.counted pb
    rw [resident] at changed
    by_cases same : pb = pr.ph
    · subst same
      have one : List.count pr.ph (Option.map PhysRegion.ph (some pr)).toList = 1 := by simp
      rw [one] at changed
      show _ ≤ (update vm.physBlock pr.ph _ pr.ph).refcount
      rw [Function.update_self]
      show _ ≤ (vm.physBlock pr.ph).refcount - 1
      simp only [Option.map_none, Option.toList_none, List.count_nil] at changed
      omega
    · show _ ≤ (update vm.physBlock pr.ph _ pb).refcount
      rw [Function.update_of_ne same]
      simp only [Option.map_none, Option.toList_none, List.count_nil] at changed
      omega
  · intro pb positive
    by_cases same : pb = pr.ph
    · subst same
      simp only [State.setBlock, Function.update_self] at positive ⊢
      exact blocks.pages pr.ph (by omega)
    · simp only [State.setBlock, Function.update_of_ne same] at positive ⊢
      exact blocks.pages pb positive
  · intro pb new
    have unused := blocks.fresh pb new
    by_cases same : pb = pr.ph
    · subst same
      simp only [State.setBlock, Function.update_self, unused]
    · simpa only [State.setBlock, Function.update_of_ne same] using unused

theorem click2abs_aligned (click : Nat) : click2abs click % vmPageSize = 0 :=
  Nat.mul_mod_left click vmPageSize

theorem Blocks.filled (blocks : Blocks vm) {r : Ptr} {i : Nat} (slot : Slot vm r i)
    (empty : (vm.virRegion r).physblocks i = none) (click : Nat) : Blocks (vm.filled r i click) := by
  refine Blocks.idle (blocks.setSlot (some ⟨vm.newBlock, i * vmPageSize⟩) ?_
    (update vm.physBlock vm.newBlock ⟨click2abs click, 1⟩) (vm.newBlock + 1) ?_ ?_ ?_)
    (vm.free.erase click) (vm.calls + 4)
  · intro pr same
    rw [← Option.some.inj same]
  · intro pb
    have changed := procRefs_setSlot vm (some ⟨vm.newBlock, i * vmPageSize⟩) slot.region
      blocks.distinct slot.small pb
    have before := blocks.counted pb
    rw [empty] at changed
    by_cases same : pb = vm.newBlock
    · subst same
      rw [blocks.fresh _ (Nat.le_refl _)] at before
      simp at changed
      rw [Function.update_self]
      show _ ≤ 1
      omega
    · rw [Function.update_of_ne same]
      have none : List.count pb (Option.map PhysRegion.ph
          (some ⟨vm.newBlock, i * vmPageSize⟩)).toList = 0 := by
        simp [Ne.symm same]
      rw [none] at changed
      omega
  · intro pb positive
    by_cases same : pb = vm.newBlock
    · subst same
      rw [Function.update_self]
      exact click2abs_aligned click
    · rw [Function.update_of_ne same] at positive ⊢
      exact blocks.pages pb positive
  · intro pb new
    rw [Function.update_of_ne (Nat.ne_of_gt new)]
    exact blocks.fresh pb (Nat.le_of_succ_le new)

/-- A block that nothing refers to. -/
theorem Blocks.unused (blocks : Blocks vm) (phys calls : Nat) :
    Blocks { vm.setBlock vm.newBlock ⟨phys, 0⟩ with newBlock := vm.newBlock + 1, calls } := by
  have same : ∀ pb, (update vm.physBlock vm.newBlock ⟨phys, 0⟩ pb).refcount =
      (vm.physBlock pb).refcount := by
    intro pb
    by_cases isNew : pb = vm.newBlock
    · subst isNew
      rw [Function.update_self, blocks.fresh _ (Nat.le_refl _)]
    · rw [Function.update_of_ne isNew]
  refine ⟨blocks.distinct, blocks.sound, blocks.aligned, fun pb => ?_, fun pb positive => ?_,
    fun pb new => ?_⟩
  · exact (same pb).symm ▸ blocks.counted pb
  · change 0 < (update vm.physBlock vm.newBlock ⟨phys, 0⟩ pb).refcount at positive
    rw [same pb] at positive
    have other : pb ≠ vm.newBlock := by
      rintro rfl
      rw [blocks.fresh _ (Nat.le_refl _)] at positive
      exact Nat.lt_irrefl 0 positive
    show (update vm.physBlock vm.newBlock ⟨phys, 0⟩ pb).phys % vmPageSize = 0
    rw [Function.update_of_ne other]
    exact blocks.pages pb positive
  · exact (same pb).trans (blocks.fresh pb (Nat.le_of_succ_le new))

theorem Blocks.rephys (blocks : Blocks vm) (pb : Ptr) {phaddr : Nat}
    (aligned : phaddr % vmPageSize = 0) :
    Blocks (vm.setBlock pb { vm.physBlock pb with phys := phaddr }) := by
  have counts : ∀ other, ((vm.setBlock pb { vm.physBlock pb with phys := phaddr }).physBlock
      other).refcount = (vm.physBlock other).refcount := by
    intro other
    by_cases same : other = pb
    · subst same
      simp [State.setBlock]
    · simp [State.setBlock, same]
  refine ⟨blocks.distinct, blocks.sound, blocks.aligned, fun other => ?_, fun other positive => ?_,
    fun other new => ?_⟩
  · rw [counts]
    exact blocks.counted other
  · rw [counts] at positive
    by_cases same : other = pb
    · subst same
      simpa [State.setBlock] using aligned
    · simpa [State.setBlock, same] using blocks.pages other positive
  · rw [counts]
    exact blocks.fresh other new

/-- There is memory for a block, a reference to it and its page, and the page table is written. -/
def Granted (answers : Answers) (call : Nat) (free : Finset Nat) : Prop :=
  answers.slaballoc call = true ∧ answers.slaballoc (call + 1) = true ∧
    (answers.allocMem (call + 2) 1 free).isSome = true ∧ answers.ptWritemap (call + 3) = true

instance (answers : Answers) (call : Nat) (free : Finset Nat) :
    Decidable (Granted answers call free) :=
  inferInstanceAs (Decidable (_ ∧ _))

theorem mapPf_ends (header : Header np) (answers : Answers) (blocks : Blocks vm) {r : Ptr} {i : Nat}
    (slot : Slot vm r i) (empty : (vm.virRegion r).physblocks i = none) :
    Ends (fun _ => ¬ (vm.virRegion r).flags.writable) (fun result =>
        (vm.virRegion r).flags.writable ∧
        ((result.1 = true ∧ Granted answers vm.calls vm.free ∧ ∃ click,
          answers.allocMem (vm.calls + 2) 1 vm.free = some click ∧
          result.2 = vm.filled r i click) ∨
        result.1 = false ∧ ¬ Granted answers vm.calls vm.free ∧ Blocks result.2))
      (mapPf header answers vm r (i * vmPageSize)) := by
  have sound := blocks.sound r slot.region
  have aligned := blocks.aligned r slot.region
  unfold mapPf
  rw [(offset_slot i).2, Nat.sub_zero]
  dsimp only
  rw [assert_true _ (slot_lt slot.small), assert_true _ aligned]
  refine assert_ends id fun writable => ?_
  rw [sound.get slot.small, empty, ok_bind]
  dsimp only
  unfold pbNew
  by_cases first : answers.slaballoc vm.calls = true
  · rw [if_pos first]
    dsimp only
    have unused := blocks.unused mapNone (vm.calls + 1)
    by_cases second : answers.slaballoc (vm.calls + 1) = true
    · have linked := @pbReference_ok np answers { vm.setBlock vm.newBlock ⟨mapNone, 0⟩ with
        newBlock := vm.newBlock + 1, calls := vm.calls + 1 } r i ⟨vm.newBlock, i * vmPageSize⟩ second
        slot.small empty rfl
      rw [linked, ok_bind]
      dsimp only
      generalize after : State.setSlot (State.setBlock _ _ _) r i _ = vm2
      have filled : vm2 = { vm.filled r i 0 with
          physBlock := update vm.physBlock vm.newBlock ⟨mapNone, 1⟩
          free := vm.free
          calls := vm.calls + 2 } := by
        rw [← after]
        simp [State.filled, State.setSlot, State.setBlock, State.called]
      have block : vm2.physBlock vm.newBlock = ⟨mapNone, 1⟩ := by
        rw [filled]
        exact Function.update_self _ _ _
      rw [block, header.writable_none, if_neg Bool.false_ne_true]
      unfold evPagefault
      have memory : answers.allocMem vm2.calls 1 vm2.free =
          answers.allocMem (vm.calls + 2) 1 vm.free := by rw [filled]
      rw [memory]
      cases given : answers.allocMem (vm.calls + 2) 1 vm.free with
      | none =>
          have gone : pbUnreferenced vm2.called r ⟨vm.newBlock, i * vmPageSize⟩ =
              .ok { vm.setBlock vm.newBlock ⟨mapNone, 0⟩ with
                newBlock := vm.newBlock + 1, calls := vm.calls + 3 } := by
            have there : (vm2.virRegion r).physblocks i ≠ none := by
              rw [filled]
              simp [State.filled, State.setSlot]
            have inside : i < (vm2.virRegion r).length / vmPageSize := by
              rw [filled]
              simpa [State.filled, State.setSlot] using slot.small
            unfold pbUnreferenced
            dsimp only [State.called]
            rw [block, assert_true _ Nat.one_pos, if_neg (fun both => both.2 rfl)]
            refine (physblockSet_none (by exact inside) (by exact there)).trans ?_
            rw [filled]
            have slots : update (update (vm.virRegion r).physblocks i
                (some ⟨vm.newBlock, i * vmPageSize⟩)) i none = (vm.virRegion r).physblocks := by
              rw [Function.update_idem, ← empty, Function.update_eq_self]
            simp [State.filled, State.setSlot, State.setBlock, slots]
          dsimp only
          rw [gone, ok_bind]
          exact ⟨writable, Or.inr ⟨rfl, fun granted => by simp [Granted, given] at granted,
            unused.idle _ _⟩⟩
      | some click =>
          have written : mapPhWritept answers { vm2.called.setBlock vm.newBlock
              { vm2.physBlock vm.newBlock with phys := click2abs click } with
                free := vm2.free.erase click } r ⟨vm.newBlock, i * vmPageSize⟩ =
              .ok (answers.ptWritemap (vm.calls + 3), vm.filled r i click) := by
            have vaddr : (vm2.virRegion r).vaddr % vmPageSize = 0 := by
              rw [filled]
              simpa [State.filled, State.setSlot] using aligned
            refine (mapPhWritept_ok answers _ (by exact vaddr) (offset_slot i).2 ?_).trans ?_
            · simp [State.setBlock, block]
            · rw [filled]
              simp [State.filled, State.setSlot, State.setBlock, State.called]
          dsimp only
          rw [written]
          cases mapped : answers.ptWritemap (vm.calls + 3) with
          | true =>
              exact ⟨writable, Or.inl ⟨rfl, ⟨first, second, by rw [given]; rfl, mapped⟩, click, rfl, rfl⟩⟩
          | false =>
              refine ⟨writable, Or.inr ⟨rfl, fun granted => ?_, blocks.filled slot empty click⟩⟩
              exact Bool.false_ne_true (mapped.symm.trans granted.2.2.2)
    · unfold pbReference
      rw [if_neg (by exact second), ok_bind]
      exact ⟨writable, Or.inr ⟨rfl, fun granted => second granted.2.1, unused.idle _ _⟩⟩
  · rw [if_neg first]
    exact ⟨writable, Or.inr ⟨rfl, fun granted => first granted.1, blocks.idle _ _⟩⟩

/-- A page of the region may be replaced by a copy. -/
def VirRegion.Clonable (region : VirRegion np) (offset : Nat) : Prop :=
  region.flags.writable ∧ (region.flags.contig → offset = 0 ∧ region.length = vmPageSize)

instance (region : VirRegion np) (offset : Nat) : Decidable (region.Clonable offset) :=
  inferInstanceAs (Decidable (_ ∧ _))

/-- A slot has got a copy of its page. -/
def State.cloned (vm : State np) (r : Ptr) (i : Nat) (pb : Ptr) (click : Nat) : State np :=
  { (vm.parted r i pb).filled r i click with calls := vm.calls + 5 }

theorem parted_region (vm : State np) (r : Ptr) (i : Nat) (pb : Ptr) :
    (vm.parted r i pb).virRegion r = { vm.virRegion r with
      physblocks := update (vm.virRegion r).physblocks i none } :=
  Function.update_self _ _ _

theorem Slot.parted {r : Ptr} {i : Nat} (slot : Slot vm r i) (pb : Ptr) :
    Slot (vm.parted r i pb) r i ∧ ((vm.parted r i pb).virRegion r).physblocks i = none := by
  refine ⟨⟨slot.region, ?_⟩, ?_⟩
  · rw [parted_region]
    exact slot.small
  · rw [parted_region]
    exact Function.update_self _ _ _

theorem Blocks.cloned (blocks : Blocks vm) {r : Ptr} {i : Nat} {pr : PhysRegion}
    (slot : Slot vm r i)
    (resident : (vm.virRegion r).physblocks i = some pr) (click : Nat) :
    Blocks (vm.cloned r i pr.ph click) := by
  obtain ⟨slot', empty⟩ := slot.parted pr.ph
  exact ((blocks.parted slot resident).filled slot' empty click).idle _ _

theorem mapClonePhBlock_ends (header : Header np) (answers : Answers) (blocks : Blocks vm) {r : Ptr}
    {i : Nat} {pr : PhysRegion} (slot : Slot vm r i)
    (resident : (vm.virRegion r).physblocks i = some pr) (shared : 1 < (vm.physBlock pr.ph).refcount) :
    Ends (fun _ => ¬ ((vm.virRegion r).Clonable pr.offset ∧ answers.sysAbscopy (vm.calls + 4) = true))
      (fun result =>
        (vm.virRegion r).Clonable pr.offset ∧
        ((Granted answers vm.calls vm.free ∧ ∃ click,
          answers.allocMem (vm.calls + 2) 1 vm.free = some click ∧
          result = (some ⟨vm.newBlock, i * vmPageSize⟩, vm.cloned r i pr.ph click)) ∨
        result.1 = none ∧ ¬ Granted answers vm.calls vm.free ∧ Blocks result.2))
      (mapClonePhBlock header answers vm r pr) := by
  have sound := blocks.sound r slot.region
  have offset := sound.offsets i pr slot.small resident
  have parted : pbUnreferenced vm r pr = .ok (vm.parted r i pr.ph) :=
    pbUnreferenced_shared sound slot.small resident shared
  have region := parted_region vm r i pr.ph
  obtain ⟨slot', empty⟩ := slot.parted pr.ph
  have blocks' := blocks.parted slot resident
  unfold mapClonePhBlock
  rw [assert_true _ shared, parted, ok_bind, region]
  dsimp only
  refine assert_ends (fun failed clonable => ?_) fun single => ?_
  · by_cases contig : (vm.virRegion r).flags.contig
    · exact failed (Or.inl (clonable.1.2 contig))
    · exact failed (Or.inr contig)
  rw [assert_true _ (by simp [vrallocflags]), offset]
  refine Ends.bind ((mapPf_ends header answers blocks' slot' empty).stop ?_)
    fun result ⟨writable, outcome⟩ => ?_
  · intro stop readonly clonable
    rw [region] at readonly
    exact readonly clonable.1.1
  · obtain ⟨done, vm1⟩ := result
    rw [region] at writable
    have clonable : (vm.virRegion r).Clonable (i * vmPageSize) :=
      ⟨writable, fun contig => offset ▸ single.resolve_right (not_not.mpr contig)⟩
    rcases outcome with ⟨isTrue, granted, click, memory, isFilled⟩ | ⟨isFalse, refused, blocks1⟩
    · change done = true at isTrue
      change vm1 = _ at isFilled
      subst isTrue
      have blocks1 : Blocks vm1 := isFilled ▸ blocks'.filled slot' empty click
      have region1 : vm1.virRegion r = { vm.virRegion r with
          physblocks := update (vm.virRegion r).physblocks i
            (some ⟨vm.newBlock, i * vmPageSize⟩) } := by
        rw [isFilled]
        simp [State.filled, State.parted, State.setSlot, State.setBlock]
      have found : physblockGet (vm1.virRegion r) (i * vmPageSize) =
          .ok (some ⟨vm.newBlock, i * vmPageSize⟩) := by
        have sound1 : (vm1.virRegion r).Sound := blocks1.sound r (isFilled ▸ slot.region)
        rw [sound1.get (by rw [region1]; exact slot.small), region1]
        dsimp only
        rw [Function.update_self]
      have alone : (vm1.physBlock vm.newBlock).refcount = 1 := by
        rw [isFilled]
        simp [State.filled, State.parted, State.setSlot, State.setBlock]
      have copied : copyAbs2region answers vm1 r (i * vmPageSize) =
          .ok (answers.sysAbscopy (vm.calls + 4), vm1.called) := by
        have more : ¬ i * vmPageSize + vmPageSize ≤ i * vmPageSize := by
          unfold vmPageSize
          omega
        unfold copyAbs2region
        rw [found, ok_bind]
        dsimp only
        rw [assert_true _ (Nat.le_refl _), if_neg more, if_neg (not_not.mpr alone), isFilled]
        rfl
      dsimp only
      rw [copied, ok_bind]
      cases transferred : answers.sysAbscopy (vm.calls + 4) with
      | false =>
          intro both
          exact Bool.false_ne_true both.2
      | true =>
          have found' : physblockGet (vm1.called.virRegion r) (i * vmPageSize) =
              .ok (some ⟨vm.newBlock, i * vmPageSize⟩) := found
          dsimp only
          rw [found', ok_bind]
          dsimp only
          rw [assert_true _ rfl]
          refine ⟨clonable, Or.inl ⟨granted, click, memory, ?_⟩⟩
          show (_, vm1.called) = _
          rw [isFilled]
          rfl
    · change done = false at isFalse
      subst isFalse
      exact ⟨clonable, Or.inr ⟨rfl, refused, blocks1⟩⟩

/-- The page tables are written, and the copies between pages are made. -/
def Writes (answers : Answers) : Prop :=
  ∀ call, answers.ptWritemap call = true ∧ answers.sysAbscopy call = true

/-- The region of a process in which an address is. -/
def regionAt (vm : State np) (p : Fin np) (v : Nat) : Option Ptr :=
  (regionSearch vm p v).filter fun r => v < (vm.virRegion r).vaddr + (vm.virRegion r).length

/-- The page at an address, if there is one. -/
def pageAt (vm : State np) (p : Fin np) (v : Nat) : Option (Ptr × PhysRegion) :=
  (regionAt vm p v).bind fun r =>
    ((vm.virRegion r).physblocks ((v - (vm.virRegion r).vaddr) / vmPageSize)).map (r, ·)

theorem regionAt_some {p : Fin np} {v : Nat} {r : Ptr} (found : regionAt vm p v = some r) :
    regionSearch vm p v = some r ∧ r ∈ (vm.vmproc p).vmRegionsAvl ∧ (vm.virRegion r).vaddr ≤ v ∧
      v < (vm.virRegion r).vaddr + (vm.virRegion r).length := by
  obtain ⟨searched, below⟩ := Option.filter_eq_some_iff.mp found
  have member := List.mem_of_getLast? searched
  rw [List.mem_filter] at member
  exact ⟨searched, member.1, of_decide_eq_true member.2, of_decide_eq_true below⟩

theorem mapLookup_outside {p : Fin np} {v : Nat} (outside : regionAt vm p v = none) :
    mapLookup vm p v = .ok none := by
  unfold mapLookup
  cases searched : regionSearch vm p v with
  | none => rfl
  | some r =>
      have above : ¬ ((vm.virRegion r).vaddr ≤ v ∧
          v < (vm.virRegion r).vaddr + (vm.virRegion r).length) := by
        intro both
        rw [regionAt, searched, Option.filter_some, if_pos (decide_eq_true both.2)] at outside
        cases outside
      dsimp only
      rw [if_neg above]
      rfl

/-- The slot of an address in a region. -/
theorem Blocks.slotAt (blocks : Blocks vm) {p : Fin np} {v : Nat} {r : Ptr}
    (found : regionAt vm p v = some r) (aligned : v % vmPageSize = 0) :
    Slot vm r ((v - (vm.virRegion r).vaddr) / vmPageSize) ∧
      v = (vm.virRegion r).vaddr + (v - (vm.virRegion r).vaddr) / vmPageSize * vmPageSize := by
  obtain ⟨-, member, above, below⟩ := regionAt_some found
  have region := mem_allRegions member
  have start := blocks.aligned r region
  have whole := (blocks.sound r region).aligned
  unfold vmPageSize at *
  refine ⟨⟨region, ?_⟩, by omega⟩
  unfold vmPageSize
  omega

theorem mapLookup_inside (blocks : Blocks vm) {p : Fin np} {v : Nat} {r : Ptr}
    (found : regionAt vm p v = some r) (aligned : v % vmPageSize = 0) :
    mapLookup vm p v = .ok (some (r,
      (vm.virRegion r).physblocks ((v - (vm.virRegion r).vaddr) / vmPageSize))) := by
  obtain ⟨searched, -, above, below⟩ := regionAt_some found
  obtain ⟨slot, place⟩ := blocks.slotAt found aligned
  have sound := blocks.sound r slot.region
  unfold mapLookup
  rw [searched]
  dsimp only
  rw [if_pos ⟨above, below⟩]
  generalize number : (v - (vm.virRegion r).vaddr) / vmPageSize = i at place slot
  have offset : v - (vm.virRegion r).vaddr = i * vmPageSize := by omega
  rw [offset, sound.get slot.small, ok_bind]
  cases resident : (vm.virRegion r).physblocks i with
  | none => rfl
  | some pr => exact assert_true _ (sound.offsets i pr slot.small resident)

theorem mapLookup_unaligned (blocks : Blocks vm) {p : Fin np} {v : Nat} {r : Ptr}
    (found : regionAt vm p v = some r) (unaligned : v % vmPageSize ≠ 0) :
    mapLookup vm p v = .error (.assertion .physblockGet) := by
  obtain ⟨searched, member, above, below⟩ := regionAt_some found
  have start := blocks.aligned r (mem_allRegions member)
  have offset : ¬ (v - (vm.virRegion r).vaddr) % vmPageSize = 0 := by
    unfold vmPageSize at *
    omega
  unfold mapLookup
  rw [searched]
  dsimp only
  rw [if_pos ⟨above, below⟩]
  unfold physblockGet assert
  rw [if_neg offset]
  rfl

/-- The slot of a page. -/
structure At (vm : State np) (p : Fin np) (v : Nat) (r : Ptr) (i : Nat) (pr : PhysRegion) : Prop
    extends Slot vm r i where
  own : r ∈ (vm.vmproc p).vmRegionsAvl
  resident : (vm.virRegion r).physblocks i = some pr
  address : v = (vm.virRegion r).vaddr + i * vmPageSize
  lookup : mapLookup vm p v = .ok (some (r, some pr))

theorem Blocks.locate (blocks : Blocks vm) {p : Fin np} {v : Nat} {r : Ptr} {pr : PhysRegion}
    (found : pageAt vm p v = some (r, pr)) (aligned : v % vmPageSize = 0) :
    ∃ i, At vm p v r i pr := by
  obtain ⟨r', inRegion, resident⟩ := Option.bind_eq_some_iff.mp found
  obtain ⟨pr', resident', same⟩ := Option.map_eq_some_iff.mp resident
  obtain ⟨rfl, rfl⟩ := Prod.mk.inj same
  obtain ⟨slot, place⟩ := blocks.slotAt inRegion aligned
  refine ⟨_, slot, (regionAt_some inRegion).2.1, resident', place, ?_⟩
  rw [mapLookup_inside blocks inRegion aligned, resident']

theorem getCleanPhysRegion_absent (blocks : Blocks vm) {p : Fin np} {v : Nat}
    (absent : pageAt vm p v = none) (aligned : regionAt vm p v ≠ none → v % vmPageSize = 0) :
    getCleanPhysRegion header answers vm p v = .ok (none, vm) := by
  unfold getCleanPhysRegion
  cases inRegion : regionAt vm p v with
  | none =>
      rw [mapLookup_outside inRegion]
      rfl
  | some r =>
      have whole := aligned (by rw [inRegion]; exact Option.some_ne_none r)
      rw [mapLookup_inside blocks inRegion whole]
      unfold pageAt at absent
      rw [inRegion, Option.bind_some, Option.map_eq_none_iff] at absent
      rw [absent]
      rfl

theorem getCleanPhysRegion_alone (header : Header np) (answers : Answers) (blocks : Blocks vm)
    {p : Fin np} {v : Nat} {r : Ptr} {i : Nat}
    {pr : PhysRegion} (there : At vm p v r i pr) (alone : ¬ 1 < (vm.physBlock pr.ph).refcount) :
    (vm.physBlock pr.ph).refcount = 1 ∧
      getCleanPhysRegion header answers vm p v = .ok (some (r, pr), vm) := by
  have counted := blocks.referenced there.toSlot there.resident
  have one : (vm.physBlock pr.ph).refcount = 1 := by omega
  have below := slot_lt there.small
  have place := there.address
  refine ⟨one, ?_⟩
  unfold getCleanPhysRegion
  rw [there.lookup, ok_bind]
  dsimp only
  rw [assert_true _ (by omega), assert_true _ (by omega), assert_true _ counted, if_neg alone,
    assert_true _ one]
  rfl

theorem getCleanPhysRegion_shared (header : Header np) (answers : Answers) (blocks : Blocks vm)
    {p : Fin np} {v : Nat} {r : Ptr} {i : Nat} {pr : PhysRegion} (there : At vm p v r i pr)
    (shared : 1 < (vm.physBlock pr.ph).refcount) :
    Ends (fun _ => ¬ ((vm.virRegion r).Clonable pr.offset ∧ answers.sysAbscopy (vm.calls + 4) = true))
      (fun result =>
        (vm.virRegion r).Clonable pr.offset ∧
        ((Granted answers vm.calls vm.free ∧ ∃ click,
          answers.allocMem (vm.calls + 2) 1 vm.free = some click ∧
          result = (some (r, ⟨vm.newBlock, i * vmPageSize⟩), vm.cloned r i pr.ph click)) ∨
        result.1 = none ∧ ¬ Granted answers vm.calls vm.free ∧ Blocks result.2))
      (getCleanPhysRegion header answers vm p v) := by
  have counted := blocks.referenced there.toSlot there.resident
  have below := slot_lt there.small
  have place := there.address
  unfold getCleanPhysRegion
  rw [there.lookup, ok_bind]
  dsimp only
  rw [assert_true _ (by omega), assert_true _ (by omega), assert_true _ counted, if_pos shared]
  refine (mapClonePhBlock_ends header answers blocks there.toSlot there.resident shared).bind
    fun result ⟨clonable, outcome⟩ => ?_
  rcases outcome with ⟨granted, click, memory, rfl⟩ | ⟨isNone, refused, blocks1⟩
  · have alone : ((vm.cloned r i pr.ph click).physBlock vm.newBlock).refcount = 1 := by
      have own : (vm.cloned r i pr.ph click).physBlock vm.newBlock = ⟨click2abs click, 1⟩ :=
        Function.update_self _ _ _
      rw [own]
    dsimp only
    rw [assert_true _ alone]
    exact ⟨clonable, Or.inl ⟨granted, click, memory, rfl⟩⟩
  · obtain ⟨found, vm1⟩ := result
    obtain rfl : found = none := isNone
    exact ⟨clonable, Or.inr ⟨rfl, refused, blocks1⟩⟩

end Ve482.Vm
