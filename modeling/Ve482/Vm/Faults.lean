import Ve482.Vm.Regions
import Mathlib.Data.Finset.Sigma
import Mathlib.Data.Finset.Card

set_option autoImplicit false

namespace Ve482.Vm

open Function (update)
open Fallible (Ends)

variable {np : Nat} {Page : Type}

/-- The state with each `phys_region` that was allocated and not freed, the one in each slot, what
the pages hold, and the hint of each process. -/
structure Server (np : Nat) (Page : Type) where
  vm : State np
  physRegions : Finset Ptr
  newPhysRegion : Ptr
  known : ∀ ph ∈ physRegions, ph < newPhysRegion
  physRegionAt : Ptr → Nat → Ptr
  memory : Nat → Page
  vmRegionTop : Fin np → Nat

/-- What the rest of the system answers to a page fault. The memory type says whether the block can
be written where it is, and whether its `ev_pagefault` succeeds. -/
structure PageAnswers extends Answers where
  writable : Bool
  evPagefault : Bool

namespace Server

/-- What a block with a page holds. -/
def contents (s : Server np Page) (pr : PhysRegion) : Option Page :=
  let block := s.vm.physBlock pr.ph
  if block.phys = mapNone then none else some (s.memory block.phys)

/-- A slot of a region that refers to a block. -/
structure At (s : Server np Page) (r : Ptr) (i : Nat) (pr : PhysRegion) : Prop where
  region : r < s.vm.newRegion
  small : i * vmPageSize < (s.vm.virRegion r).length
  slot : (s.vm.virRegion r).physblocks i = some pr

/-- The slots refer to blocks that were allocated, and to pages that are not free. -/
def Sound (s : Server np Page) : Prop :=
  ∀ r i pr, s.At r i pr → pr.ph < s.vm.newBlock ∧
    ((s.vm.physBlock pr.ph).phys ≠ mapNone → abs2click (s.vm.physBlock pr.ph).phys ∉ s.vm.free)

/-- The slots of all regions that refer to a block. -/
def occupied (s : Server np Page) : Finset (Σ _ : Ptr, Nat) :=
  ((Finset.range s.vm.newRegion).sigma fun r =>
    Finset.range (((s.vm.virRegion r).length + vmPageSize - 1) / vmPageSize)).filter fun slot =>
      ((s.vm.virRegion slot.1).physblocks slot.2).isSome

def Counted (s : Server np Page) : Prop :=
  s.physRegions.card = s.occupied.card

/-- No slot has lost its block, and no page what it holds. -/
structure Retains (s s' : Server np Page) : Prop where
  newRegion : s'.vm.newRegion = s.vm.newRegion
  length : ∀ r, (s'.vm.virRegion r).length = (s.vm.virRegion r).length
  sound : s'.Sound
  slots : ∀ r i pr, s.At r i pr → ∃ pr', s'.At r i pr' ∧
    ∀ page, s.contents pr = some page → s'.contents pr' = some page

def called (s : Server np Page) : Server np Page := { s with vm := s.vm.called }

/-- A request starts with the first answer. -/
def restart (s : Server np Page) : Server np Page := { s with vm := { s.vm with calls := 0 } }

end Server

/-- The functions of a memory type. If `ev_pagefault` succeeds, it leaves each slot with a block,
which holds what was there, and has neither allocated nor freed a `phys_region`. -/
structure MemType (np : Nat) (Page : Type) where
  id : Nat
  evNew : Option (Server np Page → Ptr → Bool × Server np Page)
  evPagefault : Server np Page → Ptr → PhysRegion → Bool → Server np Page
  evPagefault_physRegions : ∀ s r pr write, (evPagefault s r pr write).physRegions = s.physRegions
  evPagefault_retains : ∀ s r i pr write, s.Sound → s.At r i pr →
    s.Retains (evPagefault s r pr write) ∧ (evPagefault s r pr write).occupied = s.occupied

namespace Server

/-- A new `phys_region` for a slot. -/
def newPhysr (s : Server np Page) (vm : State np) (r : Ptr) (i : Nat) : Server np Page :=
  { s with
    vm
    physRegions := insert s.newPhysRegion s.physRegions
    newPhysRegion := s.newPhysRegion + 1
    known := fun ph member => by
      rcases Finset.mem_insert.mp member with rfl | older
      · exact Nat.lt_succ_self _
      · exact Nat.lt_succ_of_lt (s.known ph older)
    physRegionAt := update s.physRegionAt r (update (s.physRegionAt r) i s.newPhysRegion) }

/-- `SLABFREE` of a `phys_region` -/
def slabfree (s : Server np Page) (ph : Ptr) : Server np Page :=
  { s with
    physRegions := s.physRegions.erase ph
    known := fun other member => s.known other (Finset.mem_of_mem_erase member) }

def pbReference (answers : Answers) (s : Server np Page) (pb : Ptr) (offset : Nat) (r : Ptr) :
    Except Stop (Option PhysRegion × Server np Page) := do
  match ← Vm.pbReference answers s.vm pb offset r with
  | (none, vm) => return (none, { s with vm })
  | (some newphysr, vm) => return (some newphysr, s.newPhysr vm r (offset / vmPageSize))

def mapPhWritept (answers : Answers) (s : Server np Page) (r : Ptr) (pr : PhysRegion) :
    Except Stop (Bool × Server np Page) := do
  let (ok, vm) ← Vm.mapPhWritept answers s.vm r pr
  return (ok, { s with vm })

/-- `if(!(ph = physblock_get(region, offset)))` of `map_pf`: a page that is not there gets a new
block. -/
def mapPfBlock (answers : Answers) (s : Server np Page) (r : Ptr) (offset : Nat) :
    Except Stop (Option PhysRegion × Server np Page) := do
  match ← physblockGet (s.vm.virRegion r) offset with
  | some ph => return (some ph, s)
  | none =>
      match pbNew answers s.vm with
      | (none, vm) => return (none, { s with vm })
      | (some pb, vm) => pbReference answers { s with vm } pb offset r

/-- The rest of `map_pf`. `ev_pagefault` can make the `phys_region` refer to another block. -/
def mapPfFault (memtype : MemType np Page) (answers : PageAnswers) (s : Server np Page) (r : Ptr)
    (ph : PhysRegion) (write : Bool) : Except Stop (Bool × Server np Page) := do
  if ¬ (write ∧ answers.writable) then
    if answers.evPagefault then
      let s := memtype.evPagefault s r ph write
      let ph := ((s.vm.virRegion r).physblocks (ph.offset / vmPageSize)).getD ph
      s.mapPhWritept answers.toAnswers r ph
    else
      let vm ← pbUnreferenced s.vm.called r ph
      return (false, { s with vm })
  else s.mapPhWritept answers.toAnswers r ph

def mapPf (memtype : MemType np Page) (answers : PageAnswers) (s : Server np Page) (r : Ptr)
    (offset : Nat) (write : Bool) : Except Stop (Bool × Server np Page) := do
  let offset := offset - offset % vmPageSize
  let region := s.vm.virRegion r
  assert (offset < region.length) .mapPf
  assert (region.vaddr % vmPageSize = 0) .mapPf
  assert (¬ (write ∧ ¬ region.flags.writable)) .mapPf
  match ← s.mapPfBlock answers.toAnswers r offset with
  | (none, s) => return (false, s)
  | (some ph, s) => s.mapPfFault memtype answers r ph write

/-- The loop of `map_handle_memory`, with `count` pages to come. -/
def mapHandleLoop (memtype : MemType np Page) (answers : Nat → PageAnswers) (r : Ptr)
    (write : Bool) : Nat → Nat → Server np Page → Except Stop (Bool × Server np Page)
  | 0, _, s => .ok (true, s)
  | count + 1, offset, s => do
      match ← s.restart.mapPf memtype (answers offset) r offset write with
      | (false, s) => return (false, s)
      | (true, s) => mapHandleLoop memtype answers r write count (offset + vmPageSize) s

/-- The answers to the fault at each page are by its offset. -/
def mapHandleMemory (memtype : MemType np Page) (answers : Nat → PageAnswers) (s : Server np Page)
    (r : Ptr) (startOffset length : Nat) (write : Bool) :
    Except Stop (Bool × Server np Page) := do
  assert (0 < length) .mapHandleMemory
  let lim := vbAdd startOffset length
  assert (startOffset < lim) .mapHandleMemory
  mapHandleLoop memtype answers r write ((lim - startOffset + vmPageSize - 1) / vmPageSize)
    startOffset s

/-- The page that is copied is the one at a physical address. -/
def copyAbs2region (answers : Answers) (s : Server np Page) (abs : Nat) (destregion : Ptr)
    (offset : Nat) : Except Stop (Bool × Server np Page) := do
  match ← Vm.copyAbs2region answers s.vm destregion offset with
  | (false, vm) => return (false, { s with vm })
  | (true, vm) =>
      match (vm.virRegion destregion).physblocks (offset / vmPageSize) with
      | none => return (true, { s with vm })
      | some ph =>
          let memory := update s.memory (vm.physBlock ph.ph).phys (s.memory abs)
          return (true, { s with vm, memory })

def mapClonePhBlock (memtype : MemType np Page) (answers : PageAnswers) (s : Server np Page)
    (r : Ptr) (ph : PhysRegion) : Except Stop (Option PhysRegion × Server np Page) := do
  assert (1 < (s.vm.physBlock ph.ph).refcount) .mapClonePhBlock
  let offset := ph.offset
  let physaddr := (s.vm.physBlock ph.ph).phys
  let vm ← pbUnreferenced s.vm r ph
  let s := { s with vm }.slabfree (s.physRegionAt r (offset / vmPageSize))
  let region := s.vm.virRegion r
  let allocflags := vrallocflags { region.flags with uninitialized := true }
  let regionHasSingleBlock := offset = 0 ∧ region.length = vmPageSize
  assert (regionHasSingleBlock ∨ ¬ allocflags.contig) .mapClonePhBlock
  assert (¬ allocflags.clear) .mapClonePhBlock
  match ← s.mapPf memtype answers r offset true with
  | (false, s) => return (none, s)
  | (true, s) =>
      match ← s.copyAbs2region answers.toAnswers physaddr r offset with
      | (false, _) => .error (.panic .mapClonePhBlock)
      | (true, s) =>
          match ← physblockGet (s.vm.virRegion r) offset with
          | none => .error (.assertion .mapClonePhBlock)
          | some newpr =>
              assert (newpr.offset = offset) .mapClonePhBlock
              return (some newpr, s)

variable {answers : Answers} {s s' : Server np Page} {r : Ptr} {i : Nat}

/-- Free pages and what they hold stay, and so do the blocks that there were. -/
structure Leaves (s s' : Server np Page) : Prop where
  vmproc : s'.vm.vmproc = s.vm.vmproc
  newRegion : s'.vm.newRegion = s.vm.newRegion
  newBlock : s.vm.newBlock ≤ s'.vm.newBlock
  physBlock : ∀ pb < s.vm.newBlock, s'.vm.physBlock pb = s.vm.physBlock pb
  free : s'.vm.free = s.vm.free
  memory : s'.memory = s.memory

/-- Nothing else happens either. -/
structure Idle (s s' : Server np Page) : Prop extends Leaves s s' where
  virRegion : s'.vm.virRegion = s.vm.virRegion
  physRegions : s'.physRegions = s.physRegions

/-- A slot gets a new `phys_region` and a new block without a page. -/
structure Filled (s s' : Server np Page) (r : Ptr) (i : Nat) (pr : PhysRegion) : Prop
    extends Leaves s s' where
  virRegion : s'.vm.virRegion = (s.vm.setSlot r i (some pr)).virRegion
  block : pr.ph = s.vm.newBlock ∧ pr.ph < s'.vm.newBlock
  phys : (s'.vm.physBlock pr.ph).phys = mapNone
  physRegions : s'.physRegions = insert s.newPhysRegion s.physRegions

/-- A page that is there, or gets a block as there is memory for both structures. -/
def Got (answers : Answers) (s s' : Server np Page) (r : Ptr) (i : Nat) (pr : PhysRegion) : Prop :=
  (s.vm.virRegion r).physblocks i = some pr ∧ s' = s ∨
    (s.vm.virRegion r).physblocks i = none ∧ s.Filled s' r i pr ∧
      answers.slaballoc s.vm.calls ∧ answers.slaballoc (s.vm.calls + 1)

/-- A page that is not there, and gets no block. -/
def Missing (answers : Answers) (s s' : Server np Page) (r : Ptr) (i : Nat) : Prop :=
  (s.vm.virRegion r).physblocks i = none ∧ s.Idle s' ∧
    ¬ (answers.slaballoc s.vm.calls ∧ answers.slaballoc (s.vm.calls + 1))

theorem mapPfBlock_ends (answers : Answers) (s : Server np Page) (r : Ptr) (i : Nat) :
    Ends (fun _ => True) (fun result => result.1 = none ∧ Missing answers s result.2 r i ∨
        ∃ pr, pr.offset = i * vmPageSize ∧ result.1 = some pr ∧ Got answers s result.2 r i pr)
      (s.mapPfBlock answers r (i * vmPageSize)) := by
  unfold mapPfBlock
  refine (physblockGet_slot _ _).bind fun found slot => ?_
  obtain ⟨-, -, same, offset⟩ := slot
  rw [(offset_slot i).1] at same
  cases found with
  | some pr => exact Or.inr ⟨pr, offset pr rfl, rfl, Or.inl ⟨same.symm, rfl⟩⟩
  | none =>
      dsimp only
      unfold pbNew
      by_cases first : answers.slaballoc s.vm.calls
      · rw [if_pos first]
        dsimp only
        unfold pbReference Vm.pbReference
        by_cases second : answers.slaballoc (s.vm.calls + 1)
        · rw [if_pos second]
          dsimp only
          rw [bind_assoc]
          refine (physblockSet_slot _ _ _ _).bind fun vm' set => ?_
          subst set
          rw [(offset_slot i).1]
          refine Or.inr ⟨_, rfl, rfl, Or.inr ⟨same.symm, ⟨?_, rfl, ?_, ?_, rfl⟩, first, second⟩⟩
          · refine ⟨rfl, rfl, Nat.le_succ _, fun pb older => ?_, rfl, rfl⟩
            have other := Nat.ne_of_lt older
            exact (Function.update_of_ne other _ _).trans (Function.update_of_ne other _ _)
          · exact ⟨rfl, Nat.lt_succ_self _⟩
          · simp [newPhysr, State.setBlock, State.setSlot, State.called]
        · rw [if_neg second]
          refine Or.inl ⟨rfl, same.symm, ?_, fun both => second both.2⟩
          refine ⟨⟨rfl, rfl, Nat.le_succ _, fun pb older => ?_, rfl, rfl⟩, rfl, rfl⟩
          exact Function.update_of_ne (Nat.ne_of_lt older) _ _
      · rw [if_neg first]
        refine Or.inl ⟨rfl, same.symm, ?_, fun both => first both.1⟩
        exact ⟨⟨rfl, rfl, Nat.le_refl _, fun _ _ => rfl, rfl, rfl⟩, rfl, rfl⟩

/-- The slot is empty afterwards, and no `phys_region` was freed. -/
structure Dropped (s s' : Server np Page) (r : Ptr) (i : Nat) : Prop where
  newRegion : s'.vm.newRegion = s.vm.newRegion
  virRegion : s'.vm.virRegion = (s.vm.setSlot r i none).virRegion
  physRegions : s'.physRegions = s.physRegions

theorem pbUnreferenced_drops (s : Server np Page) {pr : PhysRegion} (r : Ptr)
    (offset : pr.offset = i * vmPageSize) :
    Ends (fun _ => True) (fun vm' => s.Dropped { s with vm := vm' } r i)
      (pbUnreferenced s.vm r pr) := by
  unfold pbUnreferenced
  refine assert_ends (fun _ => trivial) fun _ => ?_
  refine (physblockSet_slot _ _ _ _).imp fun vm' set => ?_
  rw [offset, (offset_slot i).1] at set
  subst set
  split
  · exact ⟨rfl, rfl, rfl⟩
  · exact ⟨rfl, rfl, rfl⟩

theorem mapPhWritept_ends (answers : Answers) (s : Server np Page) (r : Ptr) (pr : PhysRegion) :
    Ends (fun _ => True) (fun result => result = (answers.ptWritemap s.vm.calls, s.called))
      (s.mapPhWritept answers r pr) := by
  unfold mapPhWritept Vm.mapPhWritept
  simp only [bind_assoc]
  refine assert_ends (fun _ => trivial) fun _ => assert_ends (fun _ => trivial) fun _ =>
    assert_ends (fun _ => trivial) fun _ => ?_
  rfl

/-- The memory type is asked unless it says that the block can be written where it is. -/
def Faulted (memtype : MemType np Page) (answers : PageAnswers) (s : Server np Page) (r : Ptr)
    (i : Nat) (pr : PhysRegion) (write : Bool) (result : Bool × Server np Page) : Prop :=
  (write ∧ answers.writable) ∧ result = (answers.ptWritemap s.vm.calls, s.called) ∨
    ¬ (write ∧ answers.writable) ∧ answers.evPagefault ∧
      result = (answers.ptWritemap (memtype.evPagefault s r pr write).vm.calls,
        (memtype.evPagefault s r pr write).called) ∨
    ¬ (write ∧ answers.writable) ∧ ¬ answers.evPagefault ∧ result.1 = false ∧
      s.Dropped result.2 r i

theorem mapPfFault_ends (memtype : MemType np Page) (answers : PageAnswers) (s : Server np Page)
    (r : Ptr) {pr : PhysRegion} (write : Bool) (offset : pr.offset = i * vmPageSize) :
    Ends (fun _ => True) (s.Faulted memtype answers r i pr write)
      (s.mapPfFault memtype answers r pr write) := by
  unfold mapPfFault
  by_cases direct : write ∧ answers.writable
  · rw [if_neg (not_not_intro direct)]
    exact (mapPhWritept_ends _ _ _ _).imp fun result same => Or.inl ⟨direct, same⟩
  · rw [if_pos direct]
    by_cases handled : answers.evPagefault
    · rw [if_pos handled]
      exact (mapPhWritept_ends _ _ _ _).imp fun result same =>
        Or.inr (Or.inl ⟨direct, handled, same⟩)
    · rw [if_neg handled]
      refine (pbUnreferenced_drops s.called r offset).bind fun vm' dropped => ?_
      exact Or.inr (Or.inr ⟨direct, handled, rfl,
        ⟨dropped.newRegion, dropped.virRegion, dropped.physRegions⟩⟩)

theorem mapPf_ends (memtype : MemType np Page) (answers : PageAnswers) (s : Server np Page)
    (r : Ptr) (i : Nat) (write : Bool) :
    Ends (fun _ => True) (fun result => i * vmPageSize < (s.vm.virRegion r).length ∧
        (result.1 = false ∧ Missing answers.toAnswers s result.2 r i ∨
          ∃ pr middle, Got answers.toAnswers s middle r i pr ∧
            middle.Faulted memtype answers r i pr write result))
      (s.mapPf memtype answers r (i * vmPageSize) write) := by
  unfold mapPf
  rw [(offset_slot i).2, Nat.sub_zero]
  refine assert_ends (fun _ => trivial) fun small => assert_ends (fun _ => trivial) fun _ =>
    assert_ends (fun _ => trivial) fun _ => (mapPfBlock_ends _ s r i).bind fun result block => ?_
  obtain ⟨found, middle⟩ := result
  rcases block with ⟨failed, missing⟩ | ⟨pr, offset, there, got⟩
  · dsimp only at failed
    subst failed
    exact ⟨small, Or.inl ⟨rfl, missing⟩⟩
  · dsimp only at there
    subst there
    exact (mapPfFault_ends memtype answers middle r write offset).imp fun result faulted =>
      ⟨small, Or.inr ⟨pr, middle, got, faulted⟩⟩

end Server

end Ve482.Vm
