import Ve482.Vm.Lifetime

set_option autoImplicit false

namespace Ve482.Vm

open Function (update)
open Fallible (Ends)

variable {np : Nat} {header : Header np} {answers : Answers} {vm vm' : State np} {order : List Ptr}
  {memory : Set Nat}

/-- No process runs yet, and all pages of the memory are free. -/
structure Booted (memory : Set Nat) (vm : State np) : Prop where
  inUse : ∀ p, (vm.vmproc p).inUse = false
  regions : ∀ p, (vm.vmproc p).vmRegionsAvl = []
  yielded : ∀ h, vm.vmYieldedBlocks h = []
  lru : vm.lruYoungest = none ∧ vm.lruOldest = none
  refcount : ∀ pb, (vm.physBlock pb).refcount = 0
  free : ∀ page, page ∈ vm.free ↔ page ∈ memory

theorem Booted.regions_none (booted : Booted memory vm) : allRegions vm = [] := by
  unfold allRegions
  simp [booted.regions]

theorem Booted.empty (booted : Booted memory vm) : Empty header vm where
  vmYieldedBlocks := booted.yielded
  lruYoungest := booted.lru.1
  lruOldest := booted.lru.2
  vmYielded p live := by simp [booted.inUse p] at live
  slots p live := by simp [booted.inUse p] at live

theorem Booted.orderly (booted : Booted memory vm) : Orderly header vm := by
  have none := booted.regions_none
  refine ⟨⟨⟨[], booted.empty.books⟩, ?_, ?_⟩, ?_, ?_, fun p _ => booted.regions p⟩
  · refine
      { distinct := by rw [none]; exact .nil
        sound := by simp [none]
        aligned := by simp [none]
        counted := fun pb => by rw [none]; exact Nat.zero_le _
        pages := fun pb counted => ?_
        fresh := fun pb _ => booted.refcount pb }
    rw [booted.refcount pb] at counted
    exact absurd counted (Nat.lt_irrefl 0)
  · intro h node member
    rw [booted.yielded h] at member
    cases member
  · intro pb
    rw [none, booted.refcount pb]
    rfl
  · intro p
    rw [booted.regions p]
    exact ⟨.nil, by simp⟩

theorem Booted.owned (booted : Booted memory vm) : Owned memory vm := by
  refine fun page member => ⟨.free, (booted.free page).mpr member, fun other inOther => ?_⟩
  cases other with
  | free => rfl
  | block pb =>
      have counted := inOther.1
      rw [booted.refcount pb] at counted
      exact absurd counted (Nat.lt_irrefl 0)
  | yielded node =>
      obtain ⟨⟨h, inTree⟩, -⟩ := inOther
      rw [booted.yielded h] at inTree
      cases inTree

/-- No page that is not free is held when no process runs. -/
theorem Orderly.unheld (orderly : Orderly header vm) (ended : ∀ p, (vm.vmproc p).inUse = false)
    {place : Place} {page : Nat} (held : page ∈ holding vm place) : place = .free := by
  cases place with
  | free => rfl
  | block pb =>
      obtain ⟨counted, -⟩ := held
      rw [orderly.exact pb] at counted
      obtain ⟨r, member, -⟩ := List.mem_flatMap.mp (List.count_pos_iff.mp counted)
      obtain ⟨p, -, inTree⟩ := List.mem_flatMap.mp member
      rw [orderly.idle p (ended p)] at inTree
      cases inTree
  | yielded node =>
      obtain ⟨⟨h, inTree⟩, -⟩ := held
      obtain ⟨order, books⟩ := orderly.wellformed.books
      have owner := books.owners node ((books.trees h node).mp inTree).1
      obtain ⟨p, caller⟩ := Option.isSome_iff_exists.mp owner
      have live := (vmIsokendpt_live caller).2
      rw [ended p] at live
      cases live

/-- The regions of the processes in use. -/
def liveRegions (vm : State np) : List Ptr :=
  ((List.finRange np).filter fun p => (vm.vmproc p).inUse).flatMap fun p =>
    (vm.vmproc p).vmRegionsAvl

theorem Orderly.live_regions (orderly : Orderly header vm) : liveRegions vm = allRegions vm := by
  unfold liveRegions allRegions
  generalize List.finRange np = procs
  induction procs with
  | nil => rfl
  | cons p procs ih =>
      rw [List.flatMap_cons, ← ih]
      cases running : (vm.vmproc p).inUse with
      | true => rw [List.filter_cons, if_pos running, List.flatMap_cons]
      | false =>
          rw [List.filter_cons, if_neg (by simp [running]), orderly.idle p running, List.nil_append]

def smallBoot : State 2 :=
  { smallStart with
    vmproc := fun _ => ⟨0, false, [], 0⟩
    physBlock := fun _ => ⟨mapNone, 0⟩
    newRegion := 0
    newBlock := 0 }

def secondProcess : Fin 2 := Fin.last 1

/-- A process maps two pages, yields one of them and is copied, and then both processes end. -/
def smallLife : List (Life 2) :=
  [.begin firstProcess 1,
    .map (firstFit 16) firstProcess (8 * vmPageSize) (4 * vmPageSize) smallRegion.flags 0,
    .fault (firstFit 16) firstProcess (8 * vmPageSize),
    .fault (firstFit 16) firstProcess (9 * vmPageSize),
    .request (small 5 (BitVec.allOnes 64) 0 4096), .begin secondProcess 2,
    .fork (firstFit 16) secondProcess firstProcess, .request (.exit firstProcess),
    .request (.exit secondProcess)]

theorem smallBoot_booted : Booted {page | 8 ≤ page ∧ page ≤ 15} smallBoot := by
  refine ⟨fun _ => rfl, fun _ => rfl, fun _ => rfl, ⟨rfl, rfl⟩, fun _ => rfl, fun page => ?_⟩
  show page ∈ ({8, 9, 10, 11, 12, 13, 14, 15} : Finset Nat) ↔ 8 ≤ page ∧ page ≤ 15
  simp only [Finset.mem_insert, Finset.mem_singleton]
  omega

theorem smallLife_permitted : Runs.EveryStep (live smallHeader)
    (Living fun vm event => event.Permitted smallHeader vm) (.ok smallBoot) smallLife := by
  decide

end Ve482.Vm
