import Mathlib.Algebra.GroupWithZero.Nat
import Mathlib.Data.Finset.Basic
import Mathlib.Order.Interval.Finset.Nat
import Mathlib.Logic.Function.Basic

set_option autoImplicit false

namespace Ve482.Vm

open Function (update)

/-- The address of a structure that the slab allocator has given. -/
abbrev Ptr := Nat

abbrev Endpoint := Int

abbrev VirBytes := BitVec 32

def vmPageSize : Nat := 4096

def abs2click (address : Nat) : Nat := address / vmPageSize

def click2abs (click : Nat) : Nat := click * vmPageSize

/-- `MAP_NONE`, which is not the address of a page. -/
def mapNone : Nat := 0xFFFFFFFE

/-- The `VR_` bits of a region. -/
structure Flags where
  writable : Bool
  anon : Bool
  contig : Bool
  phys64k : Bool
  lower16mb : Bool
  lower1mb : Bool
  uninitialized : Bool
deriving DecidableEq

/-- The `PAF_` bits of an allocation. -/
structure AllocFlags where
  align64k : Bool
  lower16mb : Bool
  lower1mb : Bool
  contig : Bool
  clear : Bool
deriving DecidableEq

structure PhysBlock where
  phys : Nat
  refcount : Nat
deriving DecidableEq

structure PhysRegion where
  ph : Ptr
  offset : Nat
deriving DecidableEq

structure VirRegion (np : Nat) where
  vaddr : Nat
  length : Nat
  flags : Flags
  memtype : Nat
  parent : Fin np
  physblocks : Nat → Option PhysRegion

structure BlockId where
  owner : Endpoint
  id : BitVec 64
deriving DecidableEq

structure Yielded where
  id : BlockId
  physaddr : Nat
  pages : Nat
  younger : Option Ptr
  older : Option Ptr

/-- A tree of regions is the list of its nodes in the order of their addresses. -/
structure Vmproc where
  vmEndpoint : Endpoint
  inUse : Bool
  vmRegionsAvl : List Ptr
  vmYielded : Nat

/-- The processes and the structures of the server. A tree of yielded blocks is the list of its
nodes in the order of their keys. A history is kept with it: when each block was yielded, and
which yielded blocks were freed. -/
structure State (np : Nat) where
  vmproc : Fin np → Vmproc
  virRegion : Ptr → VirRegion np
  physBlock : Ptr → PhysBlock
  yielded : Ptr → Yielded
  newRegion : Ptr
  newBlock : Ptr
  newYielded : Ptr
  vmYieldedBlocks : Nat → List Ptr
  lruYoungest : Option Ptr
  lruOldest : Option Ptr
  free : Finset Nat
  calls : Nat
  yields : Nat
  yieldedAt : Ptr → Nat
  freed : List Ptr

/-- What the rest of the system fixes: the hash function, the slot of an endpoint, and whether a
memory type lets a block be written where it is. -/
structure Header (np : Nat) where
  hash : Endpoint → BitVec 64 → Nat
  endpointP : Endpoint → Fin np
  vmBlockidNone : BitVec 64
  writable : Nat → PhysBlock → Bool
  writable_none : ∀ memtype refcount, writable memtype ⟨mapNone, refcount⟩ = false

/-- What the rest of the system answers to the calls that one request leads to, by their number. -/
structure Answers where
  slaballoc : Nat → Bool
  allocMem : Nat → Nat → Finset Nat → Option Nat
  allocMem_free : ∀ call pages free click, allocMem call pages free = some click →
    ∀ i < pages, click + i ∈ free
  ptWritemap : Nat → Bool
  sysAbscopy : Nat → Bool

inductive Routine where
  | physSlot
  | physblockGet
  | physblockSet
  | pbUnreferenced
  | mapPhWritept
  | mapSubfree
  | freeYieldedProc
  | freeyieldednode
  | mapLookup
  | mapClonePhBlock
  | mapPf
  | evPagefault
  | copyAbs2region
  | mapProcCopyFrom
  | getCleanPhysRegion
  | getblock
  | yieldblock
  | message
  | getRegionInfo
  | regionFindSlotRange
  | getnextvr
  | mapRegionExtendUptoV
  | mapUnmapRegion
  | mapHandleMemory
  | mapPageRegion
deriving DecidableEq

/-- The ways in which the server stops: a failed assertion and a panic. The others must not
happen: a loop without end, and a page fault in a page that is there. -/
inductive Stop where
  | assertion (routine : Routine)
  | panic (routine : Routine)
  | endless
  | pagePresent
deriving DecidableEq

inductive Code where
  | ok
  | esrch
  | efault
  | einval
  | enomem
deriving DecidableEq

variable {np : Nat}

def assert (condition : Prop) [Decidable condition] (routine : Routine) : Except Stop Unit :=
  if condition then .ok () else .error (.assertion routine)

namespace State

def called (vm : State np) : State np := { vm with calls := vm.calls + 1 }

def setBlock (vm : State np) (pb : Ptr) (block : PhysBlock) : State np :=
  { vm with physBlock := update vm.physBlock pb block }

def setSlot (vm : State np) (r : Ptr) (i : Nat) (pr : Option PhysRegion) : State np :=
  let region := vm.virRegion r
  { vm with
    virRegion := update vm.virRegion r { region with physblocks := update region.physblocks i pr } }

def setProc (vm : State np) (p : Fin np) (proc : Vmproc) : State np :=
  { vm with vmproc := update vm.vmproc p proc }

def freeMem (vm : State np) (click pages : Nat) : State np :=
  { vm with free := vm.free ∪ Finset.Ico click (click + pages) }

end State

/-- `vm_isokendpt`, with the slot as its result. -/
def vmIsokendpt (header : Header np) (vm : State np) (endpoint : Endpoint) : Option (Fin np) :=
  let p := header.endpointP endpoint
  if (vm.vmproc p).vmEndpoint = endpoint ∧ (vm.vmproc p).inUse then some p else none

def yieldHashsize : Nat := 65536

/-- The index of `get_yielded_avl`. -/
def getYieldedAvl (header : Header np) (id : BlockId) : Nat :=
  header.hash id.owner id.id % yieldHashsize

def physblockGet (region : VirRegion np) (offset : Nat) : Except Stop (Option PhysRegion) := do
  assert (offset % vmPageSize = 0) .physblockGet
  assert (offset < region.length) .physblockGet
  match region.physblocks (offset / vmPageSize) with
  | none => return none
  | some found =>
      assert (found.offset = offset) .physblockGet
      return some found

def physblockSet (vm : State np) (r : Ptr) (offset : Nat) (newphysr : Option PhysRegion) :
    Except Stop (State np) := do
  assert (offset % vmPageSize = 0) .physblockSet
  assert (offset < (vm.virRegion r).length) .physblockSet
  let i := offset / vmPageSize
  match newphysr with
  | some newphysr =>
      assert ((vm.virRegion r).physblocks i = none) .physblockSet
      assert (newphysr.offset = offset) .physblockSet
  | none => assert ((vm.virRegion r).physblocks i ≠ none) .physblockSet
  return vm.setSlot r i newphysr

/-- `pb_new(MAP_NONE)` -/
def pbNew (answers : Answers) (vm : State np) : Option Ptr × State np :=
  if answers.slaballoc vm.calls then
    (some vm.newBlock, { vm.setBlock vm.newBlock ⟨mapNone, 0⟩ with
      newBlock := vm.newBlock + 1
      calls := vm.calls + 1 })
  else (none, vm.called)

/-- One more `phys_region` refers to the block, if there is memory for it. -/
def pbReference (answers : Answers) (vm : State np) (pb : Ptr) (offset : Nat) (r : Ptr) :
    Except Stop (Option PhysRegion × State np) :=
  if answers.slaballoc vm.calls then do
    let block := vm.physBlock pb
    let vm := vm.called.setBlock pb { block with refcount := block.refcount + 1 }
    let newphysr : PhysRegion := { ph := pb, offset }
    return (some newphysr, ← physblockSet vm r offset (some newphysr))
  else .ok (none, vm.called)

/-- The block loses a `phys_region`, and its page if that was the last one. -/
def pbUnreferenced (vm : State np) (r : Ptr) (pr : PhysRegion) : Except Stop (State np) := do
  let block := vm.physBlock pr.ph
  assert (0 < block.refcount) .pbUnreferenced
  let vm := vm.setBlock pr.ph { block with refcount := block.refcount - 1 }
  let vm :=
    if block.refcount - 1 = 0 ∧ block.phys ≠ mapNone then vm.freeMem (abs2click block.phys) 1
    else vm
  physblockSet vm r pr.offset none

/-- Whether the page table was written. -/
def mapPhWritept (answers : Answers) (vm : State np) (r : Ptr) (pr : PhysRegion) :
    Except Stop (Bool × State np) := do
  assert ((vm.virRegion r).vaddr % vmPageSize = 0) .mapPhWritept
  assert (pr.offset % vmPageSize = 0) .mapPhWritept
  assert (0 < (vm.physBlock pr.ph).refcount) .mapPhWritept
  return (answers.ptWritemap vm.calls, vm.called)

/-- `region_search(.., AVL_LESS_EQUAL)` -/
def regionSearch (vm : State np) (p : Fin np) (offset : Nat) : Option Ptr :=
  ((vm.vmproc p).vmRegionsAvl.filter fun r => (vm.virRegion r).vaddr ≤ offset).getLast?

def mapLookup (vm : State np) (p : Fin np) (offset : Nat) :
    Except Stop (Option (Ptr × Option PhysRegion)) := do
  match regionSearch vm p offset with
  | none => return none
  | some r =>
      let region := vm.virRegion r
      if region.vaddr ≤ offset ∧ offset < region.vaddr + region.length then
        let ph := offset - region.vaddr
        match ← physblockGet region ph with
        | none => return some (r, none)
        | some physr =>
            assert (physr.offset = ph) .mapLookup
            return some (r, some physr)
      else return none

def vrallocflags (flags : Flags) : AllocFlags where
  align64k := flags.phys64k
  lower16mb := flags.lower16mb
  lower1mb := flags.lower1mb
  contig := flags.contig
  clear := !flags.uninitialized

/-- The page that a page fault gives to a block that has none. -/
def evPagefault (answers : Answers) (vm : State np) (pb : Ptr) : Bool × State np :=
  match answers.allocMem vm.calls 1 vm.free with
  | none => (false, vm.called)
  | some click =>
      (true, { vm.called.setBlock pb { vm.physBlock pb with phys := click2abs click } with
        free := vm.free.erase click })

/-- `map_pf` of a page that has no `phys_region`, for writing. -/
def mapPf (header : Header np) (answers : Answers) (vm : State np) (r : Ptr) (offset : Nat) :
    Except Stop (Bool × State np) := do
  let offset := offset - offset % vmPageSize
  let region := vm.virRegion r
  assert (offset < region.length) .mapPf
  assert (region.vaddr % vmPageSize = 0) .mapPf
  assert region.flags.writable .mapPf
  match ← physblockGet region offset with
  | some _ => .error .pagePresent
  | none =>
      match pbNew answers vm with
      | (none, vm) => return (false, vm)
      | (some pb, vm) =>
          match ← pbReference answers vm pb offset r with
          | (none, vm) => return (false, vm)
          | (some ph, vm) =>
              if header.writable region.memtype (vm.physBlock pb) then mapPhWritept answers vm r ph
              else
                match evPagefault answers vm pb with
                | (false, vm) => return (false, ← pbUnreferenced vm r ph)
                | (true, vm) => mapPhWritept answers vm r ph

/-- `copy_abs2region` of one page. -/
def copyAbs2region (answers : Answers) (vm : State np) (r : Ptr) (offset : Nat) :
    Except Stop (Bool × State np) := do
  match ← physblockGet (vm.virRegion r) offset with
  | none => return (false, vm)
  | some ph =>
      assert (ph.offset ≤ offset) .copyAbs2region
      if ph.offset + vmPageSize ≤ offset then return (false, vm)
      else if (vm.physBlock ph.ph).refcount ≠ 1 then return (false, vm)
      else return (answers.sysAbscopy vm.calls, vm.called)

def mapClonePhBlock (header : Header np) (answers : Answers) (vm : State np) (r : Ptr)
    (ph : PhysRegion) : Except Stop (Option PhysRegion × State np) := do
  assert (1 < (vm.physBlock ph.ph).refcount) .mapClonePhBlock
  let offset := ph.offset
  let vm ← pbUnreferenced vm r ph
  let region := vm.virRegion r
  let allocflags := vrallocflags { region.flags with uninitialized := true }
  let regionHasSingleBlock := offset = 0 ∧ region.length = vmPageSize
  assert (regionHasSingleBlock ∨ ¬ allocflags.contig) .mapClonePhBlock
  assert (¬ allocflags.clear) .mapClonePhBlock
  match ← mapPf header answers vm r offset with
  | (false, vm) => return (none, vm)
  | (true, vm) =>
      match ← copyAbs2region answers vm r offset with
      | (false, _) => .error (.panic .mapClonePhBlock)
      | (true, vm) =>
          match ← physblockGet (vm.virRegion r) offset with
          | none => .error (.assertion .mapClonePhBlock)
          | some newpr =>
              assert (newpr.offset = offset) .mapClonePhBlock
              return (some newpr, vm)

/-- The `phys_region` at an address, after a copy if it is not the only one of its block. -/
def getCleanPhysRegion (header : Header np) (answers : Answers) (vm : State np) (p : Fin np)
    (vaddr : Nat) : Except Stop (Option (Ptr × PhysRegion) × State np) := do
  match ← mapLookup vm p vaddr with
  | none => return (none, vm)
  | some (_, none) => return (none, vm)
  | some (r, some ph) =>
      let region := vm.virRegion r
      assert (region.vaddr ≤ vaddr) .getCleanPhysRegion
      assert (vaddr < region.vaddr + region.length) .getCleanPhysRegion
      assert (0 < (vm.physBlock ph.ph).refcount) .getCleanPhysRegion
      if 1 < (vm.physBlock ph.ph).refcount then
        match ← mapClonePhBlock header answers vm r ph with
        | (none, vm) => return (none, vm)
        | (some ph, vm) =>
            assert ((vm.physBlock ph.ph).refcount = 1) .getCleanPhysRegion
            return (some (r, ph), vm)
      else
        assert ((vm.physBlock ph.ph).refcount = 1) .getCleanPhysRegion
        return (some (r, ph), vm)

/-! The trees and the list of yielded blocks. -/

def yieldedSearch (vm : State np) (tree : List Ptr) (id : BlockId) : Option Ptr :=
  tree.find? fun node => (vm.yielded node).id = id

/-- `yielded_block_cmp` finds the first id to be less. -/
def BlockId.Less (id1 id2 : BlockId) : Prop :=
  id1.owner < id2.owner ∨ id1.owner = id2.owner ∧ id1.id < id2.id

instance (id1 id2 : BlockId) : Decidable (id1.Less id2) :=
  inferInstanceAs (Decidable (_ ∨ _))

def yieldedInsert (vm : State np) (tree : List Ptr) (node : Ptr) : List Ptr :=
  tree.takeWhile (fun other => (vm.yielded other).id.Less (vm.yielded node).id) ++
    node :: tree.dropWhile (fun other => (vm.yielded other).id.Less (vm.yielded node).id)

namespace State

def setTree (vm : State np) (h : Nat) (tree : List Ptr) : State np :=
  { vm with vmYieldedBlocks := update vm.vmYieldedBlocks h tree }

def setYounger (vm : State np) (node : Ptr) (younger : Option Ptr) : State np :=
  { vm with yielded := update vm.yielded node { vm.yielded node with younger } }

def setOlder (vm : State np) (node : Ptr) (older : Option Ptr) : State np :=
  { vm with yielded := update vm.yielded node { vm.yielded node with older } }

end State

/-- Update the list, in which the node is somewhere. -/
def unlinkNode (vm : State np) (node : Ptr) : Except Stop (State np) := do
  let younger := (vm.yielded node).younger
  let older := (vm.yielded node).older
  let vm ← match younger with
    | some younger => do
        assert ((vm.yielded younger).older = some node) .freeyieldednode
        pure (vm.setOlder younger older)
    | none => do
        assert (vm.lruYoungest = some node) .freeyieldednode
        pure { vm with lruYoungest := older }
  match older with
  | some older =>
      assert ((vm.yielded older).younger = some node) .freeyieldednode
      return vm.setYounger older younger
  | none =>
      assert (vm.lruOldest = some node) .freeyieldednode
      return { vm with lruOldest := younger }

def freeyieldednode (header : Header np) (vm : State np) (node : Ptr) (freemem : Bool) :
    Except Stop (Nat × State np) := do
  let vm ← unlinkNode vm node
  let id := (vm.yielded node).id
  match vmIsokendpt header vm id.owner with
  | none => .error (.panic .freeyieldednode)
  | some p =>
      let avl := getYieldedAvl header id
      let tree := vm.vmYieldedBlocks avl
      let removed := yieldedSearch vm tree id
      let vm := vm.setTree avl (match removed with
        | some removed => tree.erase removed
        | none => tree)
      assert (removed = some node) .freeyieldednode
      let proc := vm.vmproc p
      assert (0 < proc.vmYielded) .freeyieldednode
      let vm := vm.setProc p { proc with vmYielded := proc.vmYielded - 1 }
      let block := vm.yielded node
      let vm := if freemem then vm.freeMem (abs2click block.physaddr) block.pages else vm
      return (vmPageSize, { vm with freed := vm.freed ++ [node] })

/-- `while (freed < max_bytes && lru_oldest)`. Each round counts a page, so that `max_bytes` rounds
are enough. -/
def freeYieldedLoop (header : Header np) (maxBytes : Nat) :
    Nat → Nat → State np → Except Stop (Nat × State np)
  | fuel, freed, vm =>
      match vm.lruOldest with
      | none => .ok (freed, vm)
      | some oldest =>
          if freed < maxBytes then
            match fuel with
            | 0 => .error .endless
            | fuel + 1 => do
                let (bytes, vm) ← freeyieldednode header vm oldest true
                freeYieldedLoop header maxBytes fuel (freed + bytes) vm
          else .ok (freed, vm)

def freeYielded (header : Header np) (vm : State np) (maxBytes : Nat) :
    Except Stop (Nat × State np) :=
  freeYieldedLoop header maxBytes maxBytes 0 vm

/-- The node after one in a tree. -/
def successor : List Ptr → Ptr → Option Ptr
  | [], _ => none
  | first :: rest, node => if first = node then rest.head? else successor rest node

/-- `while ((yb = yielded_get_iter(&iter)))` over the tree of one hash value. -/
def freeTree (header : Header np) (p : Fin np) (h : Nat) :
    Nat → Option Ptr → State np → Except Stop (State np)
  | _, none, vm => .ok vm
  | 0, some _, _ => .error .endless
  | fuel + 1, some yb, vm => do
      let nextYb := successor (vm.vmYieldedBlocks h) yb
      if (vm.yielded yb).id.owner ≠ (vm.vmproc p).vmEndpoint then
        freeTree header p h fuel nextYb vm
      else
        let (_, vm) ← freeyieldednode header vm yb true
        match nextYb with
        | none => return vm
        | some nextYb =>
            assert (yieldedSearch vm (vm.vmYieldedBlocks h) (vm.yielded nextYb).id = some nextYb)
              .freeYieldedProc
            freeTree header p h fuel (some nextYb) vm

/-- `for (h = 0; h < YIELD_HASHSIZE && vmp->vm_yielded > 0; h++)`, with `count` values of `h` to
come. -/
def freeYieldedProcLoop (header : Header np) (p : Fin np) :
    Nat → Nat → State np → Except Stop (State np)
  | 0, _, vm => .ok vm
  | count + 1, h, vm =>
      if (vm.vmproc p).vmYielded > 0 then do
        let tree := vm.vmYieldedBlocks h
        let vm ← freeTree header p h tree.length tree.head? vm
        freeYieldedProcLoop header p count (h + 1) vm
      else .ok vm

def freeYieldedProc (header : Header np) (vm : State np) (p : Fin np) :
    Except Stop (State np) :=
  freeYieldedProcLoop header p yieldHashsize 0 vm

/-! The end of a process. -/

/-- The loop of `map_subfree` up to `last`, with `count` pages to come. -/
def mapSubfreeLoop (r : Ptr) (start last : Nat) :
    Nat → Nat → State np → Except Stop (State np)
  | 0, _, vm => .ok vm
  | count + 1, voffset, vm => do
      match ← physblockGet (vm.virRegion r) voffset with
      | none => mapSubfreeLoop r start last count (voffset + vmPageSize) vm
      | some pr =>
          assert (start ≤ pr.offset) .mapSubfree
          assert (pr.offset < last) .mapSubfree
          let vm ← pbUnreferenced vm r pr
          mapSubfreeLoop r start last count (voffset + vmPageSize) vm

def mapSubfree (vm : State np) (r : Ptr) (start len : Nat) : Except Stop (State np) :=
  mapSubfreeLoop r start (start + len) ((len + vmPageSize - 1) / vmPageSize) start vm

/-- `map_free` of a region whose memory type has nothing to delete. -/
def mapFree (vm : State np) (r : Ptr) : Except Stop (State np) := do
  let vm ← mapSubfree vm r 0 (vm.virRegion r).length
  let region := vm.virRegion r
  return { vm with virRegion := update vm.virRegion r { region with physblocks := fun _ => none } }

/-- `while ((r = region_search_root(..)))`, with the regions in the order of their addresses. -/
def mapFreeRegions (p : Fin np) : List Ptr → State np → Except Stop (State np)
  | [], vm => .ok vm
  | r :: regions, vm => do
      let proc := vm.vmproc p
      let vm := vm.setProc p { proc with vmRegionsAvl := proc.vmRegionsAvl.erase r }
      let vm ← mapFree vm r
      mapFreeRegions p regions vm

def mapFreeProc (header : Header np) (vm : State np) (p : Fin np) : Except Stop (State np) := do
  let vm ← mapFreeRegions p (vm.vmproc p).vmRegionsAvl vm
  let proc := vm.vmproc p
  let vm := vm.setProc p { proc with vmRegionsAvl := [] }
  freeYieldedProc header vm p

/-! The copy of a process. -/

def physSlot (len : Nat) : Except Stop Nat := do
  assert (len % vmPageSize = 0) .physSlot
  return len / vmPageSize

/-- `region_new`. The answer to `calloc` is that to one more call of the slab allocator. -/
def regionNew (answers : Answers) (vm : State np) (parent : Fin np) (startv length : Nat)
    (flags : Flags) (memtype : Nat) : Except Stop (Option Ptr × State np) := do
  let _ ← physSlot length
  if ¬ answers.slaballoc vm.calls then return (none, vm.called)
  else
    let vm := vm.called
    let newregion : VirRegion np :=
      { vaddr := startv, length, flags, memtype, parent, physblocks := fun _ => none }
    if ¬ answers.slaballoc vm.calls then return (none, vm.called)
    else return (some vm.newRegion, { vm.called with
      virRegion := update vm.virRegion vm.newRegion newregion
      newRegion := vm.newRegion + 1 })

/-- `for (p = 0; p < phys_slot(vr->length); p++)` of `map_copy_region`. -/
def mapCopyRegionLoop (answers : Answers) (vr newvr : Ptr) :
    Nat → Nat → State np → Except Stop (Bool × State np)
  | 0, _, vm => .ok (true, vm)
  | count + 1, p, vm => do
      match ← physblockGet (vm.virRegion vr) (p * vmPageSize) with
      | none => mapCopyRegionLoop answers vr newvr count (p + 1) vm
      | some ph =>
          match ← pbReference answers vm ph.ph ph.offset newvr with
          | (none, vm) => return (false, vm)
          | (some _, vm) => mapCopyRegionLoop answers vr newvr count (p + 1) vm

/-- `map_copy_region` of a region whose memory type has nothing to copy. -/
def mapCopyRegion (answers : Answers) (vm : State np) (vr : Ptr) :
    Except Stop (Option Ptr × State np) := do
  let region := vm.virRegion vr
  match ← regionNew answers vm region.parent region.vaddr region.length region.flags
      region.memtype with
  | (none, vm) => return (none, vm)
  | (some newvr, vm) =>
      let slots ← physSlot region.length
      match ← mapCopyRegionLoop answers vr newvr slots 0 vm with
      | (false, vm) => return (none, ← mapFree vm newvr)
      | (true, vm) => return (some newvr, vm)

/-- A region of a tree is not replaced by one with the same address. -/
def treeInsert (vm : State np) (tree : List Ptr) (r : Ptr) : List Ptr :=
  let before := fun other => (vm.virRegion other).vaddr < (vm.virRegion r).vaddr
  if ∃ other ∈ tree, (vm.virRegion other).vaddr = (vm.virRegion r).vaddr then tree
  else tree.takeWhile before ++ r :: tree.dropWhile before

def regionInsert (vm : State np) (p : Fin np) (r : Ptr) : State np :=
  let proc := vm.vmproc p
  vm.setProc p { proc with vmRegionsAvl := treeInsert vm proc.vmRegionsAvl r }

/-- The loop of `map_writept` over the pages of a region, with `count` pages to come. -/
def mapWriteptRegion (answers : Answers) (vr : Ptr) :
    Nat → Nat → State np → Except Stop (Bool × State np)
  | 0, _, vm => .ok (true, vm)
  | count + 1, p, vm => do
      match ← physblockGet (vm.virRegion vr) p with
      | none => mapWriteptRegion answers vr count (p + vmPageSize) vm
      | some ph =>
          match ← mapPhWritept answers vm vr ph with
          | (false, vm) => return (false, vm)
          | (true, vm) => mapWriteptRegion answers vr count (p + vmPageSize) vm

def mapWriteptLoop (answers : Answers) : List Ptr → State np → Except Stop (Bool × State np)
  | [], vm => .ok (true, vm)
  | vr :: regions, vm => do
      let pages := ((vm.virRegion vr).length + vmPageSize - 1) / vmPageSize
      match ← mapWriteptRegion answers vr pages 0 vm with
      | (false, vm) => return (false, vm)
      | (true, vm) => mapWriteptLoop answers regions vm

def mapWritept (answers : Answers) (vm : State np) (p : Fin np) :
    Except Stop (Bool × State np) :=
  mapWriteptLoop answers (vm.vmproc p).vmRegionsAvl vm

/-- `while ((vr = region_get_iter(&v_iter)))` of `map_proc_copy_from`. -/
def mapProcCopyLoop (header : Header np) (answers : Answers) (dst : Fin np) :
    List Ptr → State np → Except Stop (Code × State np)
  | [], vm => .ok (.ok, vm)
  | vr :: regions, vm => do
      match ← mapCopyRegion answers vm vr with
      | (none, vm) => return (.enomem, ← mapFreeProc header vm dst)
      | (some newvr, vm) =>
          let region := vm.virRegion newvr
          let vm := { vm with virRegion := update vm.virRegion newvr { region with parent := dst } }
          let vm := regionInsert vm dst newvr
          assert ((vm.virRegion vr).length = (vm.virRegion newvr).length) .mapProcCopyFrom
          mapProcCopyLoop header answers dst regions vm

def mapProcCopyFrom (header : Header np) (answers : Answers) (vm : State np) (dst src : Fin np)
    (startSrcVr : Option Ptr) : Except Stop (Code × State np) := do
  let regions := (vm.vmproc src).vmRegionsAvl
  match startSrcVr.or regions.head? with
  | none => .error (.assertion .mapProcCopyFrom)
  | some startSrcVr =>
      assert ((vm.virRegion startSrcVr).parent = src) .mapProcCopyFrom
      let vIter := regions.dropWhile fun r =>
        (vm.virRegion r).vaddr ≠ (vm.virRegion startSrcVr).vaddr
      assert (vIter.head? = some startSrcVr) .mapProcCopyFrom
      match ← mapProcCopyLoop header answers dst vIter vm with
      | (.ok, vm) =>
          -- the results of both are ignored
          let (_, vm) ← mapWritept answers vm src
          let (_, vm) ← mapWritept answers vm dst
          return (.ok, vm)
      | (code, vm) => return (code, vm)

def mapProcCopy (header : Header np) (answers : Answers) (vm : State np) (dst src : Fin np) :
    Except Stop (Code × State np) :=
  let proc := vm.vmproc dst
  mapProcCopyFrom header answers (vm.setProc dst { proc with vmRegionsAvl := [] }) dst src none

/-! The requests. -/

/-- `for (p = 0; p < pages; p++)` of `getblock`. -/
def getPages (header : Header np) (answers : Answers) (p : Fin np) :
    Nat → VirBytes → Nat → State np → Except Stop (Code × State np)
  | 0, _, _, vm => .ok (.ok, vm)
  | pages + 1, vaddr, phaddr, vm => do
      match ← getCleanPhysRegion header answers vm p vaddr.toNat with
      | (none, vm) => return (.einval, vm)
      | (some (r, ph), vm) =>
          assert ((vm.physBlock ph.ph).refcount = 1) .getblock
          let vm := vm.freeMem (abs2click (vm.physBlock ph.ph).phys) 1
          let vm := vm.setBlock ph.ph { vm.physBlock ph.ph with phys := phaddr }
          match ← mapPhWritept answers vm r ph with
          | (false, _) => .error (.panic .getblock)
          | (true, vm) =>
              getPages header answers p pages (vaddr + BitVec.ofNat 32 vmPageSize)
                (phaddr + vmPageSize) vm

def getblock (header : Header np) (answers : Answers) (vm : State np) (p : Fin np)
    (id : BitVec 64) (vaddr : VirBytes) (pages : Nat) : Except Stop (Code × State np) := do
  let blockid : BlockId := { owner := (vm.vmproc p).vmEndpoint, id }
  match yieldedSearch vm (vm.vmYieldedBlocks (getYieldedAvl header blockid)) blockid with
  | none => return (.esrch, vm)
  | some yb =>
      if (vm.yielded yb).pages ≠ pages then return (.efault, vm)
      else
        match ← getPages header answers p pages vaddr (vm.yielded yb).physaddr vm with
        | (.ok, vm) =>
            let (_, vm) ← freeyieldednode header vm yb false
            return (.ok, vm)
        | (code, vm) => return (code, vm)

def discontiguous (vm : State np) (prevPh : Option PhysRegion) (block : PhysBlock) : Bool :=
  match prevPh with
  | some prevPh => block.phys ≠ (vm.physBlock prevPh.ph).phys + vmPageSize
  | none => false

/-- The first loop of `yieldblock`: its checks, with `ph` (also `prev_ph`) and `first_ph`. -/
def yieldCheck (vm : State np) (p : Fin np) :
    Nat → VirBytes → Option PhysRegion → Option PhysRegion →
      Except Stop (Code × Option PhysRegion × Option PhysRegion)
  | 0, _, ph, firstPh => .ok (.ok, ph, firstPh)
  | pages + 1, v, prevPh, firstPh => do
      match ← mapLookup vm p v.toNat with
      | none => return (.einval, prevPh, firstPh)
      | some (_, none) => return (.einval, prevPh, firstPh)
      | some (r, some ph) =>
          let block := vm.physBlock ph.ph
          if ¬ (vm.virRegion r).flags.anon then return (.efault, prevPh, firstPh)
          else if block.refcount ≠ 1 then return (.efault, prevPh, firstPh)
          else if discontiguous vm prevPh block then return (.einval, prevPh, firstPh)
          else
            yieldCheck vm p pages (v + BitVec.ofNat 32 vmPageSize) (some ph) (firstPh.or (some ph))

/-- The second loop of `yieldblock`: it gives the blocks their new pages. -/
def yieldPages (answers : Answers) (p : Fin np) :
    Nat → VirBytes → Nat → State np → Except Stop (State np)
  | 0, _, _, vm => .ok vm
  | pages + 1, v, newPhaddr, vm => do
      match ← mapLookup vm p v.toNat with
      | none => .error (.assertion .yieldblock)
      | some (_, none) => .error (.assertion .yieldblock)
      | some (r, some ph) =>
          assert ((vm.physBlock ph.ph).refcount = 1) .yieldblock
          let vm := vm.setBlock ph.ph { vm.physBlock ph.ph with phys := newPhaddr }
          match ← mapPhWritept answers vm r ph with
          | (false, _) => .error (.panic .yieldblock)
          | (true, vm) =>
              yieldPages answers p pages (v + BitVec.ofNat 32 vmPageSize) (newPhaddr + vmPageSize) vm

/-- Remember a yielded block: in its tree, in its owner's count, and as the youngest one. -/
def rememberNode (header : Header np) (vm : State np) (p : Fin np) (newyb : Ptr) : State np :=
  let avl := getYieldedAvl header (vm.yielded newyb).id
  let vm := vm.setTree avl (yieldedInsert vm (vm.vmYieldedBlocks avl) newyb)
  let proc := vm.vmproc p
  let vm := vm.setProc p { proc with vmYielded := proc.vmYielded + 1 }
  let vm := match vm.lruYoungest with
    | some youngest => vm.setYounger youngest (some newyb)
    | none => { vm with lruOldest := some newyb }
  let vm := vm.setOlder newyb vm.lruYoungest
  { vm with
    lruYoungest := some newyb
    yieldedAt := update vm.yieldedAt newyb vm.yields
    yields := vm.yields + 1 }

def yieldblock (header : Header np) (answers : Answers) (vm : State np) (p : Fin np)
    (id : BitVec 64) (vaddr : VirBytes) (pages : Nat) : Except Stop (Code × State np) := do
  let blockid : BlockId := { owner := (vm.vmproc p).vmEndpoint, id }
  match yieldedSearch vm (vm.vmYieldedBlocks (getYieldedAvl header blockid)) blockid with
  | some _ => return (.einval, vm)
  | none =>
      if vaddr.toNat % vmPageSize ≠ 0 ∨ pages < 1 then return (.efault, vm)
      else
        match ← yieldCheck vm p pages vaddr none none with
        | (.ok, some ph, some firstPh) =>
            if ¬ answers.slaballoc vm.calls then return (.enomem, vm.called)
            else
              let newyb := vm.newYielded
              let vm := { vm.called with newYielded := newyb + 1 }
              assert ((vm.physBlock ph.ph).phys % vmPageSize = 0) .yieldblock
              match answers.allocMem vm.calls pages vm.free with
              | none => return (.enomem, vm.called)
              | some memClicks =>
                  let block : Yielded :=
                    { id := blockid, physaddr := (vm.physBlock firstPh.ph).phys, pages
                      younger := none, older := (vm.yielded newyb).older }
                  let vm := { vm.called with
                    free := vm.free \ Finset.Ico memClicks (memClicks + pages)
                    yielded := update vm.yielded newyb block }
                  let vm ← yieldPages answers p pages vaddr (click2abs memClicks) vm
                  return (.ok, rememberNode header vm p newyb)
        | (.ok, _, _) => .error (.assertion .yieldblock)
        | (code, _, _) => return (code, vm)

/-- The fields of a request to `do_yieldblockgetblock`. The length is a C int. -/
structure Message where
  source : Endpoint
  yieldid : BitVec 64
  getid : BitVec 64
  vaddr : VirBytes
  len : BitVec 32

def doYieldblockgetblock (header : Header np) (answers : Answers) (vm : State np) (m : Message) :
    Except Stop (Code × State np) :=
  match vmIsokendpt header vm m.source with
  | none => .error (.panic .message)
  | some p => do
      let pages := Int.tdiv m.len.toInt vmPageSize
      if Int.tmod m.len.toInt vmPageSize ≠ 0 ∨ pages < 1 then return (.efault, vm)
      else
        let vm ←
          if m.yieldid ≠ header.vmBlockidNone then do
            let (_, vm) ← yieldblock header answers vm p m.yieldid m.vaddr pages.toNat
            pure vm
          else pure vm
        if m.getid ≠ header.vmBlockidNone then
          getblock header answers vm p m.getid m.vaddr pages.toNat
        else return (.esrch, vm)

def doForgetblock (header : Header np) (vm : State np) (source : Endpoint) (id : BitVec 64) :
    Except Stop (State np) :=
  match vmIsokendpt header vm source with
  | none => .error (.panic .message)
  | some p => do
      let blockid : BlockId := { owner := (vm.vmproc p).vmEndpoint, id }
      match yieldedSearch vm (vm.vmYieldedBlocks (getYieldedAvl header blockid)) blockid with
      | none => return vm
      | some yb =>
          let (_, vm) ← freeyieldednode header vm yb true
          return vm

def doForgetblocks (header : Header np) (vm : State np) (source : Endpoint) :
    Except Stop (State np) :=
  match vmIsokendpt header vm source with
  | none => .error (.panic .message)
  | some p => freeYieldedProc header vm p

/-- What the server is asked to do. -/
inductive Event (np : Nat) where
  | yieldblockGetblock (answers : Answers) (m : Message)
  | forgetblock (source : Endpoint) (id : BitVec 64)
  | forgetblocks (source : Endpoint)
  | freeYielded (maxBytes : Nat)
  | exit (p : Fin np)

def step (header : Header np) (vm : State np) : Event np → Except Stop (State np)
  | .yieldblockGetblock answers m =>
      (doYieldblockgetblock header answers { vm with calls := 0 } m).map Prod.snd
  | .forgetblock source id => doForgetblock header vm source id
  | .forgetblocks source => doForgetblocks header vm source
  | .freeYielded maxBytes => (freeYielded header vm maxBytes).map Prod.snd
  | .exit p =>
      if (vm.vmproc p).inUse then do
        let vm ← mapFreeProc header vm p
        let proc := vm.vmproc p
        return vm.setProc p { proc with inUse := false }
      else .ok vm

/-- A server that has stopped does nothing more. -/
def next (header : Header np) (outcome : Except Stop (State np)) (event : Event np) :
    Except Stop (State np) :=
  outcome.bind fun vm => step header vm event

end Ve482.Vm
