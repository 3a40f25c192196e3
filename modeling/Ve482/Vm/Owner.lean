import Ve482.Lib.Ownership
import Ve482.Vm.Asserts

set_option autoImplicit false

namespace Ve482.Vm

open Function (update)
open Fallible (Ends)
open Ownership (Partition transfer transfer_source transfer_target transfer_other)

variable {np : Nat} {header : Header np} {answers : Answers} {vm vm' : State np} {order : List Ptr}
  {memory : Set Nat}

inductive Place where
  | free
  | block (pb : Ptr)
  | yielded (node : Ptr)
deriving DecidableEq

/-- The pages of a yielded block. -/
def Yielded.range (block : Yielded) : Set Nat :=
  {page | block.physaddr ≤ click2abs page ∧
    click2abs page < block.physaddr + block.pages * vmPageSize}

/-- The pages that are free, in a block that is in use, or in a yielded block. -/
def holding (vm : State np) : Place → Set Nat
  | .free => {page | page ∈ vm.free}
  | .block pb => {page | 0 < (vm.physBlock pb).refcount ∧
      (vm.physBlock pb).phys = click2abs page}
  | .yielded node => {page | (∃ h, node ∈ vm.vmYieldedBlocks h) ∧ page ∈ (vm.yielded node).range}

/-- Every page of the memory has one owner. -/
def Owned (memory : Set Nat) (vm : State np) : Prop := Partition memory (holding vm)

/-- Inside a request pages can also be on their way: to blocks, or away from them. -/
inductive Spot where
  | at (place : Place)
  | coming
  | going
deriving DecidableEq

/-- The pages of the yielded block `got` are no longer counted as its own. -/
def spots (vm : State np) (got : Option Ptr) (coming going : Set Nat) : Spot → Set Nat
  | .at (.yielded node) => if got = some node then ∅ else holding vm (.yielded node)
  | .at place => holding vm place
  | .coming => coming
  | .going => going

theorem spots_iff : Partition memory (spots vm none ∅ ∅) ↔ Owned memory vm := by
  refine Ownership.partition_iff Spot.at (fun _ _ same => Spot.at.inj same) (fun place => ?_)
    fun spot other => ?_
  · cases place <;> rfl
  · cases spot with
    | «at» place => exact absurd rfl (other place)
    | coming => rfl
    | going => rfl

theorem click2abs_injective : Function.Injective click2abs := fun left right same =>
  Nat.eq_of_mul_eq_mul_right (by decide) same

theorem click2abs_abs2click {address : Nat} (aligned : address % vmPageSize = 0) :
    click2abs (abs2click address) = address :=
  Nat.div_mul_cancel (Nat.dvd_of_mod_eq_zero aligned)

/-- The pages of a block in use. -/
theorem holding_block {pb : Ptr} {page : Nat} (counted : 0 < (vm.physBlock pb).refcount)
    (phys : (vm.physBlock pb).phys = click2abs page) : holding vm (.block pb) = {page} := by
  ext other
  show _ ∧ _ ↔ other = page
  rw [phys]
  exact ⟨fun both => (click2abs_injective both.2).symm, fun same => ⟨counted, by rw [same]⟩⟩

theorem holding_unused {pb : Ptr} (unused : (vm.physBlock pb).refcount = 0) :
    holding vm (.block pb) = ∅ := by
  ext page
  exact iff_of_false (fun both => absurd both.1 (by omega)) id

theorem Yielded.range_eq {block : Yielded} {click : Nat}
    (start : block.physaddr = click2abs click) :
    block.range = {page | page ∈ Finset.Ico click (click + block.pages)} := by
  ext page
  rw [Set.mem_ofPred_eq, Finset.mem_Ico]
  show block.physaddr ≤ page * vmPageSize ∧ page * vmPageSize < _ ↔ _
  rw [start, click2abs, ← Nat.add_mul, Nat.mul_le_mul_right_iff (by decide),
    Nat.mul_lt_mul_right (by decide)]

/-- The next page of a yielded block has gone to a block, whose own page is free. -/
theorem swapped_owned {got : Option Ptr} {coming going : Set Nat} {pb : Ptr} {old new : Nat}
    (one : (vm.physBlock pb).refcount = 1) (phys : (vm.physBlock pb).phys = click2abs old)
    (next : new ∈ coming) (partition : Partition memory (spots vm got coming going)) :
    Partition memory (spots (vm.swapped pb (click2abs new)) got (coming \ {new}) going) := by
  have held : holding vm (.block pb) = {old} := holding_block (by omega) phys
  have freed := partition.transfer (.at (.block pb)) (.at .free) {old} (by simp) held.ge
  have given := freed.transfer .coming (.at (.block pb)) {new} (by simp)
    (by simpa [transfer, spots] using next)
  convert given using 1
  funext spot
  cases spot with
  | coming => simp [transfer, spots]
  | going => simp [transfer, spots]
  | «at» place =>
      cases place with
      | free =>
          ext page
          simp [transfer, spots, holding, State.swapped, State.freeMem, State.setBlock, phys,
            abs2click_click2abs]
      | block other =>
          by_cases same : other = pb
          · subst same
            have after : holding (vm.swapped other (click2abs new)) (.block other) = {new} :=
              holding_block (by simp [State.swapped, State.setBlock, one])
                (by simp [State.swapped, State.setBlock])
            show holding (vm.swapped other (click2abs new)) (.block other) = _
            rw [after]
            simp [transfer, spots, held]
          · have kept : (vm.swapped pb (click2abs new)).physBlock other = vm.physBlock other := by
              simp [State.swapped, State.setBlock, State.freeMem, same]
            simp [transfer, spots, holding, kept, same]
      | yielded node => simp [transfer, spots, holding, State.swapped, State.setBlock, State.freeMem]

/-- The next page of a yielded block has gone to a new block, which is there in place of a shared
one. -/
theorem cloned_owned (blocks : Blocks vm) {got : Option Ptr} {coming going : Set Nat} {r : Ptr}
    {i : Nat} {pb : Ptr} {click new : Nat} (shared : 1 < (vm.physBlock pb).refcount)
    (memory' : answers.allocMem (vm.calls + 2) 1 vm.free = some click) (next : new ∈ coming)
    (partition : Partition memory (spots vm got coming going)) :
    Partition memory (spots ((vm.cloned r i pb click).swapped vm.newBlock (click2abs new)) got
      (coming \ {new}) going) := by
  have unused := blocks.fresh vm.newBlock (Nat.le_refl _)
  have known : pb ≠ vm.newBlock := by
    rintro rfl
    omega
  have given := partition.transfer .coming (.at (.block vm.newBlock)) {new} (by simp)
    (by simpa [spots] using next)
  have free : ((vm.cloned r i pb click).swapped vm.newBlock (click2abs new)).free = vm.free :=
    cloned_free (click2abs new) memory'
  convert given using 1
  have regions : ∀ other, other ≠ vm.newBlock →
      ((vm.cloned r i pb click).swapped vm.newBlock (click2abs new)).physBlock other =
        (vm.parted r i pb).physBlock other := by
    intro other different
    simp [State.swapped, State.cloned, State.filled, State.setBlock, State.freeMem, different,
      State.parted, State.setSlot]
  funext spot
  cases spot with
  | coming => simp [transfer, spots]
  | going => simp [transfer, spots]
  | «at» place =>
      cases place with
      | free =>
          simp only [transfer, spots, holding, free]
          simp
      | block other =>
          by_cases isNew : other = vm.newBlock
          · subst isNew
            have after : holding ((vm.cloned r i pb click).swapped vm.newBlock (click2abs new))
                (.block vm.newBlock) = {new} :=
              holding_block
                (by simp [State.swapped, State.setBlock, State.cloned, State.filled, State.parted,
                  State.setSlot])
                (by simp [State.swapped, State.setBlock])
            show holding _ (.block vm.newBlock) = _
            rw [after]
            simp [transfer, spots, holding_unused unused]
          · have kept := regions other isNew
            have same : holding ((vm.cloned r i pb click).swapped vm.newBlock (click2abs new))
                (.block other) = holding vm (.block other) := by
              ext page
              simp only [holding, kept]
              by_cases isOld : other = pb
              · subst isOld
                simp [State.parted, State.setBlock, State.setSlot]
                omega
              · simp [State.parted, State.setBlock, State.setSlot, isOld]
            show holding _ (.block other) = _
            rw [same]
            simp [transfer, spots, isNew]
      | yielded node =>
          simp [transfer, spots, holding, State.swapped, State.setBlock, State.freeMem,
            State.cloned, State.filled, State.parted, State.setSlot]

theorem range_cons (click pages : Nat) :
    {page | page ∈ Finset.Ico click (click + (pages + 1))} \ {click} =
      ({page | page ∈ Finset.Ico (click + 1) (click + 1 + pages)} : Set Nat) := by
  ext page
  simp only [Set.mem_sdiff, Set.mem_ofPred_eq, Finset.mem_Ico, Set.mem_singleton_iff]
  omega

/-- All pages of a yielded block have gone to blocks. -/
theorem getPages_owned (header : Header np) (answers : Answers) (p : Fin np) {got : Option Ptr}
    (pages : Nat) (v : VirBytes) (click : Nat) (blocks : Blocks vm)
    (partition : Partition memory
      (spots vm got {page | page ∈ Finset.Ico click (click + pages)} ∅)) :
    Ends (fun _ => True) (fun result => result.1 = .ok →
        Partition memory (spots result.2 got ∅ ∅))
      (getPages header answers p pages v (click2abs click) vm) := by
  induction pages generalizing v click vm with
  | zero =>
      intro _
      simpa using partition
  | succ pages ih =>
      have step := getPages_succ header answers blocks p pages v (click2abs click)
      have next : click2abs click + vmPageSize = click2abs (click + 1) := by
        rw [click2abs, click2abs, Nat.add_mul, Nat.one_mul]
      have first : click ∈ {page | page ∈ Finset.Ico click (click + (pages + 1))} := by
        simp
      revert step
      generalize getPages header answers p (pages + 1) v (click2abs click) vm = outcome
      intro step
      rw [next] at step
      cases step with
      | stopped => trivial
      | absent => exact nofun
      | refused => exact nofun
      | @alone r i pr there one =>
          have paged := blocks.pages pr.ph (by omega)
          have swapped := swapped_owned one (click2abs_abs2click paged).symm first partition
          rw [range_cons] at swapped
          exact ih _ _ (blocks.swapped pr.ph (click2abs_aligned click)) swapped
      | @cloned r i pr there shared clonable granted new memory' =>
          have blocks1 := blocks.cloned there.toSlot there.resident new
          have cloned := cloned_owned (r := r) (i := i) blocks shared memory' first partition
          rw [range_cons] at cloned
          exact ih _ _ (blocks1.swapped vm.newBlock (click2abs_aligned click)) cloned

theorem FreedNode.holding_yielded {node : Ptr} {freemem : Bool}
    (freed : FreedNode vm vm' node freemem) {other : Ptr} (different : other ≠ node) :
    holding vm' (.yielded other) = holding vm (.yielded other) := by
  obtain ⟨-, physaddr, pages⟩ := freed.same other
  ext page
  show (_ ∧ _) ↔ (_ ∧ _)
  rw [freed.trees, Yielded.range, physaddr, pages]
  exact and_congr_left' (and_iff_left different)

theorem FreedNode.holding_node {node : Ptr} {freemem : Bool}
    (freed : FreedNode vm vm' node freemem) : holding vm' (.yielded node) = ∅ := by
  ext page
  refine iff_of_false (fun both => ?_) id
  exact ((freed.trees node).mp both.1).2 rfl

theorem holding_tree {node : Ptr} {h : Nat} (inTree : node ∈ vm.vmYieldedBlocks h) :
    holding vm (.yielded node) = (vm.yielded node).range := by
  ext page
  exact and_iff_right ⟨h, inTree⟩

/-- The pages of a yielded block that is freed are free. -/
theorem FreedNode.owned {node : Ptr} (freed : FreedNode vm vm' node true) {h : Nat}
    (inTree : node ∈ vm.vmYieldedBlocks h) (aligned : (vm.yielded node).physaddr % vmPageSize = 0)
    (owned : Owned memory vm) : Owned memory vm' := by
  have moved := owned.transfer (.yielded node) .free (holding vm (.yielded node)) (by simp)
    Set.Subset.rfl
  unfold Owned
  convert moved using 1
  funext place
  cases place with
  | free =>
      rw [transfer_target (by simp), holding_tree inTree,
        Yielded.range_eq (click2abs_abs2click aligned).symm]
      ext page
      simp [holding, freed.free]
  | block pb =>
      rw [transfer_other (by simp) (by simp)]
      simp [holding, freed.physBlock]
  | yielded other =>
      by_cases same : other = node
      · subst same
        rw [transfer_source, freed.holding_node]
        simp
      · rw [transfer_other (by simpa using same) (by simp), freed.holding_yielded same]

/-- A yielded block whose pages have all gone to blocks. -/
theorem FreedNode.got {node : Ptr} (freed : FreedNode vm vm' node false)
    (partition : Partition memory (spots vm (some node) ∅ ∅)) : Owned memory vm' := by
  rw [← spots_iff]
  convert partition using 1
  funext spot
  cases spot with
  | coming => rfl
  | going => rfl
  | «at» place =>
      cases place with
      | free => simp [spots, holding, freed.free]
      | block pb => simp [spots, holding, freed.physBlock]
      | yielded other =>
          by_cases same : other = node
          · subst same
            simp [spots, freed.holding_node]
          · simp [spots, freed.holding_yielded same, Ne.symm same]

/-- The pages of a yielded block begin to go to blocks. -/
theorem Owned.get {node : Ptr} {h : Nat} (owned : Owned memory vm)
    (inTree : node ∈ vm.vmYieldedBlocks h) :
    Partition memory (spots vm (some node) (vm.yielded node).range ∅) := by
  have moved := (spots_iff.mpr owned).transfer (.at (.yielded node)) .coming
    (vm.yielded node).range (by simp) (by simp [spots, holding_tree inTree])
  convert moved using 1
  funext spot
  cases spot with
  | coming => simp [transfer, spots]
  | going => simp [transfer, spots]
  | «at» place =>
      cases place with
      | free => simp [transfer, spots]
      | block pb => simp [transfer, spots]
      | yielded other =>
          by_cases same : other = node
          · subst same
            simp [transfer, spots, holding_tree inTree]
          · simp [transfer, spots, same, Ne.symm same]

theorem getPages_absent (header : Header np) (answers : Answers) (blocks : Blocks vm) {p : Fin np}
    {v : VirBytes} (absent : pageAt vm p v.toNat = none) {pages : Nat} (positive : 0 < pages)
    (phaddr : Nat) :
    Ends (fun _ => True) (fun result => result = (.einval, vm))
      (getPages header answers p pages v phaddr vm) := by
  obtain ⟨rest, rfl⟩ := Nat.exists_eq_add_of_lt positive
  rw [Nat.zero_add]
  have missing : ∀ {r i pr}, ¬ At vm p v.toNat r i pr := by
    intro r i pr there
    rw [there.found blocks] at absent
    cases absent
  have step := getPages_succ header answers blocks p rest v phaddr
  revert step
  generalize getPages header answers p (rest + 1) v phaddr vm = outcome
  intro step
  cases step with
  | stopped => trivial
  | absent => rfl
  | refused there => exact absurd there missing
  | alone there => exact absurd there missing
  | cloned there => exact absurd there missing

/-- The regions may have changed, but no block and no yielded block. -/
structure Unchanged (vm vm' : State np) : Prop where
  physBlock : vm'.physBlock = vm.physBlock
  yielded : vm'.yielded = vm.yielded
  trees : vm'.vmYieldedBlocks = vm.vmYieldedBlocks

/-- A block is got whole, or not at all. -/
theorem getblock_owned (header : Header np) (answers : Answers) (wellformed : Wellformed header vm)
    (owned : Owned memory vm) (p : Fin np) (id : BitVec 64) (vaddr : VirBytes) {pages : Nat}
    (positive : 0 < pages) (short : pages < 2 ^ 20)
    (wanted : Wanted header answers vm p True (pageAt vm p vaddr.toNat = none) id vaddr pages) :
    Ends (fun _ => True) (fun result => Owned memory result.2 ∧
        (result.1 ≠ .ok → Unchanged vm result.2))
      (getblock header answers vm p id vaddr pages) := by
  obtain ⟨order, books⟩ := wellformed.books
  have unchanged : Unchanged vm vm := ⟨rfl, rfl, rfl⟩
  unfold getblock Wanted at *
  dsimp only at wanted ⊢
  cases search : yieldedSearch vm (vm.vmYieldedBlocks
      (getYieldedAvl header { owner := (vm.vmproc p).vmEndpoint, id }))
      { owner := (vm.vmproc p).vmEndpoint, id } with
  | none => exact ⟨owned, fun _ => unchanged⟩
  | some yb =>
      have member := (books.search_some search).1
      have inTree := (books.trees _ yb).mpr ⟨member, rfl⟩
      have paged := wellformed.nodes _ yb inTree
      dsimp only
      by_cases size : (vm.yielded yb).pages = pages
      · rw [if_neg (not_not.mpr size)]
        have walk := wanted yb search size
        have start := click2abs_abs2click paged
        by_cases absent : pageAt vm p vaddr.toNat = none
        · refine (getPages_absent header answers wellformed.blocks absent positive _).bind
            fun result same => ?_
          subst same
          exact ⟨owned, fun _ => unchanged⟩
        · have keeps : Keeps vm
              (getPages header answers p pages vaddr (vm.yielded yb).physaddr vm) :=
            getPages_keeps p pages vaddr _ vm
          have reached := getPages_walk header answers p True (pageAt vm p vaddr.toNat = none) pages
            vaddr wellformed.blocks paged short
          have coming := owned.get inTree
          rw [Yielded.range_eq start.symm, size] at coming
          have got := getPages_owned header answers p pages vaddr _ wellformed.blocks coming
          rw [start] at got
          refine ((((got.and keeps).and reached).stop fun _ _ => trivial)).bind fun result after => ?_
          obtain ⟨code, vm1⟩ := result
          obtain ⟨⟨got, keeps⟩, -, -, reached⟩ := after
          obtain rfl : code = .ok := (reached.mp walk).resolve_right absent
          have books1 := keeps.books books
          obtain ⟨vm2, result, swept, -⟩ := freeyieldednode_ok books1 member false
          dsimp only
          rw [result]
          exact ⟨(freeyieldednode_freed books1 member result).got (got rfl), fun bad => absurd rfl bad⟩
      · rw [if_pos size]
        exact ⟨owned, fun _ => unchanged⟩

/-- A block has got another page, and its own one is on its way to the yielded block. -/
theorem given_owned {coming going : Set Nat} {pb : Ptr} {old new : Nat}
    (one : (vm.physBlock pb).refcount = 1) (phys : (vm.physBlock pb).phys = click2abs old)
    (next : new ∈ coming) (partition : Partition memory (spots vm none coming going)) :
    Partition memory (spots
      (vm.setBlock pb { vm.physBlock pb with phys := click2abs new }).called none
      (coming \ {new}) (going ∪ {old})) := by
  have held : holding vm (.block pb) = {old} := holding_block (by omega) phys
  have left := partition.transfer (.at (.block pb)) .going {old} (by simp) held.ge
  have given := left.transfer .coming (.at (.block pb)) {new} (by simp)
    (by simpa [transfer, spots] using next)
  convert given using 1
  funext spot
  cases spot with
  | coming => simp [transfer, spots]
  | going => simp [transfer, spots]
  | «at» place =>
      cases place with
      | free => simp [transfer, spots, holding, State.called, State.setBlock]
      | block other =>
          by_cases same : other = pb
          · subst same
            have after : holding (vm.setBlock other
                { vm.physBlock other with phys := click2abs new }).called (.block other) = {new} :=
              holding_block (by simp [State.called, State.setBlock, one])
                (by simp [State.called, State.setBlock])
            show holding _ (.block other) = _
            rw [after]
            simp [transfer, spots, held]
          · simp [transfer, spots, holding, State.called, State.setBlock, same]
      | yielded node => simp [transfer, spots, holding, State.called, State.setBlock]

/-- The pages of blocks that are one after the other. -/
def Lined (vm : State np) : Nat → List PhysRegion → Prop
  | _, [] => True
  | click, pr :: prs => (vm.physBlock pr.ph).phys = click2abs click ∧ Lined vm (click + 1) prs

theorem Contiguous.lined {pr : PhysRegion} {prs : List PhysRegion} {click : Nat}
    (start : (vm.physBlock pr.ph).phys = click2abs click) (contiguous : Contiguous vm (some pr) prs) :
    Lined vm click (pr :: prs) := by
  induction prs generalizing pr click with
  | nil => exact ⟨start, trivial⟩
  | cons next prs ih =>
      obtain ⟨after, rest⟩ := contiguous
      refine ⟨start, ih ?_ rest⟩
      rw [after pr rfl, start, click2abs, click2abs, Nat.add_mul, Nat.one_mul]

theorem Lined.congr {prs : List PhysRegion} {click : Nat} (lined : Lined vm click prs)
    (same : ∀ pr ∈ prs, vm'.physBlock pr.ph = vm.physBlock pr.ph) : Lined vm' click prs := by
  induction prs generalizing click with
  | nil => trivial
  | cons pr prs ih =>
      rw [List.forall_mem_cons] at same
      exact ⟨same.1 ▸ lined.1, ih lined.2 same.2⟩

/-- A page that is found later is that of another block. -/
theorem Found.apart (blocks : Blocks vm) {p : Fin np} {v : VirBytes} {pr : PhysRegion}
    {prs : List PhysRegion} (found : Found vm p v (pr :: prs)) (short : prs.length < 2 ^ 20) :
    ∀ other ∈ prs, other.ph ≠ pr.ph := by
  obtain ⟨⟨r, i, there⟩, one, later⟩ := found
  have located : ∀ (k : Nat) (rest : List PhysRegion), k + rest.length < 2 ^ 20 →
      Found vm p (pageAddress (v + BitVec.ofNat 32 vmPageSize) k) rest →
      ∀ other ∈ rest, other.ph ≠ pr.ph := by
    intro k rest
    induction rest generalizing k with
    | nil => exact fun _ _ => nofun
    | cons first rest ih =>
        intro small found
        rw [List.length_cons] at small
        obtain ⟨⟨r', i', there'⟩, -, after⟩ := found
        rw [List.forall_mem_cons]
        refine ⟨?_, ih (k + 1) (by omega) ?_⟩
        · rw [pageAddress_succ] at there'
          exact blocks.alone there one there' (pageAddress_ne v (Nat.succ_pos k) (by omega))
        · rwa [pageAddress, BitVec.add_assoc, ← BitVec.ofNat_add, ← Nat.succ_mul] at after
  refine located 0 prs (by omega) ?_
  rwa [pageAddress_zero]

/-- The blocks have got the new pages, and their own ones are on their way. -/
theorem given_all_owned {p : Fin np} {v : VirBytes} {prs : List PhysRegion} {going : Set Nat}
    {old new : Nat} (blocks : Blocks vm) (found : Found vm p v prs) (lined : Lined vm old prs)
    (short : prs.length < 2 ^ 20) (partition : Partition memory
      (spots vm none {page | page ∈ Finset.Ico new (new + prs.length)} going)) :
    Partition memory (spots (vm.given prs (click2abs new)) none ∅
      (going ∪ {page | page ∈ Finset.Ico old (old + prs.length)})) := by
  induction prs generalizing v old new going vm with
  | nil => simpa [State.given] using partition
  | cons pr prs ih =>
      have apart := found.apart blocks (by rw [List.length_cons] at short; omega)
      obtain ⟨-, one, later⟩ := found
      obtain ⟨start, rest⟩ := lined
      rw [List.length_cons] at partition short ⊢
      have counts : ∀ pb, ((vm.setBlock pr.ph { vm.physBlock pr.ph with
          phys := click2abs new }).called.physBlock pb).refcount = (vm.physBlock pb).refcount := by
        intro pb
        by_cases same : pb = pr.ph
        · subst same
          simp [State.called, State.setBlock]
        · simp [State.called, State.setBlock, same]
      have first : new ∈ {page | page ∈ Finset.Ico new (new + (prs.length + 1))} := by simp
      have given := given_owned one start first partition
      rw [range_cons] at given
      have next : click2abs new + vmPageSize = click2abs (new + 1) := by
        rw [click2abs, click2abs, Nat.add_mul, Nat.one_mul]
      rw [State.given, next]
      have after := ih (blocks.rephys pr.ph (click2abs_aligned new)).called
        (later.congr (fun _ => rfl) rfl counts)
        (rest.congr fun other member => Function.update_of_ne (apart other member) _ _)
        (by omega) given
      convert after using 2
      ext page
      simp only [Set.mem_union, Set.mem_ofPred_eq, Finset.mem_Ico, Set.mem_singleton_iff]
      have bound : old ≤ page ∧ page < old + (prs.length + 1) ↔
          page = old ∨ old + 1 ≤ page ∧ page < old + 1 + prs.length := by omega
      rw [bound, or_assoc]

/-- The pages for a new yielded block are no longer free. -/
theorem taken_owned {block : Yielded} {click : Nat}
    (unused : ∀ h, vm.newYielded ∉ vm.vmYieldedBlocks h)
    (free : ∀ i < block.pages, click + i ∈ vm.free) (owned : Owned memory vm) :
    Partition memory (spots (vm.taken block click) none
      {page | page ∈ Finset.Ico click (click + block.pages)} ∅) := by
  have moved := (spots_iff.mpr owned).transfer (.at .free) .coming
    {page | page ∈ Finset.Ico click (click + block.pages)} (by simp) (fun page member => by
      rw [Set.mem_ofPred_eq, Finset.mem_Ico] at member
      obtain ⟨i, rfl⟩ := Nat.exists_eq_add_of_le member.1
      exact free i (by omega))
  convert moved using 1
  funext spot
  cases spot with
  | coming => simp [transfer, spots]
  | going => simp [transfer, spots]
  | «at» place =>
      cases place with
      | free =>
          ext page
          simp [transfer, spots, holding, State.taken]
      | block pb => simp [transfer, spots, holding, State.taken]
      | yielded node =>
          by_cases isNew : node = vm.newYielded
          · subst isNew
            simp [transfer, spots, holding, State.taken, unused]
          · simp [transfer, spots, holding, State.taken, isNew]

/-- The caller's blocks have the new pages, and their old ones are those of the yielded block. -/
theorem Remembered.owned {block : Yielded} {pr : PhysRegion} {prs : List PhysRegion} {click : Nat}
    (remembered : Remembered vm vm' block (pr :: prs) click) (blocks : Blocks vm) {p : Fin np}
    {v : VirBytes} (found : Found vm p v (pr :: prs)) (contiguous : Contiguous vm none (pr :: prs))
    (short : prs.length + 1 < 2 ^ 20) (size : block.pages = prs.length + 1)
    (place : block.physaddr = (vm.physBlock pr.ph).phys)
    (free : ∀ i < block.pages, click + i ∈ vm.free) (owned : Owned memory vm) :
    Owned memory vm' := by
  have start : (vm.physBlock pr.ph).phys = click2abs (abs2click (vm.physBlock pr.ph).phys) := by
    refine (click2abs_abs2click (blocks.pages _ ?_)).symm
    rw [found.alone List.mem_cons_self]
    exact Nat.one_pos
  have taken := taken_owned remembered.unused free owned
  rw [size] at taken
  have found' : Found (vm.taken block click) p v (pr :: prs) :=
    found.congr (fun _ => rfl) rfl fun _ => rfl
  have lined : Lined (vm.taken block click) (abs2click (vm.physBlock pr.ph).phys) (pr :: prs) :=
    (contiguous.2.lined start).congr fun _ _ => rfl
  have blocks' : Blocks (vm.taken block click) := blocks.congr (fun _ => rfl) rfl rfl rfl
  have given := given_all_owned blocks' found' lined short taken
  obtain ⟨-, -, -, givenFree, -⟩ := given_regions (vm.taken block click) (pr :: prs) (click2abs click)
  have trees := (given_keeps (vm.taken block click) (pr :: prs) (click2abs click)).vmYieldedBlocks
  have yielded := (given_keeps (vm.taken block click) (pr :: prs) (click2abs click)).yielded
  have physBlock := given_congr vm (vm.taken block click) (pr :: prs) (click2abs click) rfl
  generalize (vm.taken block click).given (pr :: prs) (click2abs click) = vm1 at *
  generalize abs2click (vm.physBlock pr.ph).phys = old at *
  rw [Set.empty_union] at given
  have moved := given.transfer .going (.at (.yielded vm.newYielded))
    {page | page ∈ Finset.Ico old (old + (pr :: prs).length)} (by simp) (by simp [spots])
  rw [← spots_iff]
  convert moved using 1
  have sameTrees : ∀ h, vm1.vmYieldedBlocks h = vm.vmYieldedBlocks h := fun h => congrFun trees h
  funext spot
  cases spot with
  | coming => simp [transfer, spots]
  | going => simp [transfer, spots]
  | «at» place' =>
      cases place' with
      | free =>
          ext page
          simp [transfer, spots, holding, remembered.free, givenFree, State.taken]
      | block pb => simp [transfer, spots, holding, remembered.physBlock, physBlock]
      | yielded node =>
          by_cases isNew : node = vm.newYielded
          · subst isNew
            have range : (vm'.yielded vm.newYielded).range = block.range := by
              unfold Yielded.range
              rw [remembered.new.2.1, remembered.new.2.2]
            have own : holding vm' (.yielded vm.newYielded) = block.range := by
              ext page
              rw [← range]
              exact and_iff_right ((remembered.trees _).mpr (Or.inr rfl))
            have before : holding vm1 (.yielded vm.newYielded) = ∅ := by
              ext page
              refine iff_of_false (fun both => ?_) id
              obtain ⟨h, inTree⟩ := both.1
              rw [sameTrees] at inTree
              exact remembered.unused h inTree
            have pages := Yielded.range_eq (place.trans start)
            rw [size] at pages
            simp [transfer, spots, own, before, pages]
          · obtain ⟨-, physaddr, pages⟩ := remembered.same node isNew
            have same : holding vm' (.yielded node) = holding vm1 (.yielded node) := by
              ext page
              show (_ ∧ _) ↔ (_ ∧ _)
              have inTrees := remembered.trees node
              rw [or_iff_left isNew] at inTrees
              simp only [inTrees, Yielded.range, physaddr, pages, sameTrees, yielded, State.taken,
                Function.update_of_ne isNew]
            simp [transfer, spots, isNew, same]

theorem pageAt_congr (lists : ∀ p, (vm'.vmproc p).vmRegionsAvl = (vm.vmproc p).vmRegionsAvl)
    (regions : vm'.virRegion = vm.virRegion) (p : Fin np) (v : Nat) :
    pageAt vm' p v = pageAt vm p v := by
  unfold pageAt regionAt regionSearch
  rw [lists, regions]

theorem yieldblock_owned (header : Header np) (answers : Answers)
    (wellformed : Wellformed header vm)
    (owned : Owned memory vm) (p : Fin np) (id : BitVec 64) (vaddr : VirBytes) {pages : Nat}
    (short : pages < 2 ^ 20) :
    Ends (fun _ => True) (fun result => Owned memory result.2 ∧
        pageAt result.2 p vaddr.toNat = pageAt vm p vaddr.toNat)
      (yieldblock header answers vm p id vaddr pages) := by
  obtain ⟨order, books⟩ := wellformed.books
  have cases' := yieldblock_cases header answers wellformed.blocks p id vaddr pages
  revert cases'
  generalize yieldblock header answers vm p id vaddr pages = outcome
  intro cases'
  cases cases' with
  | stopped => trivial
  | failed => exact ⟨owned, rfl⟩
  | yielded block pr prs click search isId size wanted first place found contiguous granted blocks =>
      have remembered := rememberNode_remembered header books p first (pr :: prs) click
      refine ⟨remembered.owned wellformed.blocks found contiguous (wanted ▸ short) size place ?_ owned,
        pageAt_congr remembered.lists remembered.virRegion p _⟩
      rw [size, ← wanted]
      exact answers.allocMem_free _ _ _ _ granted

theorem freeing_owned (header : Header np) (vm : State np) (order : List Ptr) (node : Ptr)
    (books : Books header vm order) (member : node ∈ order) (kept : Paged vm ∧ Owned memory vm)
    (vm' : State np) (result : freeyieldednode header vm node true = .ok (vmPageSize, vm')) :
    Paged vm' ∧ Owned memory vm' := by
  have inTree := (books.trees _ node).mpr ⟨member, rfl⟩
  exact ⟨freeing_paged header vm order node books member kept.1 vm' result,
    (freeyieldednode_freed books member result).owned inTree (kept.1.nodes _ node inTree) kept.2⟩

/-- A request to get a block does not come to a page that is missing, or that cannot be copied for
want of memory, unless its first page is missing. -/
def Event.Whole (header : Header np) (vm : State np) : Event np → Prop
  | .yieldblockGetblock answers m => ∀ p, vmIsokendpt header vm m.source = some p →
      Asked header answers { vm with calls := 0 } m True (pageAt vm p m.vaddr.toNat = none)
  | .exit _ => False
  | _ => True

/-- The state in which a message has its block to get. -/
def Between (header : Header np) (answers : Answers) (vm : State np) (p : Fin np) (m : Message)
    (pages : Nat) (vm1 : State np) : Prop :=
  if m.yieldid = header.vmBlockidNone then vm1 = vm
  else ∃ code, yieldblock header answers vm p m.yieldid m.vaddr pages = .ok (code, vm1)

/-- What a message has to get, in the state in which it gets it. -/
structure Getting (header : Header np) (answers : Answers) (memory : Set Nat) (p : Fin np)
    (m : Message) (pages : Nat) (vm : State np) : Prop where
  wellformed : Wellformed header vm
  owned : Owned memory vm
  wanted : m.getid ≠ header.vmBlockidNone →
    Wanted header answers vm p True (pageAt vm p m.vaddr.toNat = none) m.getid m.vaddr pages

theorem yieldblock_getting {m : Message} {p : Fin np} {pages : Nat} (live : (vm.vmproc p).inUse)
    (sized : m.Sized pages) (getting : Getting header answers memory p m pages vm) :
    Ends (fun _ => True) (fun result => Getting header answers memory p m pages result.2)
      (yieldblock header answers vm p m.yieldid m.vaddr pages) := by
  have wanted := yieldblock_wanted header answers getting.wellformed live m.yieldid m.getid m.vaddr
    pages True (pageAt vm p m.vaddr.toNat = none)
  have owned := yieldblock_owned header answers getting.wellformed getting.owned p m.yieldid m.vaddr
    sized.short
  refine ((wanted.and owned).stop fun _ _ => trivial).imp fun result after => ?_
  obtain ⟨⟨wellformed', wanted'⟩, owned', page⟩ := after
  refine ⟨wellformed', owned', fun some => ?_⟩
  rw [page]
  exact wanted'.mpr (getting.wanted some)

theorem Wellformed.numbered (wellformed : Wellformed header vm) :
    Wellformed header { vm with calls := 0 } := by
  obtain ⟨order, books⟩ := wellformed.books
  have keeps : KeepsBooks vm { vm with calls := 0 } :=
    ⟨fun _ => ⟨rfl, rfl, rfl⟩, rfl, rfl, rfl, rfl, rfl, rfl, rfl, rfl⟩
  exact ⟨⟨order, keeps.books books⟩, wellformed.blocks.idle _ _, wellformed.nodes⟩

theorem getting_start (answers : Answers) (wellformed : Wellformed header vm)
    (owned : Owned memory vm) {m : Message}
    {p : Fin np} (caller : vmIsokendpt header vm m.source = some p) {pages : Nat}
    (sized : m.Sized pages)
    (whole : (.yieldblockGetblock answers m : Event np).Whole header vm) :
    Getting header answers memory p m pages { vm with calls := 0 } :=
  ⟨wellformed.numbered, owned, fun some => whole p caller some p caller pages sized⟩

theorem step_owned (wellformed : Wellformed header vm) (owned : Owned memory vm) (event : Event np)
    (whole : event.Whole header vm) :
    Ends (fun _ => True) (fun vm' => Wellformed header vm' ∧ Owned memory vm')
      (step header vm event) := by
  obtain ⟨order, books⟩ := wellformed.books
  cases event with
  | yieldblockGetblock answers m =>
      unfold step
      dsimp only
      cases caller : vmIsokendpt header vm m.source with
      | none =>
          have caller' : vmIsokendpt header { vm with calls := 0 } m.source = none := caller
          unfold doYieldblockgetblock
          rw [caller']
          trivial
      | some p =>
          have live := (vmIsokendpt_live caller).2
          have caller' : vmIsokendpt header { vm with calls := 0 } m.source = some p := caller
          have done : Ends (fun _ => True)
              (fun result => Wellformed header result.2 ∧ Owned memory result.2)
              (doYieldblockgetblock header answers { vm with calls := 0 } m) := by
            refine doYieldblockgetblock_ends (Getting header answers memory p m) caller'
              (fun _ => ⟨wellformed.numbered, owned⟩)
              (fun pages sized => getting_start answers wellformed owned caller sized whole)
              (fun pages sized =>
                yieldblock_getting live sized (getting_start answers wellformed owned caller sized whole))
              (fun pages vm1 _ getting => ⟨getting.wellformed, getting.owned⟩)
              (fun pages vm1 sized some getting => ?_)
            have wanted := getblock_wanted header answers getting.wellformed p m.getid m.vaddr
              sized.short True (pageAt vm1 p m.vaddr.toNat = none)
            have owned' := getblock_owned header answers getting.wellformed getting.owned p m.getid
              m.vaddr sized.1 sized.short (getting.wanted some)
            exact ((wanted.and owned').stop fun _ _ => trivial).imp fun result after =>
              ⟨after.1.1, after.2.1⟩
          revert done
          cases doYieldblockgetblock header answers { vm with calls := 0 } m with
          | error stop => exact id
          | ok result => exact id
  | forgetblock source id =>
      unfold step doForgetblock
      dsimp only
      cases vmIsokendpt header vm source with
      | none => trivial
      | some p =>
          dsimp only
          cases search : yieldedSearch vm (vm.vmYieldedBlocks
              (getYieldedAvl header { owner := (vm.vmproc p).vmEndpoint, id }))
              { owner := (vm.vmproc p).vmEndpoint, id } with
          | none => exact ⟨wellformed, owned⟩
          | some yb =>
              have kept := freeing_keeps (freeing_owned header) ⟨order, books⟩
                ⟨wellformed.paged, owned⟩ yb
              exact kept.bind fun result after =>
                ⟨⟨after.1, after.2.1.blocks, after.2.1.nodes⟩, after.2.2⟩
  | forgetblocks source =>
      unfold step doForgetblocks
      dsimp only
      cases caller : vmIsokendpt header vm source with
      | none => trivial
      | some p =>
          have kept := freeYieldedProcLoop_keeps (freeing_owned header) p yieldHashsize 0
            ⟨order, books⟩ ⟨wellformed.paged, owned⟩
          obtain ⟨vm', result, wellformed'⟩ :=
            freeYieldedProc_wellformed wellformed (vmIsokendpt_live caller).2
          dsimp only
          rw [result]
          exact ⟨wellformed', (kept.of_eq result).2⟩
  | freeYielded maxBytes =>
      have kept := freeYieldedLoop_keeps (freeing_owned header) maxBytes maxBytes 0
        ⟨order, books⟩ ⟨wellformed.paged, owned⟩
      obtain ⟨bytes, vm', result, wellformed'⟩ := freeYielded_wellformed wellformed maxBytes
      unfold step
      dsimp only
      rw [result]
      exact ⟨wellformed', (kept.of_eq result).2⟩
  | exit p => exact whole.elim

/-- In every run whose requests are whole every page has one owner, and a request to get a block
that fails has changed no block. -/
theorem one_owner (wellformed : Wellformed header vm) (owned : Owned memory vm)
    (events : List (Event np))
    (whole : Runs.EveryStep (next header) (Running fun vm event => event.Whole header vm) (.ok vm)
      events)
    (reached : Runs.run (next header) (.ok vm) events = .ok vm') :
    Owned memory vm' ∧ ∀ answers m p pages vm1 code vm2,
      vmIsokendpt header vm' m.source = some p → m.Sized pages →
      m.getid ≠ header.vmBlockidNone →
      (.yieldblockGetblock answers m : Event np).Whole header vm' →
      Between header answers { vm' with calls := 0 } p m pages vm1 →
      getblock header answers vm1 p m.getid m.vaddr pages = .ok (code, vm2) → code ≠ .ok →
      Unchanged vm1 vm2 := by
  have start' : Ends (fun _ : Stop => True) (fun vm => Wellformed header vm ∧ Owned memory vm)
      (.ok vm) := ⟨wellformed, owned⟩
  have kept := Runs.run_invariant (Ends (fun _ : Stop => True)
      fun vm => Wellformed header vm ∧ Owned memory vm)
    (fun outcome event before permitted => by
      cases outcome with
      | error stop => trivial
      | ok vm => exact step_owned before.1 before.2 event (permitted vm rfl))
    start' whole
  obtain ⟨wellformed', owned'⟩ := kept.of_eq reached
  refine ⟨owned', fun answers m p pages vm1 code vm2 caller sized some whole' between got bad => ?_⟩
  have start := getting_start answers wellformed' owned' caller sized whole'
  have getting : Getting header answers memory p m pages vm1 := by
    unfold Between at between
    split at between
    · rw [between]
      exact start
    · obtain ⟨code', yielded⟩ := between
      have live : (({ vm' with calls := 0 } : State np).vmproc p).inUse := (vmIsokendpt_live caller).2
      exact (yieldblock_getting live sized start).of_eq yielded
  exact ((getblock_owned header answers getting.wellformed getting.owned p m.getid m.vaddr sized.1
    sized.short (getting.wanted some)).of_eq got).2 bad

def smallMemory : Set Nat := {page | 1 ≤ page ∧ page ≤ 3 ∨ 8 ≤ page ∧ page ≤ 15}

theorem smallStart_owned : Owned smallMemory smallStart := by
  have free : ∀ page, page ∈ holding smallStart .free ↔ 8 ≤ page ∧ page ≤ 15 := by
    intro page
    show page ∈ ({8, 9, 10, 11, 12, 13, 14, 15} : Finset Nat) ↔ _
    simp only [Finset.mem_insert, Finset.mem_singleton]
    omega
  have block : ∀ pb page : Nat, page ∈ holding smallStart (.block pb) ↔ pb < 3 ∧ page = 1 + pb := by
    intro pb page
    by_cases small : pb < 3
    · have same : smallStart.physBlock pb = ⟨click2abs (1 + pb), 1⟩ := if_pos small
      rw [holding_block (by rw [same]; exact Nat.one_pos) (by rw [same]), Set.mem_singleton_iff]
      exact (and_iff_right small).symm
    · have same : smallStart.physBlock pb = ⟨mapNone, 0⟩ := if_neg small
      rw [holding_unused (by rw [same])]
      exact iff_of_false id fun both => small both.1
  have yielded : ∀ node page, page ∉ holding smallStart (.yielded node) := by
    rintro node page ⟨⟨h, inTree⟩, -⟩
    cases inTree
  rintro page (⟨low, high⟩ | isFree)
  · obtain ⟨pb, rfl⟩ := Nat.exists_eq_add_of_le low
    refine ⟨.block pb, (block pb _).mpr ⟨by omega, rfl⟩, fun other inOther => ?_⟩
    cases other with
    | free =>
        have bounds := (free _).mp inOther
        omega
    | block other =>
        have same := ((block other _).mp inOther).2
        rw [Nat.add_left_cancel same]
    | yielded node => exact absurd inOther (yielded node _)
  · refine ⟨.free, (free page).mpr isFree, fun other inOther => ?_⟩
    cases other with
    | free => rfl
    | block pb =>
        have small := (block pb page).mp inOther
        omega
    | yielded node => exact absurd inOther (yielded node page)

/-- Two pages are yielded as one block and got at two other pages. -/
theorem one_owner_small : ∃ vm', Runs.run (next smallHeader) (.ok smallStart)
      [small 5 (BitVec.allOnes 64) 0 8192, small (BitVec.allOnes 64) 5 1 8192] = .ok vm' ∧
    vm'.freed = [0] ∧ Owned smallMemory vm' := by
  have log : (Runs.run (next smallHeader) (.ok smallStart)
      [small 5 (BitVec.allOnes 64) 0 8192, small (BitVec.allOnes 64) 5 1 8192]).map State.freed =
      .ok [0] := by decide
  have whole : Runs.EveryStep (next smallHeader)
      (Running fun vm event => event.Whole smallHeader vm) (.ok smallStart)
      [small 5 (BitVec.allOnes 64) 0 8192, small (BitVec.allOnes 64) 5 1 8192] := by
    refine everyStep_running.mpr ⟨fun p caller none => absurd rfl none, fun vm yielded => ?_, trivial⟩
    have walks : (step smallHeader smallStart (small 5 (BitVec.allOnes 64) 0 8192)).map (fun vm =>
        decide (Walk (firstFit 16) { vm with calls := 0 } 0 True
          (pageAt vm 0 (9 * vmPageSize) = none) 2 (BitVec.ofNat 32 (9 * vmPageSize)) [] 0 vm.free)) =
        .ok true := by decide
    rw [yielded] at walks
    have walk := of_decide_eq_true (Except.ok.inj walks)
    have first : ∀ q, vmIsokendpt smallHeader vm 1 = some q → q = 0 := by
      intro q found
      unfold vmIsokendpt at found
      dsimp only at found
      split at found
      · exact (Option.some.inj found).symm
      · cases found
    intro p caller _ q caller' pages sized yb _ _
    obtain rfl := first p caller
    obtain rfl := first q caller'
    have size : (8192 : BitVec 32).toInt = pages * vmPageSize := sized.2
    obtain rfl : pages = 2 := by
      have value : (8192 : BitVec 32).toInt = 8192 := by decide
      unfold vmPageSize at size
      omega
    exact walk
  cases reached : Runs.run (next smallHeader) (.ok smallStart)
      [small 5 (BitVec.allOnes 64) 0 8192, small (BitVec.allOnes 64) 5 1 8192] with
  | error stop =>
      rw [reached] at log
      cases log
  | ok vm' =>
      rw [reached] at log
      exact ⟨vm', rfl, Except.ok.inj log,
        (one_owner smallStart_wellformed smallStart_owned _ whole reached).1⟩

/-- The second of two pages is missing: the first one is then in a block and in the yielded
block. -/
theorem two_owners : Wellformed smallHeader smallStart ∧ Owned smallMemory smallStart ∧
    ∃ vm', Runs.run (next smallHeader) (.ok smallStart)
      [small 5 (BitVec.allOnes 64) 0 8192, small (BitVec.allOnes 64) 5 2 8192] = .ok vm' ∧
    ¬ Owned smallMemory vm' := by
  refine ⟨smallStart_wellformed, smallStart_owned, ?_⟩
  have facts : (Runs.run (next smallHeader) (.ok smallStart)
      [small 5 (BitVec.allOnes 64) 0 8192, small (BitVec.allOnes 64) 5 2 8192]).map (fun vm =>
        (vm.physBlock 2, vm.vmYieldedBlocks 5, (vm.yielded 0).physaddr, (vm.yielded 0).pages)) =
      .ok (⟨4096, 1⟩, [0], 4096, 2) := by decide
  cases reached : Runs.run (next smallHeader) (.ok smallStart)
      [small 5 (BitVec.allOnes 64) 0 8192, small (BitVec.allOnes 64) 5 2 8192] with
  | error stop =>
      rw [reached] at facts
      cases facts
  | ok vm' =>
      rw [reached] at facts
      obtain ⟨block, tree, physaddr, pages⟩ : vm'.physBlock 2 = ⟨4096, 1⟩ ∧
          vm'.vmYieldedBlocks 5 = [0] ∧ (vm'.yielded 0).physaddr = 4096 ∧
          (vm'.yielded 0).pages = 2 := by
        simpa only [Prod.mk.injEq] using Except.ok.inj facts
      refine ⟨vm', rfl, fun owned => ?_⟩
      obtain ⟨place, -, unique⟩ := owned 1 (Or.inl ⟨Nat.le_refl 1, by decide⟩)
      have inBlock : 1 ∈ holding vm' (.block 2) := by
        show 0 < (vm'.physBlock 2).refcount ∧ (vm'.physBlock 2).phys = click2abs 1
        rw [block]
        exact ⟨Nat.one_pos, rfl⟩
      have inNode : 1 ∈ holding vm' (.yielded 0) := by
        refine ⟨⟨5, by rw [tree]; exact List.mem_singleton_self 0⟩, ?_⟩
        show (vm'.yielded 0).physaddr ≤ click2abs 1 ∧
          click2abs 1 < (vm'.yielded 0).physaddr + (vm'.yielded 0).pages * vmPageSize
        rw [physaddr, pages]
        decide
      have same := (unique _ inBlock).trans (unique _ inNode).symm
      cases same

end Ve482.Vm
