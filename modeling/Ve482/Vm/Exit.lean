import Ve482.Vm.Wellformed

set_option autoImplicit false

namespace Ve482.Vm

open Function (update)
open Fallible (Ends)

variable {np : Nat} {header : Header np} {answers : Answers} {vm vm' : State np} {order : List Ptr}

/-- The blocks also count references of a region that is no longer in a tree. -/
structure Leaving (vm : State np) (r : Ptr) (refs : List Ptr) : Prop extends Blocks vm where
  outside : r ∉ allRegions vm
  region : (vm.virRegion r).Sound
  more : ∀ pb, (procRefs vm (allRegions vm)).count pb + refs.count pb ≤ (vm.physBlock pb).refcount

/-- A region that is not in a tree loses a page. -/
theorem Leaving.unreferenced {r : Ptr} {i : Nat} {pr : PhysRegion} {refs : List Ptr}
    (leaving : Leaving vm r (pr.ph :: refs)) (small : i < (vm.virRegion r).length / vmPageSize)
    (resident : (vm.virRegion r).physblocks i = some pr) :
    ∃ vm', pbUnreferenced vm r pr = .ok vm' ∧ Leaving vm' r refs ∧ KeepsBooks vm vm' ∧
      vm'.vmproc = vm.vmproc ∧ (∀ other, other ≠ r → vm'.virRegion other = vm.virRegion other) ∧
      vm'.virRegion r = { vm.virRegion r with
        physblocks := update (vm.virRegion r).physblocks i none } := by
  have counted := leaving.more pr.ph
  rw [List.count_cons_self] at counted
  obtain ⟨free, left, -⟩ := pbUnreferenced_slot leaving.region small resident (by omega)
  have keeps := (pbUnreferenced_keeps vm r pr).of_eq left
  rw [left]
  refine ⟨_, rfl, ?_, keeps, rfl, fun other different => Function.update_of_ne different _ _,
    Function.update_self _ _ _⟩
  have kept : ∀ other ∈ allRegions vm, update vm.virRegion r { vm.virRegion r with
      physblocks := update (vm.virRegion r).physblocks i none } other = vm.virRegion other := by
    intro other member
    exact Function.update_of_ne (ne_of_mem_of_not_mem member leaving.outside) _ _
  have more : ∀ pb, (procRefs vm (allRegions vm)).count pb + refs.count pb ≤
      (update vm.physBlock pr.ph { vm.physBlock pr.ph with
        refcount := (vm.physBlock pr.ph).refcount - 1 } pb).refcount := by
    intro pb
    have before := leaving.more pb
    by_cases same : pb = pr.ph
    · subst same
      rw [Function.update_self]
      dsimp only
      omega
    · rw [List.count_cons_of_ne (Ne.symm same)] at before
      rw [Function.update_of_ne same]
      exact before
  refine
    { distinct := leaving.distinct, outside := leaving.outside, sound := ?_, aligned := ?_,
      counted := ?_, pages := ?_, fresh := ?_, region := ?_, more := ?_ }
  · intro other member
    exact (congrArg VirRegion.Sound (kept other member)).mpr (leaving.sound other member)
  · intro other member
    exact (congrArg VirRegion.vaddr (kept other member)).symm ▸ leaving.aligned other member
  · intro pb
    exact (congrArg (List.count pb) (procRefs_congr kept)).trans_le
      (Nat.le_trans (Nat.le_add_right _ _) (more pb))
  · intro pb positive
    change 0 < (update vm.physBlock pr.ph _ pb).refcount at positive
    show (update vm.physBlock pr.ph _ pb).phys % vmPageSize = 0
    by_cases same : pb = pr.ph
    · subst same
      rw [Function.update_self]
      exact leaving.pages pr.ph (by omega)
    · rw [Function.update_of_ne same] at positive ⊢
      exact leaving.pages pb positive
  · intro pb new
    have unused := leaving.fresh pb new
    show (update vm.physBlock pr.ph _ pb).refcount = 0
    by_cases same : pb = pr.ph
    · subst same
      omega
    · rwa [Function.update_of_ne same]
  · refine ⟨?_, fun j pr' small' resident' => ?_⟩
    · show (update vm.virRegion r _ r).length % vmPageSize = 0
      rw [Function.update_self]
      exact leaving.region.aligned
    · change j < (update vm.virRegion r _ r).length / vmPageSize at small'
      change (update vm.virRegion r _ r).physblocks j = some pr' at resident'
      rw [Function.update_self] at small' resident'
      by_cases isSlot : j = i
      · subst isSlot
        simp at resident'
      · exact leaving.region.offsets j pr' small'
          ((Function.update_of_ne isSlot _ _).symm.trans resident')
  · intro pb
    exact (congrArg (fun refs' => List.count pb refs' + refs.count pb)
      (procRefs_congr kept)).trans_le (more pb)

/-- All pages of a region that is not in a tree are given back. -/
theorem mapSubfreeLoop_leaving {r : Ptr} (count first : Nat)
    (inside : first + count = (vm.virRegion r).length / vmPageSize)
    (leaving : Leaving vm r ((vm.virRegion r).refs first count)) :
    ∃ vm', mapSubfreeLoop r 0 (vm.virRegion r).length count (first * vmPageSize) vm = .ok vm' ∧
      Leaving vm' r [] ∧ KeepsBooks vm vm' ∧ vm'.vmproc = vm.vmproc ∧
      ∀ other, other ≠ r → vm'.virRegion other = vm.virRegion other := by
  induction count generalizing first vm with
  | zero => exact ⟨vm, rfl, leaving, .refl vm, rfl, fun _ _ => rfl⟩
  | succ count ih =>
      have small : first < (vm.virRegion r).length / vmPageSize := by omega
      have next : first * vmPageSize + vmPageSize = (first + 1) * vmPageSize := by
        rw [Nat.add_mul, Nat.one_mul]
      rw [mapSubfreeLoop, leaving.region.get small, ok_bind, next]
      cases resident : (vm.virRegion r).physblocks first with
      | none =>
          rw [VirRegion.refs_none count resident] at leaving
          exact ih (first + 1) (by omega) leaving
      | some pr =>
          have offset := leaving.region.offsets first pr small resident
          have below := slot_lt small
          rw [VirRegion.refs_some count resident] at leaving
          obtain ⟨vm1, result, leaving1, keeps, procs, others, region⟩ :=
            leaving.unreferenced small resident
          have refs : (vm1.virRegion r).refs (first + 1) count =
              (vm.virRegion r).refs (first + 1) count := by
            rw [region]
            exact VirRegion.refs_congr fun j low _ => Function.update_of_ne (by omega) _ _
          have length : (vm1.virRegion r).length = (vm.virRegion r).length := by rw [region]
          dsimp only
          rw [assert_true _ (Nat.zero_le _), assert_true _ (by omega), result, ok_bind]
          rw [← refs] at leaving1
          obtain ⟨vm', result', leaving', keeps', procs', others'⟩ :=
            ih (first + 1) (by rw [length]; omega) leaving1
          rw [length] at result'
          refine ⟨vm', result', leaving', keeps.trans keeps', procs'.trans procs,
            fun other different => ?_⟩
          rw [others' other different, others other different]

theorem mapFree_leaving {r : Ptr} (leaving : Leaving vm r (vm.virRegion r).allRefs) :
    ∃ vm', mapFree vm r = .ok vm' ∧ Blocks vm' ∧ KeepsBooks vm vm' ∧ vm'.vmproc = vm.vmproc ∧
      ∀ other, other ≠ r → vm'.virRegion other = vm.virRegion other := by
  have whole := leaving.region.aligned
  have pages : ((vm.virRegion r).length + vmPageSize - 1) / vmPageSize =
      (vm.virRegion r).length / vmPageSize := by
    unfold vmPageSize at *
    omega
  obtain ⟨vm1, result, leaving1, keeps, procs, others⟩ := mapSubfreeLoop_leaving
    ((vm.virRegion r).length / vmPageSize) 0 (Nat.zero_add _) leaving
  let region := vm1.virRegion r
  refine ⟨{ vm1 with virRegion := update vm1.virRegion r { region with physblocks := fun _ => none } },
    ?_, ?_, ?_, procs, fun other different => ?_⟩
  · unfold mapFree mapSubfree
    rw [pages, Nat.zero_add]
    rw [Nat.zero_mul] at result
    rw [result]
    rfl
  · exact leaving1.of_regions (fun _ => rfl) (fun other member => Function.update_of_ne
      (ne_of_mem_of_not_mem member leaving1.outside) _ _) rfl rfl
  · exact keeps.trans ⟨fun _ => ⟨rfl, rfl, rfl⟩, rfl, rfl, rfl, rfl, rfl, rfl, rfl, rfl⟩
  · rw [← others other different]
    exact Function.update_of_ne different _ _

/-- The regions of all processes, with one of them taken out. -/
theorem allRegions_perm {p : Fin np} {r : Ptr} {regions : List Ptr}
    (list : (vm.vmproc p).vmRegionsAvl = r :: regions) :
    (allRegions vm).Perm (r :: allRegions
      (vm.setProc p { vm.vmproc p with vmRegionsAvl := regions })) := by
  have members := List.perm_cons_erase (List.mem_finRange p)
  have nodup := List.nodup_finRange np
  have split (vm : State np) : (allRegions vm).Perm ((vm.vmproc p).vmRegionsAvl ++
      ((List.finRange np).erase p).flatMap fun q => (vm.vmproc q).vmRegionsAvl) :=
    members.flatMap_right _
  have others : (((List.finRange np).erase p).flatMap fun q => ((vm.setProc p
      { vm.vmproc p with vmRegionsAvl := regions }).vmproc q).vmRegionsAvl) =
      ((List.finRange np).erase p).flatMap fun q => (vm.vmproc q).vmRegionsAvl := by
    refine List.flatMap_congr fun q member => ?_
    have different := (nodup.mem_erase_iff.mp member).1
    simp [State.setProc, different]
  have after := split (vm.setProc p { vm.vmproc p with vmRegionsAvl := regions })
  rw [others] at after
  have own : ((vm.setProc p { vm.vmproc p with vmRegionsAvl := regions }).vmproc p).vmRegionsAvl =
      regions := by
    simp [State.setProc]
  rw [own] at after
  have before := split vm
  rw [list] at before
  exact before.trans (after.symm.cons r)

/-- A region that is taken out of a tree. -/
theorem Blocks.leave (blocks : Blocks vm) {p : Fin np} {r : Ptr} {regions : List Ptr}
    (list : (vm.vmproc p).vmRegionsAvl = r :: regions) :
    Leaving (vm.setProc p { vm.vmproc p with vmRegionsAvl := regions }) r
      (vm.virRegion r).allRefs := by
  have perm := allRegions_perm list
  have distinct := List.nodup_cons.mp (perm.nodup blocks.distinct)
  have more : ∀ pb, (procRefs vm (allRegions (vm.setProc p
      { vm.vmproc p with vmRegionsAvl := regions }))).count pb + (vm.virRegion r).allRefs.count pb ≤
      (vm.physBlock pb).refcount := by
    intro pb
    have counted := blocks.counted pb
    have split := (perm.flatMap_right fun r => (vm.virRegion r).allRefs).count_eq pb
    rw [List.flatMap_cons, List.count_append] at split
    unfold procRefs at counted ⊢
    omega
  have later : ∀ other ∈ allRegions (vm.setProc p { vm.vmproc p with vmRegionsAvl := regions }),
      other ∈ allRegions vm := fun other member => perm.mem_iff.mpr (List.mem_cons_of_mem r member)
  exact
    { distinct := distinct.2
      sound := fun other member => blocks.sound other (later other member)
      aligned := fun other member => blocks.aligned other (later other member)
      counted := fun pb => Nat.le_trans (Nat.le_add_right _ _) (more pb)
      pages := blocks.pages
      fresh := blocks.fresh
      outside := distinct.1
      region := blocks.sound r (perm.mem_iff.mpr List.mem_cons_self)
      more := more }

theorem mapFreeRegions_blocks {p : Fin np} (regions : List Ptr) (blocks : Blocks vm)
    (list : (vm.vmproc p).vmRegionsAvl = regions) :
    ∃ vm', mapFreeRegions p regions vm = .ok vm' ∧ Blocks vm' ∧ KeepsBooks vm vm' ∧
      (vm'.vmproc p).vmRegionsAvl = [] := by
  induction regions generalizing vm with
  | nil => exact ⟨vm, rfl, blocks, .refl vm, list⟩
  | cons r regions ih =>
      have rest : (vm.vmproc p).vmRegionsAvl.erase r = regions := by rw [list, List.erase_cons_head]
      obtain ⟨vm1, result, blocks1, keeps1, procs, -⟩ := mapFree_leaving (blocks.leave list)
      have list1 : (vm1.vmproc p).vmRegionsAvl = regions := by
        rw [procs]
        simp [State.setProc]
      obtain ⟨vm', result', blocks', keeps', none⟩ := ih blocks1 list1
      refine ⟨vm', ?_, blocks', (keepsBooks_setRegions vm p regions).trans (keeps1.trans keeps'), none⟩
      rw [mapFreeRegions, rest, result]
      exact result'

/-- What is well formed of a state besides its books. -/
structure Paged (vm : State np) : Prop where
  blocks : Blocks vm
  nodes : ∀ h, ∀ node ∈ vm.vmYieldedBlocks h, (vm.yielded node).physaddr % vmPageSize = 0

theorem Wellformed.paged (wellformed : Wellformed header vm) : Paged vm :=
  ⟨wellformed.blocks, wellformed.nodes⟩

theorem freeing_paged (header : Header np) (vm : State np) (order : List Ptr) (node : Ptr)
    (books : Books header vm order) (member : node ∈ order) (paged : Paged vm) (vm' : State np)
    (result : freeyieldednode header vm node true = .ok (vmPageSize, vm')) : Paged vm' := by
  obtain ⟨vm'', result', swept, -⟩ := freeyieldednode_ok books member true
  obtain ⟨-, rfl⟩ := Prod.mk.inj (Except.ok.inj (result.symm.trans result'))
  have wellformed := (freeyieldednode_freed books member result).wellformed
    ⟨⟨order, books⟩, paged.blocks, paged.nodes⟩ ⟨_, swept.books⟩
  exact wellformed.paged

theorem freeYieldedProc_wellformed (wellformed : Wellformed header vm) {p : Fin np}
    (live : (vm.vmproc p).inUse) :
    ∃ vm', freeYieldedProc header vm p = .ok vm' ∧ Wellformed header vm' := by
  obtain ⟨order, books⟩ := wellformed.books
  obtain ⟨vm', result, swept⟩ := freeYieldedProc_ok live books
  have kept := freeYieldedProcLoop_keeps (freeing_paged header) p yieldHashsize 0 ⟨order, books⟩
    wellformed.paged
  have paged := kept.of_eq result
  exact ⟨vm', result, ⟨_, swept.books⟩, paged.blocks, paged.nodes⟩

theorem doForgetblock_wellformed (wellformed : Wellformed header vm) {source : Endpoint}
    {p : Fin np}
    (caller : vmIsokendpt header vm source = some p) (id : BitVec 64) :
    ∃ vm', doForgetblock header vm source id = .ok vm' ∧ Wellformed header vm' := by
  obtain ⟨order, books⟩ := wellformed.books
  unfold doForgetblock
  rw [caller]
  dsimp only
  cases search : yieldedSearch vm (vm.vmYieldedBlocks
      (getYieldedAvl header { owner := (vm.vmproc p).vmEndpoint, id }))
      { owner := (vm.vmproc p).vmEndpoint, id } with
  | none => exact ⟨vm, rfl, wellformed⟩
  | some yb =>
      have member := (books.search_some search).1
      obtain ⟨vm', result, swept, -⟩ := freeyieldednode_ok books member true
      have paged := freeing_paged header vm order yb books member wellformed.paged vm' result
      refine ⟨vm', ?_, ⟨_, swept.books⟩, paged.blocks, paged.nodes⟩
      dsimp only
      rw [result]
      rfl

theorem freeYielded_wellformed (wellformed : Wellformed header vm) (maxBytes : Nat) :
    ∃ bytes vm', freeYielded header vm maxBytes = .ok (bytes, vm') ∧ Wellformed header vm' := by
  obtain ⟨order, books⟩ := wellformed.books
  obtain ⟨bytes, vm', kept, gone, result, -, swept, -⟩ := freeYielded_ok maxBytes books
  have paged := (freeYieldedLoop_keeps (freeing_paged header) maxBytes maxBytes 0 ⟨order, books⟩
    wellformed.paged).of_eq result
  exact ⟨bytes, vm', result, ⟨_, swept.books⟩, paged.blocks, paged.nodes⟩

theorem mapFreeProc_wellformed (wellformed : Wellformed header vm) {p : Fin np}
    (live : (vm.vmproc p).inUse) :
    ∃ vm', mapFreeProc header vm p = .ok vm' ∧
      Wellformed header (vm'.setProc p { vm'.vmproc p with inUse := false }) := by
  obtain ⟨order, books⟩ := wellformed.books
  obtain ⟨vm1, result, blocks1, keeps, none⟩ := mapFreeRegions_blocks _ wellformed.blocks
    (Eq.refl (vm.vmproc p).vmRegionsAvl)
  have cleared := keeps.trans (keepsBooks_setRegions vm1 p [])
  have lists : ∀ q, ((vm1.setProc p { vm1.vmproc p with vmRegionsAvl := [] }).vmproc q).vmRegionsAvl =
      (vm1.vmproc q).vmRegionsAvl := by
    intro q
    by_cases own : q = p
    · subst own
      simp [State.setProc, none]
    · simp [State.setProc, own]
  have wellformed1 : Wellformed header (vm1.setProc p { vm1.vmproc p with vmRegionsAvl := [] }) := by
    refine ⟨⟨order, cleared.books books⟩, blocks1.congr lists rfl rfl rfl, fun h node inTree => ?_⟩
    rw [cleared.vmYieldedBlocks] at inTree
    rw [cleared.yielded]
    exact wellformed.nodes h node inTree
  have live1 : ((vm1.setProc p { vm1.vmproc p with vmRegionsAvl := [] }).vmproc p).inUse := by
    rw [(cleared.vmproc p).2.1]
    exact live
  obtain ⟨vm', result', wellformed'⟩ := freeYieldedProc_wellformed wellformed1 live1
  have whole : mapFreeProc header vm p = .ok vm' := by
    unfold mapFreeProc
    rw [result]
    exact result'
  have swept := (mapFreeProc_ends books live).of_eq whole
  refine ⟨vm', whole, ⟨_, swept.books.ended fun node member => ?_⟩,
    wellformed'.blocks.congr (fun q => ?_) rfl rfl rfl, wellformed'.nodes⟩
  · have owner := (List.mem_filter.mp member).2
    rw [swept.ids, (swept.processes p).1]
    exact of_decide_eq_true owner
  · by_cases own : q = p
    · subst own
      simp [State.setProc]
    · simp [State.setProc, own]

end Ve482.Vm
