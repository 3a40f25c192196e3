import Ve482.Vm.Region
import Ve482.Lib.Chain
import Ve482.Lib.Fallible
import Ve482.Lib.Runs

set_option autoImplicit false

namespace Ve482.Vm

open Function (update)
open Chain (Linked)
open Fallible (Ends)

variable {np : Nat} {header : Header np} {answers : Answers} {stops : Stop → Prop}

theorem assert_ends {condition : Prop} [Decidable condition] {routine : Routine} {β : Type}
    {post : β → Prop} {rest : Unit → Except Stop β}
    (failed : ¬ condition → stops (.assertion routine))
    (after : condition → Ends stops post (rest ())) :
    Ends stops post (assert condition routine >>= rest) := by
  unfold assert
  by_cases holds : condition
  · rw [if_pos holds]
    exact after holds
  · rw [if_neg holds]
    exact failed holds

/-- Only regions, blocks and free pages have changed. -/
structure KeepsBooks (vm vm' : State np) : Prop where
  vmproc : ∀ p, (vm'.vmproc p).vmEndpoint = (vm.vmproc p).vmEndpoint ∧
    (vm'.vmproc p).inUse = (vm.vmproc p).inUse ∧ (vm'.vmproc p).vmYielded = (vm.vmproc p).vmYielded
  yielded : vm'.yielded = vm.yielded
  newYielded : vm'.newYielded = vm.newYielded
  vmYieldedBlocks : vm'.vmYieldedBlocks = vm.vmYieldedBlocks
  lruYoungest : vm'.lruYoungest = vm.lruYoungest
  lruOldest : vm'.lruOldest = vm.lruOldest
  yields : vm'.yields = vm.yields
  yieldedAt : vm'.yieldedAt = vm.yieldedAt
  freed : vm'.freed = vm.freed

theorem KeepsBooks.refl (vm : State np) : KeepsBooks vm vm :=
  ⟨fun _ => ⟨rfl, rfl, rfl⟩, rfl, rfl, rfl, rfl, rfl, rfl, rfl, rfl⟩

theorem KeepsBooks.trans {first second third : State np} (left : KeepsBooks first second)
    (right : KeepsBooks second third) : KeepsBooks first third :=
  ⟨fun p => ⟨(right.vmproc p).1.trans (left.vmproc p).1,
      (right.vmproc p).2.1.trans (left.vmproc p).2.1, (right.vmproc p).2.2.trans (left.vmproc p).2.2⟩,
    right.yielded.trans left.yielded,
    right.newYielded.trans left.newYielded, right.vmYieldedBlocks.trans left.vmYieldedBlocks,
    right.lruYoungest.trans left.lruYoungest, right.lruOldest.trans left.lruOldest,
    right.yields.trans left.yields, right.yieldedAt.trans left.yieldedAt,
    right.freed.trans left.freed⟩

/-- The stops of a function that only works on regions and blocks are of no interest here. -/
abbrev Keeps {β : Type} (vm : State np) (outcome : Except Stop (β × State np)) : Prop :=
  Ends (fun _ => True) (fun result => KeepsBooks vm result.2) outcome

theorem keepsBooks_setBlock (vm : State np) (pb : Ptr) (block : PhysBlock) :
    KeepsBooks vm (vm.setBlock pb block) :=
  ⟨fun _ => ⟨rfl, rfl, rfl⟩, rfl, rfl, rfl, rfl, rfl, rfl, rfl, rfl⟩

theorem keepsBooks_called (vm : State np) : KeepsBooks vm vm.called :=
  ⟨fun _ => ⟨rfl, rfl, rfl⟩, rfl, rfl, rfl, rfl, rfl, rfl, rfl, rfl⟩

theorem keepsBooks_freeMem (vm : State np) (click pages : Nat) :
    KeepsBooks vm (vm.freeMem click pages) :=
  ⟨fun _ => ⟨rfl, rfl, rfl⟩, rfl, rfl, rfl, rfl, rfl, rfl, rfl, rfl⟩

theorem physblockGet_ends (region : VirRegion np) (offset : Nat) :
    Ends (fun _ => True) (fun _ => True) (physblockGet region offset) := by
  cases physblockGet region offset <;> trivial

theorem physblockGet_slot (region : VirRegion np) (offset : Nat) :
    Ends (fun _ => True) (fun found => offset % vmPageSize = 0 ∧ offset < region.length ∧
      found = region.physblocks (offset / vmPageSize) ∧ ∀ pr ∈ found, pr.offset = offset)
      (physblockGet region offset) := by
  unfold physblockGet
  refine assert_ends (fun _ => trivial) fun aligned => assert_ends (fun _ => trivial) fun small => ?_
  cases resident : region.physblocks (offset / vmPageSize) with
  | none => exact ⟨aligned, small, rfl, nofun⟩
  | some pr =>
      refine assert_ends (fun _ => trivial) fun there => ⟨aligned, small, rfl, fun found same => ?_⟩
      rw [← Option.some.inj same]
      exact there

theorem physblockSet_slot (vm : State np) (r : Ptr) (offset : Nat) (pr : Option PhysRegion) :
    Ends (fun _ => True) (fun vm' => vm' = vm.setSlot r (offset / vmPageSize) pr)
      (physblockSet vm r offset pr) := by
  unfold physblockSet
  refine assert_ends (fun _ => trivial) fun _ => assert_ends (fun _ => trivial) fun _ => ?_
  cases pr with
  | none => exact assert_ends (fun _ => trivial) fun _ => rfl
  | some pr =>
      refine assert_ends (fun _ => trivial) fun _ => assert_ends (fun _ => trivial) fun _ => ?_
      rfl

theorem physblockSet_keeps (vm : State np) (r : Ptr) (offset : Nat) (pr : Option PhysRegion) :
    Ends (fun _ => True) (KeepsBooks vm) (physblockSet vm r offset pr) := by
  refine (physblockSet_slot vm r offset pr).imp fun vm' set => ?_
  subst set
  exact ⟨fun _ => ⟨rfl, rfl, rfl⟩, rfl, rfl, rfl, rfl, rfl, rfl, rfl, rfl⟩

theorem pbNew_keeps (answers : Answers) (vm : State np) : KeepsBooks vm (pbNew answers vm).2 := by
  unfold pbNew
  by_cases memory : answers.slaballoc vm.calls
  · rw [if_pos memory]
    exact ⟨fun _ => ⟨rfl, rfl, rfl⟩, rfl, rfl, rfl, rfl, rfl, rfl, rfl, rfl⟩
  · rw [if_neg memory]
    exact keepsBooks_called vm

theorem pbReference_keeps (answers : Answers) (vm : State np) (pb : Ptr) (offset : Nat) (r : Ptr) :
    Keeps vm (pbReference answers vm pb offset r) := by
  unfold pbReference
  by_cases memory : answers.slaballoc vm.calls
  · rw [if_pos memory]
    refine (physblockSet_keeps _ r offset _).bind fun vm' keeps => ?_
    exact (keepsBooks_called vm).trans ((keepsBooks_setBlock _ _ _).trans keeps)
  · rw [if_neg memory]
    exact keepsBooks_called vm

theorem pbUnreferenced_keeps (vm : State np) (r : Ptr) (pr : PhysRegion) :
    Ends (fun _ => True) (KeepsBooks vm) (pbUnreferenced vm r pr) := by
  unfold pbUnreferenced
  refine assert_ends (fun _ => trivial) fun _ => ?_
  refine (physblockSet_keeps _ r _ _).imp fun vm' keeps => KeepsBooks.trans ?_ keeps
  split
  · exact (keepsBooks_setBlock _ _ _).trans (keepsBooks_freeMem _ _ _)
  · exact keepsBooks_setBlock _ _ _

theorem mapPhWritept_keeps (answers : Answers) (vm : State np) (r : Ptr) (pr : PhysRegion) :
    Keeps vm (mapPhWritept answers vm r pr) := by
  unfold mapPhWritept
  refine assert_ends (fun _ => trivial) fun _ => assert_ends (fun _ => trivial) fun _ =>
    assert_ends (fun _ => trivial) fun _ => ?_
  exact keepsBooks_called vm

theorem evPagefault_keeps (answers : Answers) (vm : State np) (pb : Ptr) :
    KeepsBooks vm (evPagefault answers vm pb).2 := by
  unfold evPagefault
  cases answers.allocMem vm.calls 1 vm.free with
  | none => exact keepsBooks_called vm
  | some click => exact ⟨fun _ => ⟨rfl, rfl, rfl⟩, rfl, rfl, rfl, rfl, rfl, rfl, rfl, rfl⟩

theorem mapPf_keeps (vm : State np) (r : Ptr) (offset : Nat) :
    Keeps vm (mapPf header answers vm r offset) := by
  unfold mapPf
  refine assert_ends (fun _ => trivial) fun _ => assert_ends (fun _ => trivial) fun _ =>
    assert_ends (fun _ => trivial) fun _ => (physblockGet_ends _ _).bind fun found _ => ?_
  cases found with
  | some pr => trivial
  | none =>
      have allocated := pbNew_keeps answers vm
      revert allocated
      generalize pbNew answers vm = new
      intro allocated
      obtain ⟨pb, vm1⟩ := new
      cases pb with
      | none => exact allocated
      | some pb =>
          refine (pbReference_keeps answers vm1 pb _ r).bind fun linked keeps => ?_
          obtain ⟨pr, vm2⟩ := linked
          have before := allocated.trans keeps
          cases pr with
          | none => exact before
          | some pr =>
              dsimp only
              split
              · exact (mapPhWritept_keeps answers vm2 r pr).imp fun _ keeps => before.trans keeps
              · have faulted := before.trans (evPagefault_keeps answers vm2 pb)
                revert faulted
                generalize evPagefault answers vm2 pb = fault
                intro faulted
                obtain ⟨filled, vm3⟩ := fault
                cases filled with
                | true =>
                    exact (mapPhWritept_keeps answers vm3 r pr).imp fun _ keeps =>
                      faulted.trans keeps
                | false =>
                    refine (pbUnreferenced_keeps vm3 r pr).bind fun vm4 keeps => ?_
                    exact faulted.trans keeps

theorem copyAbs2region_keeps (vm : State np) (r : Ptr) (offset : Nat) :
    Keeps vm (copyAbs2region answers vm r offset) := by
  unfold copyAbs2region
  refine (physblockGet_ends _ _).bind fun found _ => ?_
  cases found with
  | none => exact .refl vm
  | some pr =>
      refine assert_ends (fun _ => trivial) fun _ => ?_
      split
      · exact .refl vm
      · split
        · exact .refl vm
        · exact keepsBooks_called vm

theorem mapClonePhBlock_keeps (vm : State np) (r : Ptr) (pr : PhysRegion) :
    Keeps vm (mapClonePhBlock header answers vm r pr) := by
  unfold mapClonePhBlock
  refine assert_ends (fun _ => trivial) fun _ => (pbUnreferenced_keeps vm r pr).bind fun vm1 keeps1 =>
    assert_ends (fun _ => trivial) fun _ => assert_ends (fun _ => trivial) fun _ =>
    (mapPf_keeps vm1 r _).bind fun mapped keeps2 => ?_
  obtain ⟨done, vm2⟩ := mapped
  have before := keeps1.trans keeps2
  cases done with
  | false => exact before
  | true =>
      refine (copyAbs2region_keeps vm2 r _).bind fun copied keeps3 => ?_
      obtain ⟨done, vm3⟩ := copied
      cases done with
      | false => trivial
      | true =>
          refine (physblockGet_ends _ _).bind fun found _ => ?_
          cases found with
          | none => trivial
          | some pr => exact assert_ends (fun _ => trivial) fun _ => before.trans keeps3

theorem mapLookup_ends (vm : State np) (p : Fin np) (offset : Nat) :
    Ends (fun _ => True) (fun _ => True) (mapLookup vm p offset) := by
  cases mapLookup vm p offset <;> trivial

theorem getCleanPhysRegion_keeps (vm : State np) (p : Fin np) (vaddr : Nat) :
    Keeps vm (getCleanPhysRegion header answers vm p vaddr) := by
  unfold getCleanPhysRegion
  refine (mapLookup_ends vm p vaddr).bind fun found _ => ?_
  rcases found with _ | ⟨r, _ | pr⟩
  · exact .refl vm
  · exact .refl vm
  · refine assert_ends (fun _ => trivial) fun _ => assert_ends (fun _ => trivial) fun _ =>
      assert_ends (fun _ => trivial) fun _ => ?_
    split
    · refine (mapClonePhBlock_keeps vm r pr).bind fun cloned keeps => ?_
      obtain ⟨clone, vm1⟩ := cloned
      cases clone with
      | none => exact keeps
      | some clone => exact assert_ends (fun _ => trivial) fun _ => keeps
    · exact assert_ends (fun _ => trivial) fun _ => .refl vm

theorem getPages_keeps (p : Fin np) (pages : Nat) (vaddr : VirBytes) (phaddr : Nat)
    (vm : State np) :
    Keeps vm (getPages header answers p pages vaddr phaddr vm) := by
  induction pages generalizing vaddr phaddr vm with
  | zero => exact .refl vm
  | succ pages ih =>
      rw [getPages]
      refine (getCleanPhysRegion_keeps vm p _).bind fun found keeps => ?_
      rcases found with ⟨_ | ⟨r, pr⟩, vm1⟩
      · exact keeps
      · refine assert_ends (fun _ => trivial) fun _ =>
          (mapPhWritept_keeps answers _ r pr).bind fun written keeps' => ?_
        obtain ⟨done, vm2⟩ := written
        have before : KeepsBooks vm vm2 := keeps.trans
          ((keepsBooks_freeMem _ _ _).trans ((keepsBooks_setBlock _ _ _).trans keeps'))
        cases done with
        | false => trivial
        | true => exact (ih _ _ vm2).imp fun _ later => before.trans later

theorem yieldPages_keeps (p : Fin np) (pages : Nat) (v : VirBytes) (newPhaddr : Nat)
    (vm : State np) :
    Ends (fun _ => True) (KeepsBooks vm) (yieldPages answers p pages v newPhaddr vm) := by
  induction pages generalizing v newPhaddr vm with
  | zero => exact .refl vm
  | succ pages ih =>
      rw [yieldPages]
      refine (mapLookup_ends vm p _).bind fun found _ => ?_
      rcases found with _ | ⟨r, _ | pr⟩
      · trivial
      · trivial
      · refine assert_ends (fun _ => trivial) fun _ =>
          (mapPhWritept_keeps answers _ r pr).bind fun written keeps => ?_
        obtain ⟨done, vm1⟩ := written
        have before : KeepsBooks vm vm1 := (keepsBooks_setBlock _ _ _).trans keeps
        cases done with
        | false => trivial
        | true => exact (ih _ _ vm1).imp fun _ later => before.trans later

theorem BlockId.Less.irrefl (id : BlockId) : ¬ id.Less id := by
  rintro (less | ⟨-, less⟩)
  · exact Int.lt_irrefl _ less
  · exact BitVec.lt_irrefl _ less

theorem BlockId.Less.trans {first second third : BlockId} (left : first.Less second)
    (right : second.Less third) : first.Less third := by
  rcases left with less | ⟨same, less⟩
  · rcases right with less' | ⟨same', -⟩
    · exact Or.inl (Int.lt_trans less less')
    · exact Or.inl (same' ▸ less)
  · rcases right with less' | ⟨same', less'⟩
    · exact Or.inl (same ▸ less')
    · exact Or.inr ⟨same.trans same', BitVec.lt_trans less less'⟩

theorem BlockId.less_of_not {first second : BlockId} (different : first ≠ second)
    (greater : ¬ first.Less second) : second.Less first := by
  rcases Int.lt_trichotomy first.owner second.owner with less | same | more
  · exact absurd (Or.inl less) greater
  · refine Or.inr ⟨same.symm, ?_⟩
    have ids : first.id ≠ second.id := by
      intro ids
      cases first
      cases second
      exact different (by rw [BlockId.mk.injEq]; exact ⟨same, ids⟩)
    have notLess : ¬ first.id < second.id := fun less => greater (Or.inr ⟨same, less⟩)
    exact BitVec.lt_of_le_ne (BitVec.not_lt.mp notLess) (Ne.symm ids)
  · exact Or.inl more

/-! The invariant. -/

/-- `order` is the list of the yielded blocks, from the youngest to the oldest. -/
structure Books (header : Header np) (vm : State np) (order : List Ptr) : Prop where
  linked : Linked (fun node => (vm.yielded node).older) (fun node => (vm.yielded node).younger)
    vm.lruYoungest vm.lruOldest order
  trees : ∀ h node, node ∈ vm.vmYieldedBlocks h ↔
    node ∈ order ∧ getYieldedAvl header (vm.yielded node).id = h
  sorted : ∀ h, (vm.vmYieldedBlocks h).Pairwise fun left right =>
    (vm.yielded left).id.Less (vm.yielded right).id
  times : order.Pairwise fun young old => vm.yieldedAt old < vm.yieldedAt young
  past : ∀ node ∈ order, vm.yieldedAt node < vm.yields
  counts : ∀ p, (vm.vmproc p).inUse → (vm.vmproc p).vmYielded =
    order.countP fun node => (vm.yielded node).id.owner = (vm.vmproc p).vmEndpoint
  owners : ∀ node ∈ order, (vmIsokendpt header vm (vm.yielded node).id.owner).isSome
  slots : ∀ p, (vm.vmproc p).inUse → header.endpointP (vm.vmproc p).vmEndpoint = p
  fresh : ∀ node ∈ order, node < vm.newYielded

variable {vm vm' : State np} {order : List Ptr}

theorem vmIsokendpt_congr (same : ∀ p, (vm'.vmproc p).vmEndpoint = (vm.vmproc p).vmEndpoint ∧
    (vm'.vmproc p).inUse = (vm.vmproc p).inUse) (endpoint : Endpoint) :
    vmIsokendpt header vm' endpoint = vmIsokendpt header vm endpoint := by
  unfold vmIsokendpt
  dsimp only
  rw [(same _).1, (same _).2]

theorem KeepsBooks.books (keeps : KeepsBooks vm vm') (books : Books header vm order) :
    Books header vm' order := by
  obtain ⟨vmproc, yielded, newYielded, trees, youngest, oldest, yields, yieldedAt, -⟩ := keeps
  have isok (endpoint : Endpoint) :
      vmIsokendpt header vm' endpoint = vmIsokendpt header vm endpoint :=
    vmIsokendpt_congr (fun p => ⟨(vmproc p).1, (vmproc p).2.1⟩) endpoint
  refine ⟨?_, ?_, ?_, ?_, ?_, ?_, ?_, ?_, ?_⟩
  · rw [yielded, youngest, oldest]
    exact books.linked
  · rw [yielded, trees]
    exact books.trees
  · rw [yielded, trees]
    exact books.sorted
  · rw [yieldedAt]
    exact books.times
  · rw [yieldedAt, yields]
    exact books.past
  · intro p live
    rw [(vmproc p).2.1] at live
    rw [(vmproc p).1, (vmproc p).2.2, yielded]
    exact books.counts p live
  · intro node member
    rw [isok, yielded]
    exact books.owners node member
  · intro p live
    rw [(vmproc p).2.1] at live
    rw [(vmproc p).1]
    exact books.slots p live
  · rw [newYielded]
    exact books.fresh

theorem Books.nodup (books : Books header vm order) : order.Nodup := books.linked.forward.nodup

theorem Books.nodupTree (books : Books header vm order) (h : Nat) :
    (vm.vmYieldedBlocks h).Nodup := by
  apply (books.sorted h).imp
  intro left right less same
  rw [same] at less
  exact BlockId.Less.irrefl _ less

/-- Two nodes with the same key are the same. -/
theorem Books.unique (books : Books header vm order) {left right : Ptr} (inLeft : left ∈ order)
    (inRight : right ∈ order) (same : (vm.yielded left).id = (vm.yielded right).id) :
    left = right := by
  by_contra different
  have treeLeft := (books.trees (getYieldedAvl header (vm.yielded left).id) left).mpr ⟨inLeft, rfl⟩
  have treeRight := (books.trees (getYieldedAvl header (vm.yielded left).id) right).mpr
    ⟨inRight, by rw [same]⟩
  have sorted := books.sorted (getYieldedAvl header (vm.yielded left).id)
  have distinct := List.Pairwise.forall_of_forall_of_flip
    (R := fun left right => left ≠ right → (vm.yielded left).id ≠ (vm.yielded right).id)
    (fun node _ differs => absurd rfl differs)
    (sorted.imp fun less _ same => BlockId.Less.irrefl _ (same ▸ less))
    (sorted.imp fun less _ same => BlockId.Less.irrefl _ (same ▸ less))
  exact distinct treeLeft treeRight different same

/-- A search finds the node of a key. -/
theorem Books.search (books : Books header vm order) {node : Ptr} (member : node ∈ order) :
    yieldedSearch vm (vm.vmYieldedBlocks (getYieldedAvl header (vm.yielded node).id))
      (vm.yielded node).id = some node := by
  have inTree := (books.trees _ node).mpr ⟨member, rfl⟩
  unfold yieldedSearch
  cases found : (vm.vmYieldedBlocks (getYieldedAvl header (vm.yielded node).id)).find?
      (fun other => (vm.yielded other).id = (vm.yielded node).id) with
  | none =>
      have missing := List.find?_eq_none.mp found node inTree
      simp at missing
  | some other =>
      have same := List.find?_some found
      simp only [decide_eq_true_eq] at same
      have inOrder := ((books.trees _ other).mp (List.mem_of_find?_eq_some found)).1
      rw [books.unique inOrder member same]

theorem Books.search_none (books : Books header vm order) {id : BlockId}
    (missing : yieldedSearch vm (vm.vmYieldedBlocks (getYieldedAvl header id)) id = none) :
    ∀ node ∈ order, (vm.yielded node).id ≠ id := by
  intro node member same
  have found := books.search member
  rw [same, missing] at found
  cases found

theorem Books.search_some (books : Books header vm order) {id : BlockId} {node : Ptr}
    (found : yieldedSearch vm (vm.vmYieldedBlocks (getYieldedAvl header id)) id = some node) :
    node ∈ order ∧ (vm.yielded node).id = id := by
  have same := List.find?_some found
  simp only [decide_eq_true_eq] at same
  exact ⟨((books.trees _ node).mp (List.mem_of_find?_eq_some found)).1, same⟩

/-! Freeing a yielded block. -/

theorem setOlder_older (vm : State np) (node : Ptr) (older : Option Ptr) :
    (fun other => ((vm.setOlder node older).yielded other).older) =
      update (fun other => (vm.yielded other).older) node older := by
  funext other
  by_cases same : other = node
  · subst same
    simp [State.setOlder]
  · simp [State.setOlder, same]

theorem setOlder_younger (vm : State np) (node : Ptr) (older : Option Ptr) :
    (fun other => ((vm.setOlder node older).yielded other).younger) =
      fun other => (vm.yielded other).younger := by
  funext other
  by_cases same : other = node
  · subst same
    simp [State.setOlder]
  · simp [State.setOlder, same]

theorem setYounger_younger (vm : State np) (node : Ptr) (younger : Option Ptr) :
    (fun other => ((vm.setYounger node younger).yielded other).younger) =
      update (fun other => (vm.yielded other).younger) node younger := by
  funext other
  by_cases same : other = node
  · subst same
    simp [State.setYounger]
  · simp [State.setYounger, same]

theorem setYounger_older (vm : State np) (node : Ptr) (younger : Option Ptr) :
    (fun other => ((vm.setYounger node younger).yielded other).older) =
      fun other => (vm.yielded other).older := by
  funext other
  by_cases same : other = node
  · subst same
    simp [State.setYounger]
  · simp [State.setYounger, same]

/-- Two nodes that differ in their links only. -/
def SameBlock (node node' : Yielded) : Prop :=
  node'.id = node.id ∧ node'.physaddr = node.physaddr ∧ node'.pages = node.pages

theorem setOlder_sameBlock (vm : State np) (node : Ptr) (older : Option Ptr) (other : Ptr) :
    SameBlock (vm.yielded other) ((vm.setOlder node older).yielded other) := by
  by_cases same : other = node
  · subst same
    simp [State.setOlder, SameBlock]
  · simp [State.setOlder, SameBlock, same]

theorem setYounger_sameBlock (vm : State np) (node : Ptr) (younger : Option Ptr) (other : Ptr) :
    SameBlock (vm.yielded other) ((vm.setYounger node younger).yielded other) := by
  by_cases same : other = node
  · subst same
    simp [State.setYounger, SameBlock]
  · simp [State.setYounger, SameBlock, same]

theorem SameBlock.trans {first second third : Yielded} (left : SameBlock first second)
    (right : SameBlock second third) : SameBlock first third :=
  ⟨right.1.trans left.1, right.2.1.trans left.2.1, right.2.2.trans left.2.2⟩

/-- The list without a node of it, which is not told where the node is. -/
theorem unlinkNode_ok {left right : List Ptr} {node : Ptr}
    (linked : Linked (fun node => (vm.yielded node).older) (fun node => (vm.yielded node).younger)
      vm.lruYoungest vm.lruOldest (left ++ node :: right)) :
    ∃ yielded lruYoungest lruOldest,
      unlinkNode vm node = .ok { vm with yielded, lruYoungest, lruOldest } ∧
      (∀ other, SameBlock (vm.yielded other) (yielded other)) ∧
      Linked (fun node => (yielded node).older) (fun node => (yielded node).younger)
        lruYoungest lruOldest (left ++ right) := by
  have unlinked := linked.unlink
  have isYounger : (vm.yielded node).younger = left.getLast? := linked.prev_eq
  have isOlder : (vm.yielded node).older = right.head? := linked.next_eq
  -- the younger neighbour points to the node, or the node is the youngest
  have fromYounger : ∀ younger, (vm.yielded node).younger = some younger →
      (vm.yielded younger).older = some node := by
    intro younger found
    rw [isYounger] at found
    obtain ⟨init, rfl⟩ := List.getLast?_eq_some_iff.mp found
    rw [List.append_assoc] at linked
    exact linked.next_eq
  have fromOlder : ∀ older, (vm.yielded node).older = some older →
      (vm.yielded older).younger = some node := by
    intro older found
    rw [isOlder] at found
    obtain ⟨rest, rfl⟩ := List.head?_eq_some_iff.mp found
    have whole : left ++ node :: older :: rest = (left ++ [node]) ++ older :: rest := by simp
    rw [whole] at linked
    rw [linked.prev_eq]
    simp
  have isYoungest : (vm.yielded node).younger = none → vm.lruYoungest = some node := by
    intro last
    rw [isYounger, List.getLast?_eq_none_iff] at last
    subst last
    exact linked.forward.head_eq
  have isOldest : (vm.yielded node).older = none → vm.lruOldest = some node := by
    intro last
    rw [isOlder, List.head?_eq_none_iff] at last
    subst last
    have whole := linked.backward.head_eq
    rwa [List.head?_reverse, List.getLast?_append, List.getLast?_singleton] at whole
  unfold unlinkNode
  cases younger : (vm.yielded node).younger with
  | none =>
      cases older : (vm.yielded node).older with
      | none =>
          rw [younger, older] at unlinked
          refine ⟨vm.yielded, none, none, ?_, fun _ => ⟨rfl, rfl, rfl⟩, unlinked⟩
          simp [assert, isYoungest younger, isOldest older, bind, Except.bind, pure, Except.pure]
      | some old =>
          rw [younger, older] at unlinked
          refine ⟨(vm.setYounger old none).yielded, some old, vm.lruOldest, ?_,
            setYounger_sameBlock vm old none, ?_⟩
          · simp [assert, isYoungest younger, fromOlder old older, bind, Except.bind, pure,
              Except.pure, State.setYounger]
          · rw [setYounger_older, setYounger_younger]
            exact unlinked
  | some young =>
      cases older : (vm.yielded node).older with
      | none =>
          rw [younger, older] at unlinked
          refine ⟨(vm.setOlder young none).yielded, vm.lruYoungest, some young, ?_,
            setOlder_sameBlock vm young none, ?_⟩
          · simp [assert, fromYounger young younger, isOldest older, bind, Except.bind, pure,
              Except.pure, State.setOlder]
          · rw [setOlder_older, setOlder_younger]
            exact unlinked
      | some old =>
          rw [younger, older] at unlinked
          have still : ((vm.setOlder young (some old)).yielded old).younger = some node := by
            rw [congrFun (setOlder_younger vm young (some old)) old]
            exact fromOlder old older
          refine ⟨((vm.setOlder young (some old)).setYounger old (some young)).yielded,
            vm.lruYoungest, vm.lruOldest, ?_, fun other => ?_, ?_⟩
          · simp only [assert, fromYounger young younger, if_true, bind, Except.bind, pure,
              Except.pure, still]
            rfl
          · exact (setOlder_sameBlock vm young (some old) other).trans
              (setYounger_sameBlock _ old (some young) other)
          · rw [setYounger_older, setYounger_younger, setOlder_older, setOlder_younger]
            exact unlinked

/-- The process of a node, and its place in the table. -/
theorem Books.owner (books : Books header vm order) {node : Ptr} (member : node ∈ order) :
    ∃ p, vmIsokendpt header vm (vm.yielded node).id.owner = some p ∧
      (vm.vmproc p).vmEndpoint = (vm.yielded node).id.owner ∧ (vm.vmproc p).inUse := by
  obtain ⟨p, found⟩ := Option.isSome_iff_exists.mp (books.owners node member)
  refine ⟨p, found, ?_⟩
  unfold vmIsokendpt at found
  dsimp only at found
  split at found
  · rename_i live
    obtain rfl := Option.some.inj found
    exact live
  · cases found

theorem countP_erase_of_mem {ν : Type} [DecidableEq ν] {wanted : ν → Bool} {nodes : List ν}
    {node : ν} (member : node ∈ nodes) :
    nodes.countP wanted = (nodes.erase node).countP wanted + if wanted node then 1 else 0 := by
  rw [(List.perm_cons_erase member).countP_eq wanted, List.countP_cons]

/-- The server's state when a node has been freed, with the links that it then has. -/
def State.withoutNode (vm : State np) (header : Header np) (p : Fin np) (node : Ptr)
    (freemem : Bool) (yielded : Ptr → Yielded) (lruYoungest lruOldest : Option Ptr) : State np :=
  let avl := getYieldedAvl header (vm.yielded node).id
  let proc := vm.vmproc p
  { vm with
    yielded, lruYoungest, lruOldest
    vmYieldedBlocks := update vm.vmYieldedBlocks avl ((vm.vmYieldedBlocks avl).erase node)
    vmproc := update vm.vmproc p { proc with vmYielded := proc.vmYielded - 1 }
    free := if freemem then
      vm.free ∪ Finset.Ico (abs2click (vm.yielded node).physaddr)
        (abs2click (vm.yielded node).physaddr + (vm.yielded node).pages) else vm.free
    freed := vm.freed ++ [node] }

theorem freeyieldednode_eq (books : Books header vm order) {node : Ptr} (member : node ∈ order)
    (freemem : Bool) :
    ∃ p yielded lruYoungest lruOldest,
      freeyieldednode header vm node freemem = .ok (vmPageSize,
        vm.withoutNode header p node freemem yielded lruYoungest lruOldest) ∧
      (vm.vmproc p).vmEndpoint = (vm.yielded node).id.owner ∧ (vm.vmproc p).inUse ∧
      (∀ other, SameBlock (vm.yielded other) (yielded other)) ∧
      Linked (fun node => (yielded node).older) (fun node => (yielded node).younger)
        lruYoungest lruOldest (order.erase node) := by
  obtain ⟨p, isok, endpoint, live⟩ := books.owner member
  obtain ⟨left, right, -, split, erased⟩ := List.exists_erase_eq member
  have linked := books.linked
  rw [split] at linked
  obtain ⟨yielded, lruYoungest, lruOldest, unlinked, same, rest⟩ := unlinkNode_ok linked
  have ids : ∀ other, (yielded other).id = (vm.yielded other).id := fun other => (same other).1
  have found := books.search member
  have counted := books.counts p live
  rw [countP_erase_of_mem member, if_pos (by simpa using endpoint.symm)] at counted
  have positive : 0 < (vm.vmproc p).vmYielded := by omega
  have isok' : vmIsokendpt header { vm with yielded, lruYoungest, lruOldest }
      (vm.yielded node).id.owner = some p := isok
  have found' : yieldedSearch { vm with yielded, lruYoungest, lruOldest }
      (vm.vmYieldedBlocks (getYieldedAvl header (vm.yielded node).id)) (vm.yielded node).id =
      some node := by
    unfold yieldedSearch at found ⊢
    simp only [ids]
    exact found
  refine ⟨p, yielded, lruYoungest, lruOldest, ?_, endpoint, live, same, erased ▸ rest⟩
  unfold freeyieldednode
  rw [unlinked]
  simp only [bind, Except.bind, ids, isok', found', assert, if_true, State.setTree,
    State.setProc, positive]
  cases freemem with
  | true =>
      simp only [if_true, State.freeMem, (same node).2.1, (same node).2.2]
      rfl
  | false => rfl

theorem Books.withoutNode (books : Books header vm order) {node : Ptr} (member : node ∈ order)
    {p : Fin np} {freemem : Bool} {yielded : Ptr → Yielded} {lruYoungest lruOldest : Option Ptr}
    (endpoint : (vm.vmproc p).vmEndpoint = (vm.yielded node).id.owner) (live : (vm.vmproc p).inUse)
    (same : ∀ other, SameBlock (vm.yielded other) (yielded other))
    (linked : Linked (fun node => (yielded node).older) (fun node => (yielded node).younger)
      lruYoungest lruOldest (order.erase node)) :
    Books header (vm.withoutNode header p node freemem yielded lruYoungest lruOldest)
      (order.erase node) := by
  have ids : ∀ other, (yielded other).id = (vm.yielded other).id := fun other => (same other).1
  have nodup := books.nodup
  have processes : ∀ q, ((vm.withoutNode header p node freemem yielded lruYoungest
        lruOldest).vmproc q).vmEndpoint = (vm.vmproc q).vmEndpoint ∧
      ((vm.withoutNode header p node freemem yielded lruYoungest lruOldest).vmproc q).inUse =
        (vm.vmproc q).inUse := by
    intro q
    by_cases own : q = p
    · subst own
      simp [State.withoutNode]
    · simp [State.withoutNode, own]
  refine
    { linked := linked, trees := ?_, sorted := ?_, times := books.times.erase node, past := ?_,
      counts := ?_, owners := ?_, slots := ?_, fresh := ?_ }
  · intro h other
    show other ∈ update vm.vmYieldedBlocks _ _ h ↔ other ∈ order.erase node ∧
      getYieldedAvl header (yielded other).id = h
    rw [ids, nodup.mem_erase_iff]
    by_cases own : h = getYieldedAvl header (vm.yielded node).id
    · subst own
      have nodupTree := books.nodupTree (getYieldedAvl header (vm.yielded node).id)
      rw [Function.update_self, nodupTree.mem_erase_iff, books.trees, and_assoc]
    · rw [Function.update_of_ne own, books.trees]
      constructor
      · rintro ⟨inOrder, tree⟩
        refine ⟨⟨?_, inOrder⟩, tree⟩
        rintro rfl
        exact own tree.symm
      · exact fun both => ⟨both.1.2, both.2⟩
  · intro h
    show (update vm.vmYieldedBlocks _ _ h).Pairwise _
    simp only [State.withoutNode, ids]
    by_cases own : h = getYieldedAvl header (vm.yielded node).id
    · subst own
      rw [Function.update_self]
      exact (books.sorted _).erase node
    · rw [Function.update_of_ne own]
      exact books.sorted h
  · exact fun other inOrder => books.past other (List.mem_of_mem_erase inOrder)
  · intro q liveQ
    rw [(processes q).2] at liveQ
    rw [(processes q).1]
    have counted := books.counts q liveQ
    rw [countP_erase_of_mem member] at counted
    show (update vm.vmproc p _ q).vmYielded =
      (order.erase node).countP fun other => (yielded other).id.owner = (vm.vmproc q).vmEndpoint
    simp only [ids]
    by_cases own : q = p
    · subst own
      rw [Function.update_self]
      rw [if_pos (by simpa using endpoint.symm)] at counted
      show (vm.vmproc q).vmYielded - 1 = _
      omega
    · rw [Function.update_of_ne own, counted, if_neg]
      · rfl
      · simp only [decide_eq_true_eq]
        intro owner
        have slotQ := books.slots q liveQ
        rw [← owner, ← endpoint, books.slots p live] at slotQ
        exact own slotQ.symm
  · intro other inOrder
    rw [vmIsokendpt_congr processes]
    show (vmIsokendpt header vm (yielded other).id.owner).isSome
    rw [ids]
    exact books.owners other (List.mem_of_mem_erase inOrder)
  · intro q liveQ
    rw [(processes q).2] at liveQ
    rw [(processes q).1]
    exact books.slots q liveQ
  · exact fun other inOrder => books.fresh other (List.mem_of_mem_erase inOrder)

/-! Remembering a yielded block. -/

theorem mem_yieldedInsert (vm : State np) (tree : List Ptr) (node other : Ptr) :
    other ∈ yieldedInsert vm tree node ↔ other = node ∨ other ∈ tree := by
  have whole := List.takeWhile_append_dropWhile (l := tree)
    (p := fun other => decide ((vm.yielded other).id.Less (vm.yielded node).id))
  unfold yieldedInsert
  rw [List.mem_append, List.mem_cons]
  conv_rhs => rw [← whole, List.mem_append]
  tauto

/-- A node with a new key goes where the key is in the order. -/
theorem yieldedInsert_sorted {tree : List Ptr} {node : Ptr}
    (sorted : tree.Pairwise fun left right => (vm.yielded left).id.Less (vm.yielded right).id)
    (new : ∀ other ∈ tree, (vm.yielded other).id ≠ (vm.yielded node).id) :
    (yieldedInsert vm tree node).Pairwise fun left right =>
      (vm.yielded left).id.Less (vm.yielded right).id := by
  induction tree with
  | nil => exact List.pairwise_singleton _ _
  | cons first tree ih =>
      obtain ⟨least, rest⟩ := List.pairwise_cons.mp sorted
      unfold yieldedInsert at ih ⊢
      by_cases less : (vm.yielded first).id.Less (vm.yielded node).id
      · rw [List.takeWhile_cons_of_pos (by simpa using less),
          List.dropWhile_cons_of_pos (by simpa using less)]
        refine List.pairwise_cons.mpr ⟨fun other member => ?_,
          ih rest fun other inside => new other (List.mem_cons_of_mem first inside)⟩
        rcases (mem_yieldedInsert vm tree node other).mp member with rfl | inside
        · exact less
        · exact least other inside
      · rw [List.takeWhile_cons_of_neg (by simpa using less),
          List.dropWhile_cons_of_neg (by simpa using less)]
        have before : (vm.yielded node).id.Less (vm.yielded first).id :=
          BlockId.less_of_not (new first List.mem_cons_self) less
        refine List.pairwise_cons.mpr ⟨fun other member => ?_, sorted⟩
        rcases List.mem_cons.mp member with rfl | inside
        · exact before
        · exact before.trans (least other inside)

/-- A node that is not in use may be given new contents. -/
theorem Books.newNode (books : Books header vm order) {newyb : Ptr} (unused : newyb ∉ order)
    {yielded : Ptr → Yielded} {newYielded : Ptr} (later : vm.newYielded ≤ newYielded)
    (others : ∀ node, node ≠ newyb → yielded node = vm.yielded node) :
    Books header { vm with yielded, newYielded } order := by
  have same : ∀ node ∈ order, yielded node = vm.yielded node := by
    intro node member
    apply others
    rintro rfl
    exact unused member
  refine
    { linked := ?_, trees := ?_, sorted := ?_, times := books.times, past := books.past,
      counts := ?_, owners := ?_, slots := books.slots, fresh := ?_ }
  · apply books.linked.congr
    intro node member
    show (yielded node).older = _ ∧ (yielded node).younger = _
    rw [same node member]
    exact ⟨rfl, rfl⟩
  · intro h node
    rw [books.trees]
    constructor
    · rintro ⟨member, tree⟩
      refine ⟨member, ?_⟩
      rw [show ({ vm with yielded, newYielded } : State np).yielded node = vm.yielded node from
        same node member]
      exact tree
    · rintro ⟨member, tree⟩
      refine ⟨member, ?_⟩
      rwa [show ({ vm with yielded, newYielded } : State np).yielded node = vm.yielded node from
        same node member] at tree
  · intro h
    apply (books.sorted h).imp_of_mem
    intro left right inLeft inRight less
    show (yielded left).id.Less (yielded right).id
    rw [same left ((books.trees h left).mp inLeft).1, same right ((books.trees h right).mp inRight).1]
    exact less
  · intro p live
    rw [books.counts p live]
    apply List.countP_congr
    intro node member
    show _ ↔ decide ((yielded node).id.owner = _) = true
    rw [same node member]
  · intro node member
    show (vmIsokendpt header vm (yielded node).id.owner).isSome
    rw [same node member]
    exact books.owners node member
  · exact fun node member => Nat.lt_of_lt_of_le (books.fresh node member) later

/-- The server's state when a node has been remembered, with the links that it then has. -/
def State.withNode (vm : State np) (header : Header np) (p : Fin np) (newyb : Ptr)
    (yielded : Ptr → Yielded) (lruOldest : Option Ptr) : State np :=
  let avl := getYieldedAvl header (vm.yielded newyb).id
  let proc := vm.vmproc p
  { vm with
    yielded, lruOldest
    lruYoungest := some newyb
    vmYieldedBlocks := update vm.vmYieldedBlocks avl (yieldedInsert vm (vm.vmYieldedBlocks avl) newyb)
    vmproc := update vm.vmproc p { proc with vmYielded := proc.vmYielded + 1 }
    yieldedAt := update vm.yieldedAt newyb vm.yields
    yields := vm.yields + 1 }

theorem rememberNode_eq (books : Books header vm order) (p : Fin np) {newyb : Ptr}
    (unused : newyb ∉ order) (first : (vm.yielded newyb).younger = none) :
    ∃ yielded lruOldest,
      rememberNode header vm p newyb = vm.withNode header p newyb yielded lruOldest ∧
      (∀ other, SameBlock (vm.yielded other) (yielded other)) ∧
      Linked (fun node => (yielded node).older) (fun node => (yielded node).younger)
        (some newyb) lruOldest (newyb :: order) := by
  have pushed := books.linked.pushFront unused
  have already : update (fun node => (vm.yielded node).younger) newyb none =
      fun node => (vm.yielded node).younger :=
    Function.update_eq_self_iff.mpr first.symm
  rw [already] at pushed
  unfold rememberNode
  dsimp only [State.setTree, State.setProc]
  cases youngest : vm.lruYoungest with
  | none =>
      rw [youngest] at pushed
      refine ⟨(vm.setOlder newyb none).yielded, some newyb, rfl, setOlder_sameBlock vm newyb none, ?_⟩
      rw [setOlder_older, setOlder_younger]
      exact pushed
  | some young =>
      rw [youngest] at pushed
      refine ⟨((vm.setYounger young (some newyb)).setOlder newyb (some young)).yielded, vm.lruOldest,
        ?_, fun other => ?_, ?_⟩
      · simp only [State.setYounger, State.setOlder, youngest, State.withNode]
      · exact (setYounger_sameBlock vm young (some newyb) other).trans
          (setOlder_sameBlock _ newyb (some young) other)
      · rw [setOlder_older, setOlder_younger, setYounger_older, setYounger_younger]
        exact pushed

theorem Books.withNode (books : Books header vm order) {p : Fin np} {newyb : Ptr}
    {yielded : Ptr → Yielded} {lruOldest : Option Ptr} (unused : newyb ∉ order)
    (allocated : newyb < vm.newYielded) (live : (vm.vmproc p).inUse)
    (owner : (vm.yielded newyb).id.owner = (vm.vmproc p).vmEndpoint)
    (new : ∀ node ∈ order, (vm.yielded node).id ≠ (vm.yielded newyb).id)
    (same : ∀ other, SameBlock (vm.yielded other) (yielded other))
    (linked : Linked (fun node => (yielded node).older) (fun node => (yielded node).younger)
      (some newyb) lruOldest (newyb :: order)) :
    Books header (vm.withNode header p newyb yielded lruOldest) (newyb :: order) := by
  have ids : ∀ other, (yielded other).id = (vm.yielded other).id := fun other => (same other).1
  have processes : ∀ q,
      ((vm.withNode header p newyb yielded lruOldest).vmproc q).vmEndpoint =
        (vm.vmproc q).vmEndpoint ∧
      ((vm.withNode header p newyb yielded lruOldest).vmproc q).inUse = (vm.vmproc q).inUse := by
    intro q
    by_cases own : q = p
    · subst own
      simp [State.withNode]
    · simp [State.withNode, own]
  have different : ∀ node ∈ order, node ≠ newyb := by
    rintro node member rfl
    exact unused member
  refine
    { linked := linked, trees := ?_, sorted := ?_, times := ?_, past := ?_, counts := ?_,
      owners := ?_, slots := ?_, fresh := ?_ }
  · intro h node
    show node ∈ update vm.vmYieldedBlocks _ _ h ↔ node ∈ newyb :: order ∧
      getYieldedAvl header (yielded node).id = h
    rw [ids, List.mem_cons]
    by_cases own : h = getYieldedAvl header (vm.yielded newyb).id
    · subst own
      rw [Function.update_self, mem_yieldedInsert, books.trees]
      constructor
      · rintro (rfl | ⟨member, tree⟩)
        · exact ⟨Or.inl rfl, rfl⟩
        · exact ⟨Or.inr member, tree⟩
      · rintro ⟨rfl | member, tree⟩
        · exact Or.inl rfl
        · exact Or.inr ⟨member, tree⟩
    · rw [Function.update_of_ne own, books.trees]
      constructor
      · exact fun both => ⟨Or.inr both.1, both.2⟩
      · rintro ⟨rfl | member, tree⟩
        · exact absurd tree.symm own
        · exact ⟨member, tree⟩
  · intro h
    show (update vm.vmYieldedBlocks _ _ h).Pairwise _
    simp only [State.withNode, ids]
    by_cases own : h = getYieldedAvl header (vm.yielded newyb).id
    · subst own
      rw [Function.update_self]
      apply yieldedInsert_sorted (books.sorted _)
      exact fun other inTree => new other ((books.trees _ other).mp inTree).1
    · rw [Function.update_of_ne own]
      exact books.sorted h
  · show (newyb :: order).Pairwise fun young old =>
      update vm.yieldedAt newyb vm.yields old < update vm.yieldedAt newyb vm.yields young
    refine List.pairwise_cons.mpr ⟨fun old member => ?_, ?_⟩
    · rw [Function.update_self, Function.update_of_ne (different old member)]
      exact books.past old member
    · apply books.times.imp_of_mem
      intro young old inYoung inOld before
      rw [Function.update_of_ne (different young inYoung),
        Function.update_of_ne (different old inOld)]
      exact before
  · intro node member
    show update vm.yieldedAt newyb vm.yields node < vm.yields + 1
    rcases List.mem_cons.mp member with rfl | inside
    · rw [Function.update_self]
      exact Nat.lt_succ_self _
    · rw [Function.update_of_ne (different node inside)]
      exact Nat.lt_succ_of_lt (books.past node inside)
  · intro q liveQ
    rw [(processes q).2] at liveQ
    rw [(processes q).1]
    have counted := books.counts q liveQ
    show (update vm.vmproc p _ q).vmYielded = (newyb :: order).countP fun node =>
      (yielded node).id.owner = (vm.vmproc q).vmEndpoint
    simp only [ids]
    rw [List.countP_cons]
    by_cases own : q = p
    · subst own
      rw [Function.update_self, if_pos (by simpa using owner)]
      show (vm.vmproc q).vmYielded + 1 = _
      rw [counted]
    · rw [Function.update_of_ne own, counted, if_neg]
      · rfl
      · simp only [decide_eq_true_eq]
        intro owner'
        have slotQ := books.slots q liveQ
        rw [← owner', owner, books.slots p live] at slotQ
        exact own slotQ.symm
  · intro node member
    rw [vmIsokendpt_congr processes]
    show (vmIsokendpt header vm (yielded node).id.owner).isSome
    rw [ids]
    rcases List.mem_cons.mp member with rfl | inside
    · unfold vmIsokendpt
      dsimp only
      rw [owner, books.slots p live, if_pos ⟨rfl, live⟩]
      rfl
    · exact books.owners node inside
  · intro q liveQ
    rw [(processes q).2] at liveQ
    rw [(processes q).1]
    exact books.slots q liveQ
  · intro node member
    rcases List.mem_cons.mp member with rfl | inside
    · exact allocated
    · exact books.fresh node inside

/-- Yielded blocks have been freed, and `order'` is what is left of the list. -/
structure Swept (header : Header np) (vm vm' : State np) (order' : List Ptr) : Prop where
  books : Books header vm' order'
  ids : ∀ node, (vm'.yielded node).id = (vm.yielded node).id
  processes : ∀ p, (vm'.vmproc p).vmEndpoint = (vm.vmproc p).vmEndpoint ∧
    (vm'.vmproc p).inUse = (vm.vmproc p).inUse

theorem Swept.refl (books : Books header vm order) : Swept header vm vm order :=
  ⟨books, fun _ => rfl, fun _ => ⟨rfl, rfl⟩⟩

theorem Swept.trans {first second third : State np} {middle last : List Ptr}
    (left : Swept header first second middle) (right : Swept header second third last) :
    Swept header first third last := by
  refine ⟨right.books, fun node => (right.ids node).trans (left.ids node), fun p => ?_⟩
  exact ⟨(right.processes p).1.trans (left.processes p).1,
    (right.processes p).2.trans (left.processes p).2⟩

theorem freeyieldednode_ok (books : Books header vm order) {node : Ptr} (member : node ∈ order)
    (freemem : Bool) :
    ∃ vm', freeyieldednode header vm node freemem = .ok (vmPageSize, vm') ∧
      Swept header vm vm' (order.erase node) ∧ vm'.freed = vm.freed ++ [node] ∧
      vm'.yieldedAt = vm.yieldedAt ∧ ∀ h, vm'.vmYieldedBlocks h = (vm.vmYieldedBlocks h).erase node := by
  obtain ⟨p, yielded, lruYoungest, lruOldest, result, endpoint, live, same, linked⟩ :=
    freeyieldednode_eq books member freemem
  have books' : Books header
      (vm.withoutNode header p node freemem yielded lruYoungest lruOldest) (order.erase node) :=
    books.withoutNode member endpoint live same linked
  refine ⟨_, result, ⟨books', fun other => (same other).1, fun q => ?_⟩, rfl, rfl, fun h => ?_⟩
  · by_cases own : q = p
    · subst own
      simp [State.withoutNode]
    · simp [State.withoutNode, own]
  · show update vm.vmYieldedBlocks _ _ h = _
    by_cases own : h = getYieldedAvl header (vm.yielded node).id
    · subst own
      rw [Function.update_self]
    · rw [Function.update_of_ne own, List.erase_of_not_mem]
      intro inTree
      exact own ((books.trees h node).mp inTree).2.symm

theorem successor_eq {node : Ptr} {before rest : List Ptr} (outside : node ∉ before) :
    successor (before ++ node :: rest) node = rest.head? := by
  induction before with
  | nil => simp [successor]
  | cons first before ih =>
      rw [List.mem_cons, not_or] at outside
      rw [List.cons_append, successor, if_neg (Ne.symm outside.1), ih outside.2]

/-- Going through a tree from one of its nodes on: of the nodes that come, those of the process
are freed. -/
theorem freeTree_ok {p : Fin np} {h : Nat} (fuel : Nat) (before : List Ptr) {rest : List Ptr}
    (books : Books header vm order) (tree : vm.vmYieldedBlocks h = before ++ rest)
    (enough : rest.length ≤ fuel) :
    ∃ vm', freeTree header p h fuel rest.head? vm = .ok vm' ∧
      Swept header vm vm' (order.filter fun node =>
        ¬ (node ∈ rest ∧ (vm.yielded node).id.owner = (vm.vmproc p).vmEndpoint)) := by
  induction rest generalizing vm order before fuel with
  | nil =>
      refine ⟨vm, by cases fuel <;> rfl, ?_⟩
      rw [List.filter_eq_self.mpr (by simp)]
      exact .refl books
  | cons yb rest ih =>
      have nodup := books.nodupTree h
      rw [tree] at nodup
      have outside : yb ∉ before := fun member =>
        (List.nodup_append.mp nodup).2.2 yb member yb List.mem_cons_self rfl
      have later : yb ∉ rest := (List.nodup_cons.mp (List.nodup_append.mp nodup).2.1).1
      have next : successor (vm.vmYieldedBlocks h) yb = rest.head? := by
        rw [tree]
        exact successor_eq outside
      have inTree : yb ∈ vm.vmYieldedBlocks h := by simp [tree]
      obtain ⟨member, own⟩ := (books.trees h yb).mp inTree
      cases fuel with
      | zero => simp at enough
      | succ fuel =>
          rw [List.length_cons] at enough
          rw [List.head?_cons, freeTree]
          dsimp only
          rw [next]
          by_cases other : (vm.yielded yb).id.owner ≠ (vm.vmproc p).vmEndpoint
          · rw [if_pos other]
            obtain ⟨vm', result, swept⟩ := ih fuel (before ++ [yb]) books (by simp [tree])
              (by omega)
            refine ⟨vm', result, ?_⟩
            have same : (order.filter fun node => ¬ (node ∈ yb :: rest ∧
                (vm.yielded node).id.owner = (vm.vmproc p).vmEndpoint)) = order.filter fun node =>
                ¬ (node ∈ rest ∧ (vm.yielded node).id.owner = (vm.vmproc p).vmEndpoint) := by
              apply List.filter_congr
              intro node _
              by_cases isYb : node = yb
              · subst isYb
                simp [other]
              · simp [isYb]
            rw [same]
            exact swept
          · rw [if_neg other]
            have owner : (vm.yielded yb).id.owner = (vm.vmproc p).vmEndpoint := not_not.mp other
            obtain ⟨vm1, freed, swept, -, -, trees⟩ := freeyieldednode_ok books member true
            have tree1 : vm1.vmYieldedBlocks h = before ++ rest := by
              rw [trees, tree, List.erase_append_right _ outside, List.erase_cons_head]
            have left : order.erase yb = order.filter (· ≠ yb) := by
              rw [books.nodup.erase_eq_filter yb]
              apply List.filter_congr
              intro node _
              by_cases isYb : node = yb <;> simp [isYb]
            obtain ⟨vm', result, swept'⟩ := ih fuel before swept.books tree1 (by omega)
            have same : (order.filter fun node => ¬ (node ∈ yb :: rest ∧
                (vm.yielded node).id.owner = (vm.vmproc p).vmEndpoint)) =
                (order.erase yb).filter fun node => ¬ (node ∈ rest ∧
                  (vm1.yielded node).id.owner = (vm1.vmproc p).vmEndpoint) := by
              rw [left, List.filter_filter]
              apply List.filter_congr
              intro node _
              rw [swept.ids, (swept.processes p).1]
              by_cases isYb : node = yb
              · subst isYb
                simp [owner]
              · simp [isYb]
            refine ⟨vm', ?_, ?_⟩
            · rw [freed]
              simp only [bind, Except.bind]
              cases rest with
              | nil =>
                  cases fuel <;> exact result
              | cons nextYb rest =>
                  have inTree1 : nextYb ∈ vm1.vmYieldedBlocks h := by simp [tree1]
                  obtain ⟨member1, own1⟩ := (swept.books.trees h nextYb).mp inTree1
                  have found := swept.books.search member1
                  rw [own1] at found
                  show (assert _ _ >>= _) = _
                  rw [assert, if_pos found]
                  exact result
            · rw [same]
              exact swept.trans swept'

theorem freeYieldedProcLoop_ok {p : Fin np} (live : (vm.vmproc p).inUse) (count h : Nat)
    (books : Books header vm order) :
    ∃ vm', freeYieldedProcLoop header p count h vm = .ok vm' ∧
      Swept header vm vm' (order.filter fun node =>
        ¬ ((h ≤ getYieldedAvl header (vm.yielded node).id ∧
          getYieldedAvl header (vm.yielded node).id < h + count) ∧
          (vm.yielded node).id.owner = (vm.vmproc p).vmEndpoint)) := by
  induction count generalizing h vm order with
  | zero =>
      refine ⟨vm, rfl, ?_⟩
      rw [List.filter_eq_self.mpr (by intro node _; simp)]
      exact .refl books
  | succ count ih =>
      rw [freeYieldedProcLoop]
      by_cases more : (vm.vmproc p).vmYielded > 0
      · rw [if_pos more]
        obtain ⟨vm1, result, swept⟩ := freeTree_ok (p := p) (vm.vmYieldedBlocks h).length
          [] books (List.nil_append _).symm (Nat.le_refl _)
        have live1 : (vm1.vmproc p).inUse := by
          rw [(swept.processes p).2]
          exact live
        obtain ⟨vm', result', swept'⟩ := ih live1 (h + 1) swept.books
        refine ⟨vm', ?_, ?_⟩
        · dsimp only
          rw [result]
          exact result'
        · have same : (order.filter fun node =>
              ¬ ((h ≤ getYieldedAvl header (vm.yielded node).id ∧
                getYieldedAvl header (vm.yielded node).id < h + (count + 1)) ∧
                (vm.yielded node).id.owner = (vm.vmproc p).vmEndpoint)) =
              (order.filter fun node => ¬ (node ∈ vm.vmYieldedBlocks h ∧
                (vm.yielded node).id.owner = (vm.vmproc p).vmEndpoint)).filter fun node =>
              ¬ ((h + 1 ≤ getYieldedAvl header (vm1.yielded node).id ∧
                getYieldedAvl header (vm1.yielded node).id < h + 1 + count) ∧
                (vm1.yielded node).id.owner = (vm1.vmproc p).vmEndpoint) := by
            rw [List.filter_filter]
            apply List.filter_congr
            intro node member
            rw [swept.ids, (swept.processes p).1]
            have inTree := books.trees h node
            by_cases owner : (vm.yielded node).id.owner = (vm.vmproc p).vmEndpoint
            · simp only [owner, and_true, member, true_and] at inTree ⊢
              rw [← Bool.decide_and, decide_eq_decide, inTree]
              omega
            · simp [owner]
          rw [same]
          exact swept.trans swept'
      · rw [if_neg more]
        refine ⟨vm, rfl, ?_⟩
        -- the counter says that no node of the process is left
        have counted := books.counts p live
        have none : order.countP (fun node =>
            (vm.yielded node).id.owner = (vm.vmproc p).vmEndpoint) = 0 := by omega
        rw [List.countP_eq_zero] at none
        rw [List.filter_eq_self.mpr]
        · exact .refl books
        · intro node member
          have other := none node member
          simp only [decide_eq_true_eq] at other
          simp [other]

/-- All nodes of the process are gone, and no others. -/
theorem freeYieldedProc_ok {p : Fin np} (live : (vm.vmproc p).inUse)
    (books : Books header vm order) :
    ∃ vm', freeYieldedProc header vm p = .ok vm' ∧
      Swept header vm vm' (order.filter fun node =>
        (vm.yielded node).id.owner ≠ (vm.vmproc p).vmEndpoint) := by
  obtain ⟨vm', result, swept⟩ := freeYieldedProcLoop_ok live yieldHashsize 0 books
  refine ⟨vm', result, ?_⟩
  have same : (order.filter fun node => (vm.yielded node).id.owner ≠ (vm.vmproc p).vmEndpoint) =
      order.filter fun node => ¬ ((0 ≤ getYieldedAvl header (vm.yielded node).id ∧
        getYieldedAvl header (vm.yielded node).id < 0 + yieldHashsize) ∧
        (vm.yielded node).id.owner = (vm.vmproc p).vmEndpoint) := by
    apply List.filter_congr
    intro node _
    have small : getYieldedAvl header (vm.yielded node).id < 0 + yieldHashsize := by
      rw [Nat.zero_add]
      exact Nat.mod_lt _ (by decide)
    have zero : 0 ≤ getYieldedAvl header (vm.yielded node).id := Nat.zero_le _
    simp only [zero, small, and_self, true_and, ne_eq]
  rw [same]
  exact swept

/-- The oldest block is the last of the list. -/
theorem last_erased {node : Ptr} {rest : List Ptr} (books : Books header vm order)
    (split : order.reverse = node :: rest) :
    node ∈ order ∧ (order.erase node).reverse = rest := by
  have whole : order = rest.reverse ++ [node] := by
    rw [← List.reverse_cons, ← split, List.reverse_reverse]
  have nodup := books.nodup
  rw [whole] at nodup ⊢
  have outside : node ∉ rest.reverse := fun member =>
    (List.nodup_append.mp nodup).2.2 node member node List.mem_cons_self rfl
  refine ⟨List.mem_append_right _ List.mem_cons_self, ?_⟩
  rw [List.erase_append_right _ outside]
  simp

/-- Nodes are freed one after the other, with their pages. -/
inductive Frees (header : Header np) : State np → List Ptr → State np → Prop
  | nil (vm : State np) : Frees header vm [] vm
  | cons {vm vm1 vm' : State np} {node : Ptr} {nodes : List Ptr}
      (first : freeyieldednode header vm node true = .ok (vmPageSize, vm1))
      (rest : Frees header vm1 nodes vm') : Frees header vm (node :: nodes) vm'

theorem Frees.swept {gone left : List Ptr} (frees : Frees header vm gone vm')
    (books : Books header vm order) (split : order.reverse = gone ++ left) :
    Swept header vm vm' left.reverse ∧ vm'.freed = vm.freed ++ gone ∧
      vm'.yieldedAt = vm.yieldedAt := by
  induction frees generalizing order with
  | nil vm =>
      rw [List.nil_append] at split
      rw [← split, List.reverse_reverse, List.append_nil]
      exact ⟨.refl books, rfl, rfl⟩
  | cons first rest ih =>
      obtain ⟨member, earlier⟩ := last_erased books split
      obtain ⟨vm1, result, swept, log, stamps, -⟩ := freeyieldednode_ok books member true
      obtain ⟨-, rfl⟩ := Prod.mk.inj (Except.ok.inj (first.symm.trans result))
      obtain ⟨swept', log', stamps'⟩ := ih swept.books earlier
      refine ⟨swept.trans swept', ?_, stamps'.trans stamps⟩
      rw [log', log, List.append_assoc, List.singleton_append]

/-- The loop stops at the end of the list, and when enough is freed. -/
theorem freeYieldedLoop_stops {maxBytes freed : Nat} (fuel : Nat) (books : Books header vm order)
    (stops : order = [] ∨ maxBytes ≤ freed) :
    freeYieldedLoop header maxBytes fuel freed vm = .ok (freed, vm) := by
  have oldest := books.linked.backward.head_eq
  rcases List.eq_nil_or_concat order with rfl | ⟨init, last, rfl⟩
  · cases fuel with
    | zero => rw [freeYieldedLoop, oldest]; rfl
    | succ fuel => rw [freeYieldedLoop, oldest]; rfl
  · have enough := stops.resolve_left (by simp)
    rw [List.concat_eq_append, List.reverse_append] at oldest
    cases fuel with
    | zero => rw [freeYieldedLoop, oldest]; exact if_neg (by omega)
    | succ fuel => rw [freeYieldedLoop, oldest]; exact if_neg (by omega)

/-- The loop frees the oldest blocks, counts one page for each, and frees none once that is
enough. -/
theorem freeYieldedLoop_ok {maxBytes : Nat} (fuel freed : Nat) (books : Books header vm order)
    (enough : maxBytes ≤ freed + fuel) :
    ∃ vm' gone left,
      freeYieldedLoop header maxBytes fuel freed vm =
        .ok (freed + gone.length * vmPageSize, vm') ∧
      order.reverse = gone ++ left ∧ Frees header vm gone vm' ∧
      (left = [] ∨ maxBytes ≤ freed + gone.length * vmPageSize) ∧
      (gone = [] ∨ freed + (gone.length - 1) * vmPageSize < maxBytes) := by
  induction fuel generalizing vm order freed with
  | zero =>
      refine ⟨vm, [], order.reverse, ?_, rfl, .nil vm, Or.inr (by simpa using enough), Or.inl rfl⟩
      simpa using freeYieldedLoop_stops 0 books (Or.inr enough)
  | succ fuel ih =>
      by_cases stops : order = [] ∨ maxBytes ≤ freed
      · refine ⟨vm, [], order.reverse, ?_, rfl, .nil vm, ?_, Or.inl rfl⟩
        · simpa using freeYieldedLoop_stops (fuel + 1) books stops
        · simpa using stops
      · obtain ⟨some, more⟩ := not_or.mp stops
        obtain ⟨init, last, rfl⟩ := (List.eq_nil_or_concat order).resolve_left some
        have split : (init.concat last).reverse = last :: init.reverse := by simp
        have oldest := books.linked.backward.head_eq
        rw [split] at oldest
        obtain ⟨member, earlier⟩ := last_erased books split
        obtain ⟨vm1, result, swept, -⟩ := freeyieldednode_ok books member true
        have size : 0 < vmPageSize := by decide
        obtain ⟨vm', gone, left, rest, split', frees, reason, needed⟩ :=
          ih (freed + vmPageSize) swept.books (by omega)
        have bytes : freed + (last :: gone).length * vmPageSize =
            freed + vmPageSize + gone.length * vmPageSize := by
          rw [List.length_cons, Nat.add_mul]
          omega
        refine ⟨vm', last :: gone, left, ?_, ?_, .cons result frees, ?_, ?_⟩
        · rw [freeYieldedLoop, oldest, bytes]
          show (if freed < maxBytes then _ else _) = _
          rw [if_pos (by omega), result]
          exact rest
        · rw [split, ← earlier, split', List.cons_append]
        · rw [bytes]
          exact reason
        · apply Or.inr
          rw [List.length_cons, Nat.add_sub_cancel]
          cases gone with
          | nil => simpa using more
          | cons next gone =>
              have before := needed.resolve_left (List.cons_ne_nil next gone)
              rw [List.length_cons, Nat.add_sub_cancel] at before
              rw [List.length_cons, Nat.add_mul]
              omega

/-- `free_yielded` frees blocks from the oldest on, until there are enough bytes or no more
blocks. -/
theorem freeYielded_ok (maxBytes : Nat) (books : Books header vm order) :
    ∃ bytes vm' kept gone, freeYielded header vm maxBytes = .ok (bytes, vm') ∧
      order = kept ++ gone ∧ Swept header vm vm' kept ∧ vm'.freed = vm.freed ++ gone.reverse ∧
      vm'.yieldedAt = vm.yieldedAt ∧ (kept = [] ∨ maxBytes ≤ gone.length * vmPageSize) := by
  obtain ⟨vm', gone, left, result, split, frees, reason, -⟩ :=
    freeYieldedLoop_ok maxBytes 0 books (Nat.le_add_left _ _)
  obtain ⟨swept, log, stamps⟩ := frees.swept books split
  refine ⟨_, vm', left.reverse, gone.reverse, result, ?_, swept, ?_, stamps, ?_⟩
  · rw [← List.reverse_append, ← split, List.reverse_reverse]
  · rw [log, List.reverse_reverse]
  · rw [Nat.zero_add] at reason
    simpa using reason

end Ve482.Vm
