import Ve482.Vm.Bookkeeping
import Ve482.Vm.GetPages
import Ve482.Vm.Yield

set_option autoImplicit false

namespace Ve482.Vm

open Function (update)
open Fallible (Ends)

variable {np : Nat} {header : Header np} {answers : Answers} {vm vm' : State np} {order : List Ptr}

/-- The regions, the blocks and the yielded blocks of the server are in order. -/
structure Wellformed (header : Header np) (vm : State np) : Prop where
  books : ∃ order, Books header vm order
  blocks : Blocks vm
  nodes : ∀ h, ∀ node ∈ vm.vmYieldedBlocks h, (vm.yielded node).physaddr % vmPageSize = 0

theorem unlinkNode_trees (vm : State np) (node : Ptr) :
    Ends (fun _ => True) (fun vm' => vm'.vmYieldedBlocks = vm.vmYieldedBlocks)
      (unlinkNode vm node) := by
  unfold unlinkNode
  dsimp only
  cases (vm.yielded node).younger with
  | none =>
      refine assert_ends (fun _ => trivial) fun _ => ?_
      cases (vm.yielded node).older with
      | none => exact assert_ends (fun _ => trivial) fun _ => rfl
      | some older => exact assert_ends (fun _ => trivial) fun _ => rfl
  | some younger =>
      refine assert_ends (fun _ => trivial) fun _ => ?_
      cases (vm.yielded node).older with
      | none => exact assert_ends (fun _ => trivial) fun _ => rfl
      | some older => exact assert_ends (fun _ => trivial) fun _ => rfl

/-- Only nodes of the list can be freed. -/
theorem freeyieldednode_member (books : Books header vm order) (node : Ptr) (freemem : Bool) :
    Ends (fun _ => True) (fun _ => node ∈ order) (freeyieldednode header vm node freemem) := by
  unfold freeyieldednode
  refine (unlinkNode_trees vm node).bind fun vm1 trees => ?_
  dsimp only
  cases vmIsokendpt header vm1 (vm1.yielded node).id.owner with
  | none => trivial
  | some p =>
      refine assert_ends (fun _ => trivial) fun found => ?_
      have member : node ∈ order := by
        have inTree := List.mem_of_find?_eq_some found
        rw [trees] at inTree
        exact ((books.trees _ node).mp inTree).1
      refine assert_ends (fun _ => trivial) fun _ => member

/-- What freeing one node keeps, freeing many nodes keeps. -/
theorem freeing_keeps {keeps : State np → Prop}
    (step : ∀ vm order node, Books header vm order → node ∈ order → keeps vm → ∀ vm',
      freeyieldednode header vm node true = .ok (vmPageSize, vm') → keeps vm')
    (books : ∃ order, Books header vm order) (holds : keeps vm) (node : Ptr) :
    Ends (fun _ => True) (fun result => (∃ order, Books header result.2 order) ∧ keeps result.2)
      (freeyieldednode header vm node true) := by
  obtain ⟨order, books⟩ := books
  have member := freeyieldednode_member books node true
  by_cases inOrder : node ∈ order
  · obtain ⟨vm', result, swept, -⟩ := freeyieldednode_ok books inOrder true
    rw [result]
    exact ⟨⟨_, swept.books⟩, step vm order node books inOrder holds vm' result⟩
  · exact member.imp fun _ inOrder' => absurd inOrder' inOrder

theorem freeYieldedLoop_keeps {keeps : State np → Prop}
    (step : ∀ vm order node, Books header vm order → node ∈ order → keeps vm → ∀ vm',
      freeyieldednode header vm node true = .ok (vmPageSize, vm') → keeps vm')
    (maxBytes fuel freed : Nat) (books : ∃ order, Books header vm order) (holds : keeps vm) :
    Ends (fun _ => True) (fun result => keeps result.2)
      (freeYieldedLoop header maxBytes fuel freed vm) := by
  induction fuel generalizing freed vm with
  | zero =>
      unfold freeYieldedLoop
      cases vm.lruOldest with
      | none => exact holds
      | some oldest =>
          dsimp only
          split
          · trivial
          · exact holds
  | succ fuel ih =>
      unfold freeYieldedLoop
      cases vm.lruOldest with
      | none => exact holds
      | some oldest =>
          dsimp only
          split
          · exact (freeing_keeps step books holds oldest).bind fun result after =>
              ih _ after.1 after.2
          · exact holds

theorem freeTree_keeps {keeps : State np → Prop}
    (step : ∀ vm order node, Books header vm order → node ∈ order → keeps vm → ∀ vm',
      freeyieldednode header vm node true = .ok (vmPageSize, vm') → keeps vm')
    (p : Fin np) (h fuel : Nat) (node : Option Ptr) (books : ∃ order, Books header vm order)
    (holds : keeps vm) :
    Ends (fun _ => True) (fun vm' => (∃ order, Books header vm' order) ∧ keeps vm')
      (freeTree header p h fuel node vm) := by
  induction fuel generalizing node vm with
  | zero =>
      cases node with
      | none => exact ⟨books, holds⟩
      | some node => trivial
  | succ fuel ih =>
      cases node with
      | none => exact ⟨books, holds⟩
      | some yb =>
          rw [freeTree]
          dsimp only
          split
          · exact ih _ books holds
          · refine (freeing_keeps step books holds yb).bind fun result after => ?_
            split
            · exact after
            · exact assert_ends (fun _ => trivial) fun _ => ih _ after.1 after.2

theorem freeYieldedProcLoop_keeps {keeps : State np → Prop}
    (step : ∀ vm order node, Books header vm order → node ∈ order → keeps vm → ∀ vm',
      freeyieldednode header vm node true = .ok (vmPageSize, vm') → keeps vm')
    (p : Fin np) (count h : Nat) (books : ∃ order, Books header vm order) (holds : keeps vm) :
    Ends (fun _ => True) keeps (freeYieldedProcLoop header p count h vm) := by
  induction count generalizing h vm with
  | zero => exact holds
  | succ count ih =>
      rw [freeYieldedProcLoop]
      split
      · exact (freeTree_keeps step p h _ _ books holds).bind fun vm1 after =>
          ih _ after.1 after.2
      · exact holds

/-- The regions and blocks, and the pages of the yielded blocks that are left, are as before. -/
structure FreedNode (vm vm' : State np) (node : Ptr) (freemem : Bool) : Prop where
  lists : ∀ p, (vm'.vmproc p).vmRegionsAvl = (vm.vmproc p).vmRegionsAvl
  virRegion : vm'.virRegion = vm.virRegion
  physBlock : vm'.physBlock = vm.physBlock
  newBlock : vm'.newBlock = vm.newBlock
  trees : ∀ other, (∃ h, other ∈ vm'.vmYieldedBlocks h) ↔
    (∃ h, other ∈ vm.vmYieldedBlocks h) ∧ other ≠ node
  same : ∀ other, SameBlock (vm.yielded other) (vm'.yielded other)
  free : vm'.free = if freemem then vm.free ∪ Finset.Ico (abs2click (vm.yielded node).physaddr)
    (abs2click (vm.yielded node).physaddr + (vm.yielded node).pages) else vm.free

theorem freeyieldednode_freed (books : Books header vm order) {node : Ptr} (member : node ∈ order)
    {freemem : Bool}
    (result : freeyieldednode header vm node freemem = .ok (vmPageSize, vm')) :
    FreedNode vm vm' node freemem := by
  obtain ⟨p, yielded, lruYoungest, lruOldest, result', -, -, same, -⟩ :=
    freeyieldednode_eq books member freemem
  obtain ⟨-, isState⟩ := Prod.mk.inj (Except.ok.inj (result.symm.trans result'))
  have home := (books.trees _ node).mpr ⟨member, rfl⟩
  subst isState
  refine ⟨fun q => ?_, rfl, rfl, rfl, fun other => ?_, same, rfl⟩
  · by_cases own : q = p
    · subst own
      simp [State.withoutNode]
    · simp [State.withoutNode, own]
  · have tree (h : Nat) : other ∈ (vm.withoutNode header p node freemem yielded lruYoungest
        lruOldest).vmYieldedBlocks h ↔ other ∈ vm.vmYieldedBlocks h ∧ other ≠ node := by
      by_cases own : h = getYieldedAvl header (vm.yielded node).id
      · subst own
        simp only [State.withoutNode, Function.update_self]
        rw [(books.nodupTree _).mem_erase_iff]
        exact and_comm
      · simp only [State.withoutNode, Function.update_of_ne own]
        refine ⟨fun inTree => ⟨inTree, ?_⟩, And.left⟩
        rintro rfl
        exact own ((books.trees h other).mp inTree).2.symm
    simp only [tree]
    constructor
    · rintro ⟨h, inTree, different⟩
      exact ⟨⟨h, inTree⟩, different⟩
    · rintro ⟨⟨h, inTree⟩, different⟩
      exact ⟨h, inTree, different⟩

theorem FreedNode.wellformed {node : Ptr} {freemem : Bool} (freed : FreedNode vm vm' node freemem)
    (wellformed : Wellformed header vm) (books : ∃ order, Books header vm' order) :
    Wellformed header vm' := by
  refine ⟨books, wellformed.blocks.congr freed.lists freed.virRegion freed.physBlock freed.newBlock,
    fun h other inTree => ?_⟩
  obtain ⟨⟨h', before⟩, -⟩ := (freed.trees other).mp ⟨h, inTree⟩
  rw [(freed.same other).2.1]
  exact wellformed.nodes h' other before

theorem given_keeps (vm : State np) (prs : List PhysRegion) (newPhaddr : Nat) :
    KeepsBooks vm (vm.given prs newPhaddr) := by
  induction prs generalizing vm newPhaddr with
  | nil => exact .refl vm
  | cons pr prs ih =>
      exact (keepsBooks_setBlock vm _ _).trans ((keepsBooks_called _).trans (ih _ _))

theorem given_regions (vm : State np) (prs : List PhysRegion) (newPhaddr : Nat) :
    (vm.given prs newPhaddr).vmproc = vm.vmproc ∧
      (vm.given prs newPhaddr).virRegion = vm.virRegion ∧
      (vm.given prs newPhaddr).newBlock = vm.newBlock ∧
      (vm.given prs newPhaddr).free = vm.free ∧
      ∀ pb, ((vm.given prs newPhaddr).physBlock pb).refcount = (vm.physBlock pb).refcount := by
  induction prs generalizing vm newPhaddr with
  | nil => exact ⟨rfl, rfl, rfl, rfl, fun _ => rfl⟩
  | cons pr prs ih =>
      obtain ⟨procs, regions, newBlock, free, counts⟩ :=
        ih ((vm.setBlock pr.ph { vm.physBlock pr.ph with phys := newPhaddr }).called)
          (newPhaddr + vmPageSize)
      refine ⟨procs, regions, newBlock, free, fun pb => (counts pb).trans ?_⟩
      by_cases same : pb = pr.ph
      · subst same
        simp [State.setBlock, State.called]
      · simp [State.setBlock, State.called, same]

/-- One more block is yielded, and the caller's blocks have other pages. -/
structure Remembered (vm vm' : State np) (block : Yielded) (prs : List PhysRegion) (click : Nat) :
    Prop where
  lists : ∀ p, (vm'.vmproc p).vmRegionsAvl = (vm.vmproc p).vmRegionsAvl
  processes : ∀ p, (vm'.vmproc p).vmEndpoint = (vm.vmproc p).vmEndpoint ∧
    (vm'.vmproc p).inUse = (vm.vmproc p).inUse
  virRegion : vm'.virRegion = vm.virRegion
  physBlock : vm'.physBlock = (vm.given prs (click2abs click)).physBlock
  newBlock : vm'.newBlock = vm.newBlock
  free : vm'.free = vm.free \ Finset.Ico click (click + block.pages)
  unused : ∀ h, vm.newYielded ∉ vm.vmYieldedBlocks h
  trees : ∀ node, (∃ h, node ∈ vm'.vmYieldedBlocks h) ↔
    (∃ h, node ∈ vm.vmYieldedBlocks h) ∨ node = vm.newYielded
  same : ∀ node, node ≠ vm.newYielded → SameBlock (vm.yielded node) (vm'.yielded node)
  new : SameBlock block (vm'.yielded vm.newYielded)

theorem given_congr (vm vm' : State np) (prs : List PhysRegion) (newPhaddr : Nat)
    (same : vm'.physBlock = vm.physBlock) :
    (vm'.given prs newPhaddr).physBlock = (vm.given prs newPhaddr).physBlock := by
  induction prs generalizing vm vm' newPhaddr with
  | nil => exact same
  | cons pr prs ih =>
      apply ih
      simp only [State.called, State.setBlock, same]

theorem rememberNode_remembered (header : Header np) (books : Books header vm order) (p : Fin np)
    {block : Yielded} (first : block.younger = none) (prs : List PhysRegion) (click : Nat) :
    Remembered vm (rememberNode header ((vm.taken block click).given prs (click2abs click)) p
      vm.newYielded) block prs click := by
  have unused : vm.newYielded ∉ order := fun member => Nat.lt_irrefl _ (books.fresh _ member)
  have noted : Books header { vm with
      yielded := update vm.yielded vm.newYielded block
      newYielded := vm.newYielded + 1 } order :=
    books.newNode unused (Nat.le_succ _) fun _ different => Function.update_of_ne different _ _
  have taken : KeepsBooks { vm with
      yielded := update vm.yielded vm.newYielded block
      newYielded := vm.newYielded + 1 } (vm.taken block click) :=
    ⟨fun _ => ⟨rfl, rfl, rfl⟩, rfl, rfl, rfl, rfl, rfl, rfl, rfl, rfl⟩
  have keeps := taken.trans (given_keeps (vm.taken block click) prs (click2abs click))
  obtain ⟨procs, regions, newBlock, free, -⟩ :=
    given_regions (vm.taken block click) prs (click2abs click)
  have blocks := given_congr vm (vm.taken block click) prs (click2abs click) rfl
  generalize (vm.taken block click).given prs (click2abs click) = vm1 at *
  have node : vm1.yielded vm.newYielded = block := by
    rw [keeps.yielded]
    exact Function.update_self _ _ _
  have others : ∀ other, other ≠ vm.newYielded → vm1.yielded other = vm.yielded other := by
    intro other different
    rw [keeps.yielded]
    exact Function.update_of_ne different _ _
  obtain ⟨yielded, lruOldest, result, same, -⟩ :=
    rememberNode_eq (keeps.books noted) p unused (node.symm ▸ first)
  rw [result]
  refine
    { lists := ?_, processes := ?_, virRegion := regions, physBlock := blocks
      newBlock := newBlock, free := free, unused := ?_, trees := ?_, same := ?_, new := ?_ }
  · intro q
    by_cases own : q = p
    · subst own
      simp [State.withNode, procs, State.taken]
    · simp [State.withNode, own, procs, State.taken]
  · intro q
    by_cases own : q = p
    · subst own
      simp [State.withNode, procs, State.taken]
    · simp [State.withNode, own, procs, State.taken]
  · exact fun h inTree => unused ((books.trees h _).mp inTree).1
  · intro other
    have trees : vm1.vmYieldedBlocks = vm.vmYieldedBlocks := keeps.vmYieldedBlocks
    have tree (h : Nat) : other ∈ (vm1.withNode header p vm.newYielded yielded lruOldest).vmYieldedBlocks
        h ↔ other ∈ vm.vmYieldedBlocks h ∨
          other = vm.newYielded ∧ h = getYieldedAvl header (vm1.yielded vm.newYielded).id := by
      by_cases own : h = getYieldedAvl header (vm1.yielded vm.newYielded).id
      · subst own
        simp only [State.withNode, Function.update_self, and_true]
        rw [mem_yieldedInsert, trees]
        exact or_comm
      · simp only [State.withNode, Function.update_of_ne own, trees, own, and_false, or_false]
    simp only [tree]
    constructor
    · rintro ⟨h, before | ⟨isNew, -⟩⟩
      · exact Or.inl ⟨h, before⟩
      · exact Or.inr isNew
    · rintro (⟨h, before⟩ | isNew)
      · exact ⟨h, Or.inl before⟩
      · exact ⟨_, Or.inr ⟨isNew, rfl⟩⟩
  · intro other different
    rw [← others other different]
    exact same other
  · rw [← node]
    exact same _

theorem Remembered.wellformed {block : Yielded} {prs : List PhysRegion} {click : Nat}
    (remembered : Remembered vm vm' block prs click) (wellformed : Wellformed header vm)
    (books : ∃ order, Books header vm' order)
    (blocks : Blocks ((vm.taken block click).given prs (click2abs click)))
    (paged : block.physaddr % vmPageSize = 0) : Wellformed header vm' := by
  obtain ⟨procs, regions, newBlock, -, -⟩ :=
    given_regions (vm.taken block click) prs (click2abs click)
  refine ⟨books, blocks.congr (fun p => ?_) ?_ ?_ ?_, fun h node inTree => ?_⟩
  · rw [remembered.lists, procs]
    rfl
  · rw [remembered.virRegion, regions]
    rfl
  · rw [remembered.physBlock, given_congr vm (vm.taken block click) prs _ rfl]
  · rw [remembered.newBlock, newBlock]
    rfl
  · by_cases isNew : node = vm.newYielded
    · subst isNew
      rw [remembered.new.2.1]
      exact paged
    · obtain ⟨h', before⟩ := ((remembered.trees node).mp ⟨h, inTree⟩).resolve_right isNew
      rw [(remembered.same node isNew).2.1]
      exact wellformed.nodes h' node before

/-- What is left of a state by a request to yield a block. -/
theorem yieldblock_wellformed (header : Header np) (answers : Answers)
    (wellformed : Wellformed header vm) {p : Fin np} (live : (vm.vmproc p).inUse) (id : BitVec 64)
    (vaddr : VirBytes) (pages : Nat) :
    Ends (fun _ => ¬ Writes answers) (fun result => Wellformed header result.2)
      (yieldblock header answers vm p id vaddr pages) := by
  obtain ⟨order, books⟩ := wellformed.books
  have booked : Books.Kept header vm (yieldblock header answers vm p id vaddr pages) :=
    yieldblock_books books live id vaddr pages
  have cases' := yieldblock_cases header answers wellformed.blocks p id vaddr pages
  revert booked cases'
  generalize yieldblock header answers vm p id vaddr pages = outcome
  intro booked cases'
  cases cases' with
  | stopped stop reason => exact reason
  | failed code bad newYielded calls later early =>
      exact ⟨booked.1, wellformed.blocks.congr (fun _ => rfl) rfl rfl rfl, wellformed.nodes⟩
  | yielded block pr prs click search isId size wanted first place found contiguous memory blocks =>
      refine (rememberNode_remembered header books p first (pr :: prs) click).wellformed wellformed
        booked.1 blocks ?_
      rw [place]
      refine wellformed.blocks.pages _ ?_
      rw [found.alone List.mem_cons_self]
      exact Nat.one_pos

end Ve482.Vm
