import Ve482.Vm.Requests
import Ve482.Vm.Unmap

set_option autoImplicit false

namespace Ve482.Vm

open Function (update)
open Fallible (Ends)
open Ownership (Partition transfer transfer_source transfer_target transfer_other)

variable {np : Nat} {header : Header np} {answers : Answers} {vm vm' : State np} {order : List Ptr}
  {regions : List Ptr} {memory : Set Nat}

theorem pbUnreferenced_slots (vm : State np) (r : Ptr) (pr : PhysRegion) :
    Ends (fun _ => True) (fun vm' => ∀ i, (vm'.virRegion r).physblocks i =
        if i = pr.offset / vmPageSize then none else (vm.virRegion r).physblocks i)
      (pbUnreferenced vm r pr) := by
  unfold pbUnreferenced
  refine assert_ends (fun _ => trivial) fun _ =>
    (physblockSet_slot _ r _ none).imp fun vm' set i => ?_
  subst set
  rw [setSlot_slot]
  simp only [true_and]
  congr 1
  split <;> rfl

/-- The loop empties the slots that it comes to. -/
theorem mapSubfreeLoop_tallied {r : Ptr} (start last count first : Nat)
    (measured : Measured vm regions) (member : r ∈ regions) :
    Ends (fun _ => True) (fun vm' => Tallied regions vm vm' ∧
        ∀ i, (first ≤ i ∧ i < first + count ∨ (vm.virRegion r).physblocks i = none) →
          (vm'.virRegion r).physblocks i = none)
      (mapSubfreeLoop r start last count (first * vmPageSize) vm) := by
  induction count generalizing first vm with
  | zero =>
      refine ⟨.refl vm, fun i cases' => cases'.resolve_left fun within => ?_⟩
      omega
  | succ count ih =>
      rw [mapSubfreeLoop]
      refine (physblockGet_slot _ _).bind fun found slot => ?_
      obtain ⟨-, -, there, offset⟩ := slot
      rw [(offset_slot first).1] at there
      cases found with
      | none =>
          dsimp only
          rw [← Nat.succ_mul]
          refine (ih (first + 1) measured).imp fun vm' after => ⟨after.1, fun i cases' => ?_⟩
          refine after.2 i ?_
          by_cases here : i = first
          · exact Or.inr (here ▸ there.symm)
          · exact cases'.imp (fun within => by omega) id
      | some pr =>
          have place : pr.offset / vmPageSize = first := by
            rw [offset pr rfl, (offset_slot first).1]
          have resident : (vm.virRegion r).physblocks (pr.offset / vmPageSize) = some pr := by
            rw [place]
            exact there.symm
          refine assert_ends (fun _ => trivial) fun _ => assert_ends (fun _ => trivial) fun _ =>
            (((pbUnreferenced_tallied measured member resident).and
              (pbUnreferenced_slots vm r pr)).stop fun _ _ => trivial).bind fun vm1 left => ?_
          obtain ⟨⟨tallied, -⟩, slots⟩ := left
          rw [← Nat.succ_mul]
          refine (ih (first + 1) (tallied.measured measured)).imp
            fun vm' after => ⟨tallied.trans after.1, fun i cases' => ?_⟩
          refine after.2 i ?_
          rw [slots, place]
          by_cases here : i = first
          · exact Or.inr (if_pos here)
          · rw [if_neg here]
            exact cases'.imp (fun within => by omega) id

/-- A freed region refers to no block. -/
theorem mapFree_tallied {r : Ptr} (measured : Measured vm regions) (member : r ∈ regions) :
    Ends (fun _ => True) (fun vm' => Tallied regions vm vm' ∧ (vm'.virRegion r).allRefs = [])
      (mapFree vm r) := by
  have pages : ((vm.virRegion r).length + vmPageSize - 1) / vmPageSize =
      (vm.virRegion r).length / vmPageSize := by
    have whole := measured.aligned r member
    unfold vmPageSize at *
    omega
  have loop := mapSubfreeLoop_tallied 0 (vm.virRegion r).length
    ((vm.virRegion r).length / vmPageSize) 0 measured member
  rw [Nat.zero_mul] at loop
  unfold mapFree mapSubfree
  rw [pages, Nat.zero_add]
  refine loop.bind fun vm1 after => ?_
  obtain ⟨tallied, emptied⟩ := after
  have cleared : ∀ region : VirRegion np,
      ({ region with physblocks := fun _ => none } : VirRegion np).allRefs = [] :=
    fun region => VirRegion.refs_empty fun _ _ _ => rfl
  have none : (vm1.virRegion r).allRefs = [] := by
    refine VirRegion.refs_empty fun i _ small => emptied i (Or.inl ⟨Nat.zero_le i, ?_⟩)
    rwa [(tallied.frame r).length] at small
  refine ⟨tallied.trans ⟨⟨fun other => ?_, rfl, id⟩, fun _ => rfl, fun _ => rfl, fun pb => ?_⟩, ?_⟩
  · show SameFrame _ (update vm1.virRegion r _ other)
    by_cases same : other = r
    · subst same
      rw [Function.update_self]
      rfl
    · rw [Function.update_of_ne same]
      exact .refl _
  · refine congrArg (fun refs => (vm1.physBlock pb).refcount + List.count pb refs) ?_
    refine List.flatMap_congr fun other _ => ?_
    show _ = (update vm1.virRegion r _ other).allRefs
    by_cases same : other = r
    · subst same
      rw [Function.update_self, none, cleared]
    · rw [Function.update_of_ne same]
  · show (update vm1.virRegion r _ r).allRefs = []
    rw [Function.update_self]
    exact cleared _

/-- The regions of a process are freed, and those that are left are counted. -/
theorem mapFreeRegions_exact (p : Fin np) (regions rest : List Ptr)
    (measured : Measured vm (regions ++ rest)) (exact : Exact vm (regions ++ rest)) :
    Ends (fun _ => True) (fun vm' => Stays vm vm' ∧ Exact vm' rest ∧
        ∀ q, q ≠ p → vm'.vmproc q = vm.vmproc q)
      (mapFreeRegions p regions vm) := by
  induction regions generalizing vm with
  | nil => exact ⟨.refl vm, exact, fun _ _ => rfl⟩
  | cons r regions ih =>
      rw [mapFreeRegions]
      generalize listed : vm.setProc p { vm.vmproc p with
        vmRegionsAvl := (vm.vmproc p).vmRegionsAvl.erase r } = vm1
      have stays : Stays vm vm1 := by
        subst listed
        exact ⟨fun _ => .refl _, rfl, id⟩
      have exact1 : Exact vm1 (r :: regions ++ rest) := by
        subst listed
        exact exact
      have others : ∀ q, q ≠ p → vm1.vmproc q = vm.vmproc q := by
        subst listed
        exact fun q different => Function.update_of_ne different _ _
      refine (((mapFree_tallied (stays.measured measured) List.mem_cons_self).and
        (mapFree_reslotted vm1)).stop fun _ _ => trivial).bind fun vm2 after => ?_
      obtain ⟨⟨tallied, none⟩, slotted, -⟩ := after
      have measured2 := tallied.measured (stays.measured measured)
      have exact2 : Exact vm2 (regions ++ rest) := by
        intro pb
        rw [tallied.exact exact1 pb, List.cons_append, procRefs, List.flatMap_cons, none]
        rfl
      refine (ih ⟨(List.nodup_cons.mp measured2.nodup).2, fun other member =>
        measured2.aligned other (List.mem_cons_of_mem r member)⟩ exact2).imp fun vm' later => ?_
      refine ⟨(stays.trans tallied.toStays).trans later.1, later.2.1, fun q different => ?_⟩
      rw [later.2.2 q different, slotted.vmproc, others q different]

/-- The blocks in use have pages. -/
def Backed (vm : State np) : Prop :=
  ∀ pb, 0 < (vm.physBlock pb).refcount → (vm.physBlock pb).phys % vmPageSize = 0

theorem holding_congr (free : vm'.free = vm.free) (physBlock : vm'.physBlock = vm.physBlock)
    (trees : vm'.vmYieldedBlocks = vm.vmYieldedBlocks) (yielded : vm'.yielded = vm.yielded) :
    holding vm' = holding vm := by
  funext place
  cases place with
  | free => simp [holding, free]
  | block pb => simp [holding, physBlock]
  | yielded node => simp [holding, trees, yielded]

/-- A block that loses its last reference gives its page back. -/
theorem unreferenced_owned {pb : Ptr} (positive : 0 < (vm.physBlock pb).refcount)
    (aligned : (vm.physBlock pb).phys % vmPageSize = 0) (owned : Owned memory vm) :
    let block := vm.physBlock pb
    let less := vm.setBlock pb { block with refcount := block.refcount - 1 }
    Owned memory (if block.refcount - 1 = 0 ∧ block.phys ≠ mapNone then
      less.freeMem (abs2click block.phys) 1 else less) := by
  intro block less
  have page := click2abs_abs2click aligned
  have isPage : block.phys ≠ mapNone := by
    intro none
    have odd : mapNone % vmPageSize = 0 := none ▸ aligned
    revert odd
    decide
  by_cases last : block.refcount - 1 = 0
  · rw [if_pos ⟨last, isPage⟩]
    have held : holding vm (.block pb) = {abs2click block.phys} := holding_block positive page.symm
    have freed := owned.transfer (.block pb) .free {abs2click block.phys} (by simp) held.ge
    unfold Owned
    convert freed using 1
    funext place
    cases place with
    | free =>
        ext other
        simp [transfer, holding, less, block, State.freeMem, State.setBlock]
    | block other =>
        by_cases same : other = pb
        · subst same
          have after : holding (less.freeMem (abs2click block.phys) 1) (.block other) = ∅ :=
            holding_unused (by simpa [less, State.freeMem, State.setBlock] using last)
          rw [after, transfer_source, held, Set.sdiff_self]
        · rw [transfer_other (by simpa using same) (by simp)]
          simp [holding, less, State.freeMem, State.setBlock, same]
    | yielded node =>
        rw [transfer_other (by simp) (by simp)]
        simp [holding, less, State.freeMem, State.setBlock]
  · rw [if_neg fun both => last both.1]
    have same : holding less = holding vm := by
      funext place
      cases place with
      | free => rfl
      | block other =>
          by_cases same : other = pb
          · subst same
            ext page
            simp only [holding, less, State.setBlock, Function.update_self, Set.mem_ofPred_eq, block]
            refine and_congr_left' (iff_of_true ?_ positive)
            exact Nat.pos_of_ne_zero last
          · simp [holding, less, State.setBlock, same]
      | yielded node => rfl
    unfold Owned
    rw [same]
    exact owned

theorem pbUnreferenced_owned {r : Ptr} {pr : PhysRegion} (pages : Backed vm)
    (owned : Owned memory vm) :
    Ends (fun _ => True) (fun vm' => Backed vm' ∧ Owned memory vm')
      (pbUnreferenced vm r pr) := by
  unfold pbUnreferenced
  refine assert_ends (fun _ => trivial) fun positive => ?_
  refine (physblockSet_slot _ r _ none).imp fun vm' set => ?_
  subst set
  refine ⟨fun pb counted => ?_, ?_⟩
  · have blocks : ∀ {condition : Prop} [Decidable condition] (vm : State np) (click : Nat),
        (if condition then vm.freeMem click 1 else vm).physBlock = vm.physBlock := by
      intro condition _ vm click
      split <;> rfl
    simp only [State.setSlot, blocks, State.setBlock] at counted ⊢
    by_cases same : pb = pr.ph
    · subst same
      rw [Function.update_self] at counted ⊢
      exact pages _ positive
    · rw [Function.update_of_ne same] at counted ⊢
      exact pages pb counted
  · have given := unreferenced_owned positive (pages _ positive) owned
    unfold Owned at given ⊢
    rwa [holding_congr rfl rfl rfl rfl]

/-- What a block that loses a reference and a region that leaves keep, freeing regions keeps. -/
theorem mapFreeRegions_rule {keeps : State np → Prop} (p : Fin np) (regions : List Ptr)
    (unreferenced : ∀ vm, ∀ r ∈ regions, ∀ pr, keeps vm →
      Ends (fun _ => True) keeps (pbUnreferenced vm r pr))
    (cleared : ∀ vm, ∀ r ∈ regions, ∀ region, keeps vm →
      keeps { vm with virRegion := update vm.virRegion r region })
    (listed : ∀ vm proc, keeps vm → keeps (vm.setProc p proc)) (holds : keeps vm) :
    Ends (fun _ => True) keeps (mapFreeRegions p regions vm) := by
  have slots {r : Ptr} (member : r ∈ regions) (start last count voffset : Nat) (vm : State np)
      (holds : keeps vm) :
      Ends (fun _ => True) keeps (mapSubfreeLoop r start last count voffset vm) := by
    induction count generalizing voffset vm with
    | zero => exact holds
    | succ count ih =>
        rw [mapSubfreeLoop]
        refine (physblockGet_ends _ _).bind fun found _ => ?_
        cases found with
        | none => exact ih _ _ holds
        | some pr =>
            refine assert_ends (fun _ => trivial) fun _ => assert_ends (fun _ => trivial) fun _ =>
              (unreferenced vm r member pr holds).bind fun vm1 kept => ?_
            exact ih _ _ kept
  induction regions generalizing vm with
  | nil => exact holds
  | cons r regions ih =>
      have inRest : ∀ {other}, other ∈ regions → other ∈ r :: regions := List.mem_cons_of_mem r
      rw [mapFreeRegions]
      refine Ends.bind ?_ fun vm1 kept => ih
        (fun vm other member => unreferenced vm other (inRest member))
        (fun vm other member => cleared vm other (inRest member)) kept
        (fun member => slots (inRest member))
      unfold mapFree mapSubfree
      exact (slots List.mem_cons_self _ _ _ _ _ (listed vm _ holds)).bind fun vm1 kept =>
        cleared vm1 r List.mem_cons_self _ kept

theorem mapFreeRegions_owned (p : Fin np) (regions : List Ptr) (pages : Backed vm)
    (owned : Owned memory vm) :
    Ends (fun _ => True) (fun vm' => Backed vm' ∧ Owned memory vm')
      (mapFreeRegions p regions vm) := by
  have same {vm vm' : State np} (same : holding vm' = holding vm) (owned : Owned memory vm) :
      Owned memory vm' := by
    unfold Owned at owned ⊢
    rwa [same]
  exact mapFreeRegions_rule p regions
    (fun vm r _ pr kept => pbUnreferenced_owned kept.1 kept.2)
    (fun vm r _ region kept => ⟨kept.1, same (holding_congr rfl rfl rfl rfl) kept.2⟩)
    (fun vm proc kept => ⟨kept.1, same (holding_congr rfl rfl rfl rfl) kept.2⟩) ⟨pages, owned⟩

theorem allRegions_congr
    (lists : ∀ p, (vm'.vmproc p).vmRegionsAvl = (vm.vmproc p).vmRegionsAvl) :
    allRegions vm' = allRegions vm := by
  unfold allRegions
  simp only [lists]

/-- The process with no regions. -/
def State.without (vm : State np) (p : Fin np) : State np :=
  vm.setProc p { vm.vmproc p with vmRegionsAvl := [] }

theorem without_own (vm : State np) (p : Fin np) :
    ((vm.without p).vmproc p).vmRegionsAvl = [] := by
  simp [State.without, State.setProc]

theorem without_other {p q : Fin np} (different : q ≠ p) :
    (vm.without p).vmproc q = vm.vmproc q :=
  Function.update_of_ne different _ _

/-- The regions of a process are apart from those of the others. -/
theorem allRegions_split (vm : State np) (p : Fin np) :
    (allRegions vm).Perm ((vm.vmproc p).vmRegionsAvl ++ allRegions (vm.without p)) := by
  generalize list : (vm.vmproc p).vmRegionsAvl = regions
  induction regions generalizing vm with
  | nil =>
      have same : vm.without p = vm := by
        unfold State.without State.setProc
        rw [← list, Function.update_eq_self]
      rw [same]
      exact .refl _
  | cons r regions ih =>
      have rest := ih (vm.setProc p { vm.vmproc p with vmRegionsAvl := regions })
        (by simp [State.setProc])
      have twice : (vm.setProc p { vm.vmproc p with vmRegionsAvl := regions }).without p =
          vm.without p := by
        simp [State.without, State.setProc]
      rw [twice] at rest
      exact (allRegions_perm list).trans (rest.cons r)

theorem Exact.perm {regions' : List Ptr} (exact : Exact vm regions) (perm : regions.Perm regions') :
    Exact vm regions' :=
  fun pb => (exact pb).trans ((perm.flatMap_right _).count_eq pb)

theorem Measured.perm {regions' : List Ptr} (measured : Measured vm regions)
    (perm : regions.Perm regions') : Measured vm regions' :=
  ⟨perm.nodup measured.nodup, fun r member => measured.aligned r (perm.mem_iff.mpr member)⟩

/-- What is left of the regions by the end of a process. -/
structure Departed (vm vm' : State np) (p : Fin np) : Prop extends Stays vm vm' where
  lists : ∀ q, (vm'.vmproc q).vmRegionsAvl = ((vm.without p).vmproc q).vmRegionsAvl
  exact : Exact vm' (allRegions vm')

theorem mapFreeProc_departed (wellformed : Wellformed header vm) (exact : Exact vm (allRegions vm))
    {p : Fin np} :
    Ends (fun _ => True) (fun vm' => Departed vm vm' p) (mapFreeProc header vm p) := by
  obtain ⟨order, books⟩ := wellformed.books
  have split := allRegions_split vm p
  unfold mapFreeProc
  refine (((mapFreeRegions_exact p _ _ (wellformed.blocks.measured.perm split)
    (exact.perm split)).and (mapFreeRegions_keeps p _ vm)).stop fun _ _ => trivial).bind
      fun vm1 after => ?_
  obtain ⟨⟨stays, exact1, others⟩, keeps⟩ := after
  have books1 := (keeps.trans (keepsBooks_setRegions vm1 p [])).books books
  have listed : ∀ q, ((vm1.without p).vmproc q).vmRegionsAvl =
      ((vm.without p).vmproc q).vmRegionsAvl := by
    intro q
    by_cases own : q = p
    · rw [own, without_own, without_own]
    · rw [without_other own, without_other own, others q own]
  have kept := freeYieldedProcLoop_keeps
    (freeing_tallied header (allRegions (vm.without p)) (vm1.without p)) p yieldHashsize 0
    ⟨order, books1⟩ (.refl _)
  refine kept.imp fun vm' tallied => ⟨?_, fun q => (tallied.lists q).trans (listed q), ?_⟩
  · have bare : Stays vm1 (vm1.without p) := ⟨fun _ => .refl _, rfl, id⟩
    exact (stays.trans bare).trans tallied.toStays
  · have exact2 : Exact (vm1.without p) (allRegions (vm.without p)) := exact1
    rw [allRegions_congr fun q => (tallied.lists q).trans (listed q)]
    exact tallied.exact exact2

/-- What the freeing of its regions and of its yielded blocks keeps, the end of a process keeps. -/
theorem mapFreeProc_rule {keeps : State np → Prop} (wellformed : Wellformed header vm) {p : Fin np}
    (regions : Ends (fun _ => True) keeps (mapFreeRegions p (vm.vmproc p).vmRegionsAvl vm))
    (listed : ∀ vm proc, keeps vm → keeps (vm.setProc p proc))
    (freeing : ∀ vm order node, Books header vm order → node ∈ order → Paged vm ∧ keeps vm → ∀ vm',
      freeyieldednode header vm node true = .ok (vmPageSize, vm') → Paged vm' ∧ keeps vm') :
    Ends (fun _ => True) keeps (mapFreeProc header vm p) := by
  obtain ⟨order, books⟩ := wellformed.books
  unfold mapFreeProc
  have blocks : Ends (fun _ => True) (fun vm' => Paged (vm'.without p))
      (mapFreeRegions p (vm.vmproc p).vmRegionsAvl vm) := by
    obtain ⟨vm1, result, blocks1, keeps, none⟩ := mapFreeRegions_blocks _ wellformed.blocks
      (Eq.refl (vm.vmproc p).vmRegionsAvl)
    rw [result]
    refine ⟨blocks1.congr (fun q => ?_) rfl rfl rfl, fun h node inTree => ?_⟩
    · by_cases own : q = p
      · rw [own, without_own, none]
      · rw [without_other own]
    · rw [State.without, State.setProc, keeps.yielded]
      change node ∈ vm1.vmYieldedBlocks h at inTree
      rw [keeps.vmYieldedBlocks] at inTree
      exact wellformed.nodes h node inTree
  refine (((regions.and (mapFreeRegions_keeps p _ vm)).and blocks).stop fun _ _ => trivial).bind
    fun vm1 after => ?_
  obtain ⟨⟨kept, sameBooks⟩, paged⟩ := after
  have books1 := (sameBooks.trans (keepsBooks_setRegions vm1 p [])).books books
  exact (freeYieldedProcLoop_keeps freeing p yieldHashsize 0 ⟨order, books1⟩
    ⟨paged, listed vm1 _ kept⟩).imp fun vm' kept => kept.2

theorem mapFreeProc_owned (wellformed : Wellformed header vm) (owned : Owned memory vm)
    {p : Fin np} : Ends (fun _ => True) (Owned memory) (mapFreeProc header vm p) := by
  refine mapFreeProc_rule wellformed
    ((mapFreeRegions_owned p _ wellformed.blocks.pages owned).imp fun _ kept => kept.2)
    (fun vm proc kept => ?_) (freeing_owned header)
  unfold Owned at kept ⊢
  rwa [holding_congr rfl rfl rfl rfl]

end Ve482.Vm
