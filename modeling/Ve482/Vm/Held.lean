import Ve482.Vm.Lifetime

set_option autoImplicit false

namespace Ve482.Vm

open Function (update)
open Fallible (Ends)

variable {np : Nat} {header : Header np} {answers : Answers} {vm vm' : State np} {order : List Ptr}
  {memory : Set Nat}

/-- The pages that have an owner. -/
def held (vm : State np) : Set Nat := {page | ∃ place, page ∈ holding vm place}

theorem held_place (place : Place) {page : Nat} (there : page ∈ holding vm place) :
    page ∈ held vm :=
  ⟨place, there⟩

theorem held_congr (same : holding vm' = holding vm) : held vm' = held vm := by
  unfold held
  rw [same]

theorem free_held {click : Nat} (free : click ∈ vm.free) : click ∈ held vm :=
  held_place .free free

theorem block_held {pb : Ptr} (counted : 0 < (vm.physBlock pb).refcount)
    (aligned : (vm.physBlock pb).phys % vmPageSize = 0) :
    abs2click (vm.physBlock pb).phys ∈ held vm :=
  held_place (.block pb) ⟨counted, (click2abs_abs2click aligned).symm⟩

/-- What the owners of the pages afterwards have from those before. -/
theorem held_of {pages : Set Nat} (free : ∀ page ∈ vm'.free, page ∈ pages)
    (block : ∀ pb page, 0 < (vm'.physBlock pb).refcount →
      (vm'.physBlock pb).phys = click2abs page → page ∈ pages)
    (yielded : ∀ node h page, node ∈ vm'.vmYieldedBlocks h → page ∈ (vm'.yielded node).range →
      page ∈ pages) : held vm' ⊆ pages := by
  rintro page ⟨place, there⟩
  cases place with
  | free => exact free page there
  | block pb => exact block pb page there.1 there.2
  | yielded node =>
      obtain ⟨⟨h, inTree⟩, inRange⟩ := there
      exact yielded node h page inTree inRange

theorem yielded_held {node : Ptr} {h page : Nat} (inTree : node ∈ vm.vmYieldedBlocks h)
    (inRange : page ∈ (vm.yielded node).range) : page ∈ held vm :=
  held_place (.yielded node) ⟨⟨h, inTree⟩, inRange⟩

/-- Only blocks and the list of free pages have changed. -/
theorem held_blocks {pages : Set Nat} (before : held vm ⊆ pages)
    (free : ∀ page ∈ vm'.free, page ∈ pages)
    (block : ∀ pb page, 0 < (vm'.physBlock pb).refcount →
      (vm'.physBlock pb).phys = click2abs page → page ∈ pages)
    (trees : vm'.vmYieldedBlocks = vm.vmYieldedBlocks) (yielded : vm'.yielded = vm.yielded) :
    held vm' ⊆ pages := by
  refine held_of free block fun node h page inTree inRange => before ?_
  rw [trees] at inTree
  rw [yielded] at inRange
  exact yielded_held inTree inRange

theorem FreedNode.held {node : Ptr} {freemem : Bool} (freed : FreedNode vm vm' node freemem)
    {h : Nat} (inTree : node ∈ vm.vmYieldedBlocks h)
    (aligned : (vm.yielded node).physaddr % vmPageSize = 0) : held vm' ⊆ held vm := by
  refine held_of (fun page free => ?_) (fun pb page counted phys => ?_)
    fun other h' page inTree' inRange => ?_
  · rw [freed.free] at free
    split at free
    · rcases Finset.mem_union.mp free with before | inRange
      · exact free_held before
      · refine yielded_held inTree ?_
        rw [Yielded.range_eq (click2abs_abs2click aligned).symm]
        exact inRange
    · exact free_held free
  · rw [freed.physBlock] at counted phys
    exact held_place (.block pb) ⟨counted, phys⟩
  · obtain ⟨⟨h'', before⟩, -⟩ := (freed.trees other).mp ⟨h', inTree'⟩
    obtain ⟨-, physaddr, size⟩ := freed.same other
    refine yielded_held before ?_
    unfold Yielded.range at inRange ⊢
    rwa [physaddr, size] at inRange

theorem freeing_held (header : Header np) (pages : Set Nat) (vm : State np) (order : List Ptr)
    (node : Ptr) (books : Books header vm order) (member : node ∈ order)
    (kept : Paged vm ∧ held vm ⊆ pages) (vm' : State np)
    (result : freeyieldednode header vm node true = .ok (vmPageSize, vm')) :
    Paged vm' ∧ held vm' ⊆ pages := by
  have inTree := (books.trees _ node).mpr ⟨member, rfl⟩
  refine ⟨freeing_paged header vm order node books member kept.1 vm' result, ?_⟩
  exact ((freeyieldednode_freed books member result).held inTree
    (kept.1.nodes _ node inTree)).trans kept.2

variable {pages : Set Nat}

theorem swapped_held {pb : Ptr} {new : Nat} (one : (vm.physBlock pb).refcount = 1)
    (aligned : (vm.physBlock pb).phys % vmPageSize = 0) (next : new ∈ pages)
    (before : held vm ⊆ pages) : held (vm.swapped pb (click2abs new)) ⊆ pages := by
  refine held_blocks before (fun page free => ?_) (fun other page counted phys => ?_) rfl rfl
  · rcases Finset.mem_union.mp free with stays | freed
    · exact before (free_held stays)
    · rw [Finset.mem_Ico] at freed
      obtain rfl : page = abs2click (vm.physBlock pb).phys := by omega
      exact before (block_held (by omega) aligned)
  · by_cases same : other = pb
    · subst same
      have own : ((vm.swapped other (click2abs new)).physBlock other).phys = click2abs new := by
        simp [State.swapped, State.setBlock]
      rw [own] at phys
      exact click2abs_injective phys ▸ next
    · have kept : (vm.swapped pb (click2abs new)).physBlock other = vm.physBlock other := by
        simp [State.swapped, State.setBlock, State.freeMem, same]
      rw [kept] at counted phys
      exact before (held_place (.block other) ⟨counted, phys⟩)

theorem filled_held {r : Ptr} {i click : Nat} (free : click ∈ vm.free) (before : held vm ⊆ pages) :
    held (vm.filled r i click) ⊆ pages := by
  refine held_blocks before (fun page left => ?_) (fun pb page counted phys => ?_) rfl rfl
  · exact before (free_held (Finset.mem_of_mem_erase left))
  · by_cases isNew : pb = vm.newBlock
    · subst isNew
      have own : (vm.filled r i click).physBlock vm.newBlock = ⟨click2abs click, 1⟩ :=
        Function.update_self _ _ _
      rw [own] at phys
      exact before (free_held (click2abs_injective phys ▸ free))
    · have kept : (vm.filled r i click).physBlock pb = vm.physBlock pb :=
        Function.update_of_ne isNew _ _
      rw [kept] at counted phys
      exact before (held_place (.block pb) ⟨counted, phys⟩)

theorem parted_held {r : Ptr} {i : Nat} {pb : Ptr} (before : held vm ⊆ pages) :
    held (vm.parted r i pb) ⊆ pages := by
  refine held_blocks before (fun page free => before (free_held free))
    (fun other page counted phys => ?_) rfl rfl
  by_cases same : other = pb
  · subst same
    simp only [State.parted, State.setSlot, State.setBlock, Function.update_self] at counted phys
    exact before (held_place (.block other) ⟨by omega, phys⟩)
  · simp only [State.parted, State.setSlot, State.setBlock, Function.update_of_ne same] at counted phys
    exact before (held_place (.block other) ⟨counted, phys⟩)

theorem getPages_held (header : Header np) (answers : Answers) (p : Fin np) (count : Nat)
    (v : VirBytes) (click : Nat) (blocks : Blocks vm)
    (coming : ∀ page ∈ Finset.Ico click (click + count), page ∈ pages) (before : held vm ⊆ pages) :
    Ends (fun _ => True) (fun result => result.1 = .ok → held result.2 ⊆ pages)
      (getPages header answers p count v (click2abs click) vm) := by
  induction count generalizing v click vm with
  | zero => exact fun _ => before
  | succ count ih =>
      have step := getPages_succ header answers blocks p count v (click2abs click)
      have next : click2abs click + vmPageSize = click2abs (click + 1) := by
        rw [click2abs, click2abs, Nat.add_mul, Nat.one_mul]
      have first : click ∈ pages := coming click (by simp)
      have later : ∀ page ∈ Finset.Ico (click + 1) (click + 1 + count), page ∈ pages := by
        intro page member
        rw [Finset.mem_Ico] at member
        exact coming page (Finset.mem_Ico.mpr (by omega))
      revert step
      generalize getPages header answers p (count + 1) v (click2abs click) vm = outcome
      intro step
      rw [next] at step
      cases step with
      | stopped => trivial
      | absent | refused =>
          intro failed
          cases failed
      | @alone r i pr there one =>
          have paged := blocks.pages pr.ph (by omega)
          exact ih _ _ (blocks.swapped pr.ph (click2abs_aligned click)) later
            (swapped_held one paged first before)
      | @cloned r i pr there shared clonable granted new memory' =>
          have blocks1 := blocks.cloned there.toSlot there.resident new
          have free := answers.allocMem_free _ _ _ _ memory' 0 Nat.one_pos
          have own : (vm.cloned r i pr.ph new).physBlock vm.newBlock = ⟨click2abs new, 1⟩ :=
            Function.update_self _ _ _
          have cloned : held (vm.cloned r i pr.ph new) ⊆ pages :=
            filled_held (r := r) (i := i) free (parted_held before)
          refine ih _ _ (blocks1.swapped vm.newBlock (click2abs_aligned click)) later
            (swapped_held (by rw [own]) ?_ first cloned)
          rw [own]
          exact click2abs_aligned new

theorem getblock_held (header : Header np) (answers : Answers) (wellformed : Wellformed header vm)
    (before : held vm ⊆ pages) (p : Fin np) (id : BitVec 64) (vaddr : VirBytes) {count : Nat}
    (positive : 0 < count) (short : count < 2 ^ 20)
    (wanted : Wanted header answers vm p True (pageAt vm p vaddr.toNat = none) id vaddr count) :
    Ends (fun _ => True) (fun result => held result.2 ⊆ pages)
      (getblock header answers vm p id vaddr count) := by
  obtain ⟨order, books⟩ := wellformed.books
  unfold getblock Wanted at *
  dsimp only at wanted ⊢
  cases search : yieldedSearch vm (vm.vmYieldedBlocks
      (getYieldedAvl header { owner := (vm.vmproc p).vmEndpoint, id }))
      { owner := (vm.vmproc p).vmEndpoint, id } with
  | none => exact before
  | some yb =>
      have member := (books.search_some search).1
      have inTree := (books.trees _ yb).mpr ⟨member, rfl⟩
      have paged := wellformed.nodes _ yb inTree
      dsimp only
      by_cases size : (vm.yielded yb).pages = count
      · rw [if_neg (not_not.mpr size)]
        have walk := wanted yb search size
        have start := click2abs_abs2click paged
        by_cases absent : pageAt vm p vaddr.toNat = none
        · refine (getPages_absent header answers wellformed.blocks absent positive _).bind
            fun result same => ?_
          subst same
          exact before
        · have keeps : Keeps vm
              (getPages header answers p count vaddr (vm.yielded yb).physaddr vm) :=
            getPages_keeps p count vaddr _ vm
          have reached := getPages_walk header answers p True (pageAt vm p vaddr.toNat = none) count
            vaddr wellformed.blocks paged short
          have got := getPages_held header answers p count vaddr
            (abs2click (vm.yielded yb).physaddr) wellformed.blocks (fun page inRange => ?_) before
          · rw [start] at got
            refine ((((got.and keeps).and reached).stop fun _ _ => trivial)).bind fun result after => ?_
            obtain ⟨code, vm1⟩ := result
            obtain ⟨⟨got, keeps⟩, -, -, reached⟩ := after
            obtain rfl : code = .ok := (reached.mp walk).resolve_right absent
            have books1 := keeps.books books
            obtain ⟨vm2, result, swept, -⟩ := freeyieldednode_ok books1 member false
            dsimp only
            rw [result]
            refine ((freeyieldednode_freed books1 member result).held
              ((books1.trees _ yb).mpr ⟨member, rfl⟩) ?_).trans (got rfl)
            rw [keeps.yielded]
            exact paged
          · refine before (yielded_held inTree ?_)
            rw [Yielded.range_eq start.symm, size]
            exact inRange
      · rw [if_pos size]
        exact before

/-- A block has its page or one of the new ones. -/
theorem given_phys (vm : State np) (prs : List PhysRegion) (click : Nat) (pb : Ptr) :
    ((vm.given prs (click2abs click)).physBlock pb).phys = (vm.physBlock pb).phys ∨
      ∃ page ∈ Finset.Ico click (click + prs.length),
        ((vm.given prs (click2abs click)).physBlock pb).phys = click2abs page := by
  induction prs generalizing vm click with
  | nil => exact Or.inl rfl
  | cons pr prs ih =>
      have next : click2abs click + vmPageSize = click2abs (click + 1) := by
        rw [click2abs, click2abs, Nat.add_mul, Nat.one_mul]
      rw [State.given, next, List.length_cons]
      rcases ih (vm.setBlock pr.ph { vm.physBlock pr.ph with phys := click2abs click }).called
        (click + 1) with same | ⟨page, member, later⟩
      · by_cases own : pb = pr.ph
        · subst own
          refine Or.inr ⟨click, by simp, same.trans ?_⟩
          simp [State.called, State.setBlock]
        · refine Or.inl (same.trans ?_)
          simp [State.called, State.setBlock, own]
      · refine Or.inr ⟨page, ?_, later⟩
        rw [Finset.mem_Ico] at member ⊢
        omega

theorem Lined.held {prs : List PhysRegion} {click page : Nat} (lined : Lined vm click prs)
    (counted : ∀ pr ∈ prs, 0 < (vm.physBlock pr.ph).refcount)
    (member : page ∈ Finset.Ico click (click + prs.length)) : page ∈ held vm := by
  induction prs generalizing click with
  | nil => simp at member
  | cons pr prs ih =>
      rw [List.forall_mem_cons] at counted
      obtain ⟨first, rest⟩ := lined
      by_cases here : page = click
      · exact here ▸ held_place (.block pr.ph) ⟨counted.1, first⟩
      · refine ih rest counted.2 ?_
        rw [List.length_cons] at member
        rw [Finset.mem_Ico] at member ⊢
        omega

theorem yieldblock_held (header : Header np) (answers : Answers)
    (wellformed : Wellformed header vm) (before : held vm ⊆ pages) (p : Fin np) (id : BitVec 64)
    (vaddr : VirBytes) (count : Nat) :
    Ends (fun _ => True) (fun result => held result.2 ⊆ pages)
      (yieldblock header answers vm p id vaddr count) := by
  obtain ⟨order, books⟩ := wellformed.books
  have cases' := yieldblock_cases header answers wellformed.blocks p id vaddr count
  revert cases'
  generalize yieldblock header answers vm p id vaddr count = outcome
  intro cases'
  cases cases' with
  | stopped => trivial
  | failed => exact (held_congr (holding_congr rfl rfl rfl rfl)).trans_subset before
  | yielded block pr prs click search isId size wanted first place found contiguous granted blocks =>
      have remembered := rememberNode_remembered header books p first (pr :: prs) click
      have counted : ∀ other ∈ pr :: prs, 0 < (vm.physBlock other.ph).refcount := by
        intro other member
        rw [found.alone member]
        exact Nat.one_pos
      have start : (vm.physBlock pr.ph).phys = click2abs (abs2click (vm.physBlock pr.ph).phys) :=
        (click2abs_abs2click (wellformed.blocks.pages _ (counted pr List.mem_cons_self))).symm
      have lined : Lined vm (abs2click (vm.physBlock pr.ph).phys) (pr :: prs) :=
        contiguous.2.lined start
      obtain ⟨-, -, -, -, counts⟩ := given_regions vm (pr :: prs) (click2abs click)
      refine held_of (fun page free => ?_) (fun pb page used phys => ?_)
        fun node h page inTree inRange => ?_
      · rw [remembered.free] at free
        exact before (free_held (Finset.mem_sdiff.mp free).1)
      · rw [remembered.physBlock] at used phys
        rw [counts] at used
        rcases given_phys vm (pr :: prs) click pb with same | ⟨given, inNew, isNew⟩
        · exact before (held_place (.block pb) ⟨used, same.symm.trans phys⟩)
        · obtain rfl := click2abs_injective (phys.symm.trans isNew)
          rw [Finset.mem_Ico] at inNew
          obtain ⟨i, rfl⟩ := Nat.exists_eq_add_of_le inNew.1
          rw [List.length_cons, ← wanted] at inNew
          exact before (free_held (answers.allocMem_free _ _ _ _ granted i (by omega)))
      · by_cases isNew : node = vm.newYielded
        · subst isNew
          refine before (lined.held counted ?_)
          obtain ⟨-, physaddr, size'⟩ := remembered.new
          unfold Yielded.range at inRange
          rw [physaddr, size'] at inRange
          have inBlock := Yielded.range_eq (place.trans start)
          rw [size] at inBlock
          exact inBlock.subset inRange
        · obtain ⟨h', earlier⟩ := ((remembered.trees node).mp ⟨h, inTree⟩).resolve_right isNew
          obtain ⟨-, physaddr, size'⟩ := remembered.same node isNew
          unfold Yielded.range at inRange
          rw [physaddr, size'] at inRange
          exact before (yielded_held earlier inRange)

/-- A fault has left no page, at most a block that nothing refers to. -/
structure Missed (vm vm' : State np) : Prop where
  vmproc : vm'.vmproc = vm.vmproc
  virRegion : vm'.virRegion = vm.virRegion
  free : vm'.free = vm.free
  refcount : ∀ pb, (vm'.physBlock pb).refcount = (vm.physBlock pb).refcount
  physBlock : ∀ pb, pb ≠ vm.newBlock → vm'.physBlock pb = vm.physBlock pb

theorem missed_called (vm : State np) : Missed vm vm.called :=
  ⟨rfl, rfl, rfl, fun _ => rfl, fun _ _ => rfl⟩

/-- A new block that nothing refers to. -/
theorem missed_unused (fresh : Fresh vm) (phys newBlock calls : Nat) :
    Missed vm { vm.setBlock vm.newBlock ⟨phys, 0⟩ with newBlock, calls } := by
  refine ⟨rfl, rfl, rfl, fun pb => ?_, fun pb other => Function.update_of_ne other _ _⟩
  show (update vm.physBlock vm.newBlock ⟨phys, 0⟩ pb).refcount = _
  by_cases isNew : pb = vm.newBlock
  · rw [isNew, Function.update_self, fresh _ (Nat.le_refl _)]
  · rw [Function.update_of_ne isNew]

theorem mapPhWritept_called (answers : Answers) (vm : State np) (r : Ptr) (pr : PhysRegion) :
    Ends (fun _ => True) (fun result => result.2 = vm.called) (mapPhWritept answers vm r pr) := by
  unfold mapPhWritept
  exact assert_ends (fun _ => trivial) fun _ => assert_ends (fun _ => trivial) fun _ =>
    assert_ends (fun _ => trivial) fun _ => rfl

theorem mapPf_outcome (header : Header np) (answers : Answers) (fresh : Fresh vm) {r : Ptr}
    {i : Nat} (empty : (vm.virRegion r).physblocks i = none) :
    Ends (fun _ => True) (fun result => Missed vm result.2 ∨
        ∃ click ∈ vm.free, result.2 = vm.filled r i click)
      (mapPf header answers vm r (i * vmPageSize)) := by
  unfold mapPf
  rw [(offset_slot i).2, Nat.sub_zero]
  refine assert_ends (fun _ => trivial) fun _ => assert_ends (fun _ => trivial) fun _ =>
    assert_ends (fun _ => trivial) fun _ => (physblockGet_ends _ _).bind fun found _ => ?_
  cases found with
  | some pr => trivial
  | none =>
      dsimp only
      unfold pbNew
      by_cases first : answers.slaballoc vm.calls
      · rw [if_pos first]
        dsimp only
        unfold pbReference
        by_cases second : answers.slaballoc (vm.calls + 1)
        · rw [if_pos second]
          dsimp only
          rw [bind_assoc]
          refine (physblockSet_slot _ r _ _).bind fun vm2 set => ?_
          rw [(offset_slot i).1] at set
          have filled : vm2 = { vm.filled r i 0 with
              physBlock := update vm.physBlock vm.newBlock ⟨mapNone, 1⟩
              free := vm.free
              calls := vm.calls + 2 } := by
            rw [set]
            simp [State.filled, State.setSlot, State.setBlock, State.called]
          have block : vm2.physBlock vm.newBlock = ⟨mapNone, 1⟩ := by
            rw [filled]
            exact Function.update_self _ _ _
          show Ends _ _ (ite (header.writable _ (vm2.physBlock vm.newBlock) = true) _ _)
          rw [block, header.writable_none, if_neg Bool.false_ne_true]
          unfold evPagefault
          cases given : answers.allocMem vm2.calls 1 vm2.free with
          | none =>
              dsimp only
              unfold pbUnreferenced
              dsimp only [State.called]
              rw [block, assert_true _ Nat.one_pos, if_neg fun both => both.2 rfl]
              refine (physblockSet_slot _ r _ _).bind fun vm3 gone => Or.inl ?_
              have slots : update (update (vm.virRegion r).physblocks i
                  (some ⟨vm.newBlock, i * vmPageSize⟩)) i none = (vm.virRegion r).physblocks := by
                rw [Function.update_idem, ← empty, Function.update_eq_self]
              have same : vm3 = { vm.setBlock vm.newBlock ⟨mapNone, 0⟩ with
                  newBlock := vm.newBlock + 1, calls := vm.calls + 3 } := by
                rw [gone, (offset_slot i).1, filled]
                simp [State.filled, State.setSlot, State.setBlock, slots]
              exact same ▸ missed_unused fresh _ _ _
          | some click =>
              have free := answers.allocMem_free _ _ _ _ given 0 Nat.one_pos
              rw [filled] at free
              refine (mapPhWritept_called answers _ r _).imp fun result called =>
                Or.inr ⟨click, free, called.trans ?_⟩
              rw [filled]
              simp [State.filled, State.setSlot, State.setBlock, State.called]
        · rw [if_neg second]
          exact Or.inl (missed_unused fresh _ _ _)
      · rw [if_neg first]
        exact Or.inl (missed_called vm)

theorem Missed.held (missed : Missed vm vm') (keeps : KeepsBooks vm vm') (fresh : Fresh vm)
    (before : held vm ⊆ pages) : held vm' ⊆ pages := by
  refine held_blocks before (fun page free => before (free_held (missed.free ▸ free)))
    (fun pb page counted phys => ?_) keeps.vmYieldedBlocks keeps.yielded
  rw [missed.refcount] at counted
  rw [missed.physBlock pb (fresh.known counted)] at phys
  exact before (held_place (.block pb) ⟨counted, phys⟩)

theorem Rewritten.held {r : Ptr} {i : Nat} {pb : Ptr} (rewritten : Rewritten vm vm' r i pb)
    (before : held vm ⊆ pages) : held vm' ⊆ pages := by
  rcases rewritten with ⟨calls, rfl⟩ | ⟨calls, -, rfl⟩ | ⟨click, calls, -, free, rfl⟩
  · exact before
  · have parted : Vm.held (vm.parted r i pb) ⊆ pages := parted_held before
    exact (held_congr (holding_congr rfl rfl rfl rfl)).trans_subset parted
  · have filled : Vm.held ((vm.parted r i pb).filled r i click) ⊆ pages :=
      filled_held free (parted_held before)
    exact (held_congr (holding_congr rfl rfl rfl rfl)).trans_subset filled

theorem pbUnreferenced_held {r : Ptr} {pr : PhysRegion} (backed : Backed vm)
    (before : held vm ⊆ pages) :
    Ends (fun _ => True) (fun vm' => held vm' ⊆ pages) (pbUnreferenced vm r pr) := by
  unfold pbUnreferenced
  refine assert_ends (fun _ => trivial) fun positive => ?_
  refine (physblockSet_slot _ r _ none).imp fun vm' set => ?_
  have block (pb : Ptr) (page : Nat) (counted : 0 < ((vm.setBlock pr.ph { vm.physBlock pr.ph with
      refcount := (vm.physBlock pr.ph).refcount - 1 }).physBlock pb).refcount)
      (phys : ((vm.setBlock pr.ph { vm.physBlock pr.ph with
        refcount := (vm.physBlock pr.ph).refcount - 1 }).physBlock pb).phys = click2abs page) :
      page ∈ pages := by
    by_cases same : pb = pr.ph
    · subst same
      simp only [State.setBlock, Function.update_self] at phys
      exact before (held_place (.block pr.ph) ⟨positive, phys⟩)
    · simp only [State.setBlock, Function.update_of_ne same] at counted phys
      exact before (held_place (.block pb) ⟨counted, phys⟩)
  subst set
  split
  · refine held_blocks before (fun page free => ?_) block rfl rfl
    rcases Finset.mem_union.mp free with stays | freed
    · exact before (free_held stays)
    · rw [Finset.mem_Ico] at freed
      obtain rfl : page = abs2click (vm.physBlock pr.ph).phys := by omega
      exact before (block_held positive (backed _ positive))
  · exact held_blocks before (fun page free => before (free_held free)) block rfl rfl

theorem mapFreeRegions_held (p : Fin np) (regions : List Ptr) (backed : Backed vm)
    (owned : Owned memory vm) (before : held vm ⊆ pages) :
    Ends (fun _ => True) (fun vm' => (Backed vm' ∧ Owned memory vm') ∧ held vm' ⊆ pages)
      (mapFreeRegions p regions vm) := by
  refine mapFreeRegions_rule p regions (fun vm r _ pr kept => ?_) (fun vm r _ region kept => ?_)
    (fun vm proc kept => ?_) ⟨⟨backed, owned⟩, before⟩
  · exact ((pbUnreferenced_owned kept.1.1 kept.1.2).and
      (pbUnreferenced_held kept.1.1 kept.2)).stop fun _ _ => trivial
  · exact ⟨⟨kept.1.1, owned_congr (holding_congr rfl rfl rfl rfl) kept.1.2⟩,
      (held_congr (holding_congr rfl rfl rfl rfl)).trans_subset kept.2⟩
  · exact ⟨⟨kept.1.1, owned_congr (holding_congr rfl rfl rfl rfl) kept.1.2⟩,
      (held_congr (holding_congr rfl rfl rfl rfl)).trans_subset kept.2⟩

theorem mapFreeProc_held (wellformed : Wellformed header vm) (owned : Owned memory vm)
    (before : held vm ⊆ pages) {p : Fin np} :
    Ends (fun _ => True) (fun vm' => held vm' ⊆ pages) (mapFreeProc header vm p) := by
  refine mapFreeProc_rule wellformed ?_ (fun vm proc kept => ?_) (freeing_held header pages)
  · exact (mapFreeRegions_held p _ wellformed.blocks.pages owned before).imp fun _ kept => kept.2
  · exact (held_congr (holding_congr rfl rfl rfl rfl)).trans_subset kept

/-- What the freeing of yielded blocks and the end of a process keep, a request that is not for a
block keeps. -/
theorem step_rule {keeps : State np → Prop} (wellformed : Wellformed header vm) (holds : keeps vm)
    (freeing : ∀ vm order node, Books header vm order → node ∈ order → Paged vm ∧ keeps vm → ∀ vm',
      freeyieldednode header vm node true = .ok (vmPageSize, vm') → Paged vm' ∧ keeps vm')
    {event : Event np} (asked : ∀ answers m, event ≠ .yieldblockGetblock answers m)
    (exits : ∀ p, event = .exit p → Ends (fun _ => True)
      (fun vm' => keeps (vm'.setProc p { vm'.vmproc p with inUse := false }))
      (mapFreeProc header vm p)) :
    Ends (fun _ => True) keeps (step header vm event) := by
  have start : Paged vm ∧ keeps vm := ⟨wellformed.paged, holds⟩
  cases event with
  | yieldblockGetblock answers m => exact absurd rfl (asked answers m)
  | forgetblock source id =>
      unfold step doForgetblock
      dsimp only
      cases vmIsokendpt header vm source with
      | none => trivial
      | some p =>
          dsimp only
          cases yieldedSearch vm (vm.vmYieldedBlocks
              (getYieldedAvl header { owner := (vm.vmproc p).vmEndpoint, id }))
              { owner := (vm.vmproc p).vmEndpoint, id } with
          | none => exact holds
          | some yb =>
              exact (freeing_keeps freeing wellformed.books start yb).bind fun result after =>
                after.2.2
  | forgetblocks source =>
      unfold step doForgetblocks
      dsimp only
      cases vmIsokendpt header vm source with
      | none => trivial
      | some p =>
          exact (freeYieldedProcLoop_keeps freeing p yieldHashsize 0 wellformed.books start).imp
            fun vm' after => after.2
  | freeYielded maxBytes =>
      have kept := freeYieldedLoop_keeps freeing maxBytes maxBytes 0 wellformed.books start
      exact Ends.map (kept.imp fun _ after => after.2)
  | exit p =>
      unfold step
      dsimp only
      split
      · exact (exits p rfl).bind fun vm' after => after
      · exact holds

/-- Every page of the memory has one owner, and no other page has one. -/
structure Housed (memory : Set Nat) (vm : State np) : Prop where
  owned : Owned memory vm
  held : held vm ⊆ memory

theorem Housed.congr (housed : Housed memory vm) (same : holding vm' = holding vm) :
    Housed memory vm' :=
  ⟨owned_congr same housed.owned, (held_congr same).trans_subset housed.held⟩

/-- Two places do not have the same page. -/
theorem Housed.unique (housed : Housed memory vm) {place place' : Place} {page : Nat}
    (here : page ∈ holding vm place) (there : page ∈ holding vm place') : place = place' := by
  obtain ⟨owner, -, only⟩ := housed.owned page (housed.held (held_place place here))
  rw [only place here, only place' there]

theorem request_held (orderly : Orderly header vm) (housed : Housed memory vm) (event : Event np)
    (whole : (Life.request event).Whole header vm) :
    Ends (fun _ => True) (fun vm' => held vm' ⊆ memory) (step header vm event) := by
  obtain ⟨wellformed, -, -, -⟩ := orderly
  obtain ⟨owned, before⟩ := housed
  by_cases asked : ∃ answers m, event = .yieldblockGetblock answers m
  · obtain ⟨answers, m, rfl⟩ := asked
    unfold step
    dsimp only
    cases caller : vmIsokendpt header vm m.source with
    | none =>
        have caller' : vmIsokendpt header { vm with calls := 0 } m.source = none := caller
        unfold doYieldblockgetblock
        rw [caller']
        trivial
    | some p =>
        have live := (vmIsokendpt_live caller).2
        have caller' : vmIsokendpt header { vm with calls := 0 } m.source = some p := caller
        have start (pages : Nat) (sized : m.Sized pages) :=
          getting_start answers wellformed owned caller sized whole
        refine (doYieldblockgetblock_ends (fun pages vm1 =>
          Getting header answers memory p m pages vm1 ∧ held vm1 ⊆ memory) caller' (fun _ => before)
          (fun pages sized => ⟨start pages sized, before⟩) (fun pages sized => ?_)
          (fun pages vm1 _ middle => middle.2) fun pages vm1 sized some middle => ?_).map
        · have held' := yieldblock_held header answers (start pages sized).wellformed before p
            m.yieldid m.vaddr pages
          have live' : (({ vm with calls := 0 } : State np).vmproc p).inUse := live
          exact ((yieldblock_getting live' sized (start pages sized)).and held').stop
            fun _ _ => trivial
        · exact getblock_held header answers middle.1.wellformed middle.2 p m.getid m.vaddr sized.1
            sized.short (middle.1.wanted some)
  · refine step_rule wellformed before (freeing_held header memory)
      (fun answers m same => asked ⟨answers, m, same⟩) fun p _ => ?_
    exact (mapFreeProc_held wellformed owned before).imp fun vm' after =>
      (held_congr (holding_congr rfl rfl rfl rfl)).trans_subset after

/-- One thing that happens gives no page to two owners, and brings none from elsewhere. -/
theorem happen_housed (orderly : Orderly header vm) (housed : Housed memory vm) (event : Life np)
    (permitted : event.Permitted header vm) (whole : event.Whole header vm) :
    Ends (fun _ => True) (Housed memory) (happen header vm event) := by
  suffices Ends (fun _ => True) (fun vm' => held vm' ⊆ memory) (happen header vm event) from
    ((happen_owned orderly housed.owned event permitted whole).and this).stop (fun _ _ => trivial)
      |>.imp fun vm' after => ⟨after.1, after.2⟩
  have started : Orderly header (restart vm) := orderly.answered 0
  have before : held (restart vm) ⊆ memory := housed.held
  cases event with
  | begin p endpoint => exact (held_congr (holding_congr rfl rfl rfl rfl)).trans_subset before
  | map answers p startv length flags memtype =>
      refine Ends.map ((mapRegion_joined answers (restart vm) p startv length flags memtype).imp
        fun result after => (held_congr ?_).trans_subset before)
      obtain ⟨-, ⟨calls, same⟩ | ⟨joined, -⟩⟩ := after
      · rw [same]
        exact holding_congr rfl rfl rfl rfl
      · exact holding_congr joined.free joined.blocks.1 joined.vmYieldedBlocks joined.yielded
  | fault answers p vaddr =>
      unfold happen pagefault
      dsimp only
      cases found : regionAt (restart vm) p vaddr with
      | none => exact before
      | some r =>
          have blocks := started.wellformed.blocks
          dsimp only
          split
          · rename_i absent
            rw [mapPf_round]
            refine Ends.map ?_
            have keeps : Keeps (restart vm) (mapPf header answers (restart vm) r
                ((vaddr - ((restart vm).virRegion r).vaddr) / vmPageSize * vmPageSize)) :=
              mapPf_keeps (restart vm) r _
            refine ((keeps.and (mapPf_outcome header answers blocks.fresh absent)).stop
              fun _ _ => trivial).imp fun result after => ?_
            obtain ⟨keeps, missed | ⟨click, free, filled⟩⟩ := after
            · exact missed.held keeps blocks.fresh before
            · exact filled ▸ filled_held free before
          · rename_i ph resident
            exact ((mapPfResident_rewritten header answers blocks (blocks.slotIn found)
              resident).imp fun result rewritten => rewritten.held before).map
  | fork answers dst src =>
      obtain ⟨live, clear, unyielded, nonempty⟩ := permitted
      obtain ⟨code, vm', result, outcome⟩ :=
        mapProcCopy_ok header answers rfl (started.layout src) nonempty clear unyielded
      have shares := (mapProcCopy_shares header answers src
        (show ((restart vm).vmproc dst).vmYielded = 0 from unyielded)).of_eq result
      unfold happen
      dsimp only
      rw [result]
      refine (held_congr ?_).trans_subset before
      rcases outcome with ⟨-, copies, copying⟩ | ⟨-, undone⟩
      · exact copying.holding started shares
      · exact holding_congr undone.free undone.physBlock shares.vmYieldedBlocks shares.yielded
  | request event => exact request_held orderly housed event whole

end Ve482.Vm
