import Ve482.Vm.Memory

set_option autoImplicit false

namespace Ve482.Vm

open Function (update)
open Fallible (Ends)
open Ownership (Partition)

variable {np : Nat} {Page : Type} {header : Header np} {answers : Answers} {vm vm' : State np}
  {memory : Set Nat}

/-- The slot of an address. -/
def slotOf (vm : State np) (p : Fin np) (v : Nat) : Option (Ptr × Nat) :=
  (regionAt vm p v).map fun r => (r, (v - (vm.virRegion r).vaddr) / vmPageSize)

theorem slotOf_congr {p : Fin np}
    (list : (vm'.vmproc p).vmRegionsAvl = (vm.vmproc p).vmRegionsAvl)
    (frame : ∀ r ∈ (vm.vmproc p).vmRegionsAvl, SameFrame (vm.virRegion r) (vm'.virRegion r))
    (v : Nat) : slotOf vm' p v = slotOf vm p v := by
  have search : regionSearch vm' p v = regionSearch vm p v := by
    unfold regionSearch
    rw [list]
    refine congrArg List.getLast? (List.filter_congr fun r member => ?_)
    rw [(frame r member).vaddr]
  have region : regionAt vm' p v = regionAt vm p v := by
    unfold regionAt
    rw [search]
    cases searched : regionSearch vm p v with
    | none => rfl
    | some r =>
        have member := (List.mem_filter.mp (List.mem_of_getLast? searched)).1
        rw [Option.filter_some, Option.filter_some, (frame r member).vaddr, (frame r member).length]
  unfold slotOf
  rw [region]
  refine Option.map_congr fun r found => ?_
  rw [(frame r (regionAt_some found).2.1).vaddr]

theorem slotOf_some {p : Fin np} {v : Nat} {r : Ptr} {i : Nat} (found : slotOf vm p v = some (r, i)) :
    regionAt vm p v = some r ∧ i = (v - (vm.virRegion r).vaddr) / vmPageSize := by
  obtain ⟨r', inRegion, same⟩ := Option.map_eq_some_iff.mp found
  obtain ⟨rfl, rfl⟩ := Prod.mk.inj same
  exact ⟨inRegion, rfl⟩

theorem Blocks.slotOf (blocks : Blocks vm) {p : Fin np} {v : Nat} {r : Ptr} {i : Nat}
    (found : slotOf vm p v = some (r, i)) : Slot vm r i ∧ r ∈ (vm.vmproc p).vmRegionsAvl := by
  obtain ⟨inRegion, rfl⟩ := slotOf_some found
  obtain ⟨-, own, above, below⟩ := regionAt_some inRegion
  have region := mem_allRegions own
  have whole := (blocks.sound r region).aligned
  refine ⟨⟨region, ?_⟩, own⟩
  unfold vmPageSize at *
  omega

/-- Different pages have different slots. -/
theorem slotOf_injective {p : Fin np} {v v' : Nat} {place : Ptr × Nat} (blocks : Blocks vm)
    (aligned : v % vmPageSize = 0) (aligned' : v' % vmPageSize = 0)
    (found : slotOf vm p v = some place) (found' : slotOf vm p v' = some place) : v = v' := by
  obtain ⟨r, i⟩ := place
  obtain ⟨inRegion, number⟩ := slotOf_some found
  obtain ⟨inRegion', number'⟩ := slotOf_some found'
  obtain ⟨-, place⟩ := blocks.slotAt inRegion aligned
  obtain ⟨-, place'⟩ := blocks.slotAt inRegion' aligned'
  rw [place, place', ← number, ← number']

theorem At.slotOf {p : Fin np} {v : Nat} {r : Ptr} {i : Nat} {pr : PhysRegion}
    (there : At vm p v r i pr) (blocks : Blocks vm) : slotOf vm p v = some (r, i) := by
  obtain ⟨r', inRegion, resident⟩ := Option.bind_eq_some_iff.mp (there.found blocks)
  obtain ⟨pr', -, same⟩ := Option.map_eq_some_iff.mp resident
  obtain ⟨rfl, -⟩ := Prod.mk.inj same
  unfold Vm.slotOf
  rw [inRegion, Option.map_some, there.address, Nat.add_sub_cancel_left, (offset_slot i).1]

/-- A block that one slot refers to is that of no other slot. -/
theorem Blocks.sole (blocks : Blocks vm) {r r' : Ptr} {i i' : Nat} {pr pr' : PhysRegion}
    (slot : Slot vm r i) (resident : (vm.virRegion r).physblocks i = some pr)
    (one : (vm.physBlock pr.ph).refcount = 1) (slot' : Slot vm r' i')
    (resident' : (vm.virRegion r').physblocks i' = some pr') (different : (r', i') ≠ (r, i)) :
    pr'.ph ≠ pr.ph := by
  intro same
  suffices both : i' < ((vm.parted r i pr.ph).virRegion r').length / vmPageSize ∧
      ((vm.parted r i pr.ph).virRegion r').physblocks i' = some pr' by
    have counted := (blocks.parted slot resident).referenced ⟨slot'.region, both.1⟩ both.2
    have none : ((vm.parted r i pr.ph).physBlock pr'.ph).refcount = 0 := by
      rw [same]
      simp [State.parted, State.setBlock, State.setSlot, one]
    omega
  by_cases isRegion : r' = r
  · subst isRegion
    rw [parted_region]
    refine ⟨slot'.small, (Function.update_of_ne (fun sameSlot => different ?_) _ _).trans resident'⟩
    rw [sameSlot]
  · have kept : (vm.parted r i pr.ph).virRegion r' = vm.virRegion r' :=
      Function.update_of_ne isRegion _ _
    exact kept ▸ ⟨slot'.small, resident'⟩

/-- The pages of a yielded block are on their way, and no page is in two places. -/
structure Staged (memory : Set Nat) (vm : State np) (got : Option Ptr) (coming : Set Nat) : Prop where
  blocks : Blocks vm
  partition : Partition memory (spots vm got coming ∅)
  held : held vm ⊆ memory
  coming : coming ⊆ memory

namespace Staged

variable {got : Option Ptr} {coming : Set Nat}

theorem distinct (staged : Staged memory vm got coming) {page : Nat} (known : page ∈ memory)
    (spot : Spot) (there : page ∈ spots vm got coming ∅ spot) (elsewhere : spot ≠ .at .free) :
    page ∉ vm.free := by
  intro free
  obtain ⟨owner, -, only⟩ := staged.partition page known
  exact elsewhere ((only spot there).trans (only (.at .free) free).symm)

theorem coming_used (staged : Staged memory vm got coming) {page : Nat} (member : page ∈ coming) :
    page ∉ vm.free :=
  staged.distinct (staged.coming member) .coming member nofun

theorem block_used (staged : Staged memory vm got coming) {pb : Ptr}
    (counted : 0 < (vm.physBlock pb).refcount) : abs2click (vm.physBlock pb).phys ∉ vm.free := by
  have there : abs2click (vm.physBlock pb).phys ∈ holding vm (.block pb) :=
    ⟨counted, (click2abs_abs2click (staged.blocks.pages pb counted)).symm⟩
  exact staged.distinct (staged.held (held_place _ there)) (.at (.block pb)) there nofun

theorem yielded_used (staged : Staged memory vm got coming) {node : Ptr} {h page : Nat}
    (inTree : node ∈ vm.vmYieldedBlocks h) (other : got ≠ some node)
    (inRange : page ∈ (vm.yielded node).range) : page ∉ vm.free := by
  have there : page ∈ holding vm (.yielded node) := ⟨⟨h, inTree⟩, inRange⟩
  refine staged.distinct (staged.held (held_place _ there)) (.at (.yielded node)) ?_ nofun
  show page ∈ if got = some node then ∅ else holding vm (.yielded node)
  rwa [if_neg other]

end Staged

theorem Housed.staged (housed : Housed memory vm) (blocks : Blocks vm) :
    Staged memory vm none ∅ :=
  ⟨blocks, spots_iff.mpr housed.owned, housed.held, Set.empty_subset _⟩

theorem cloned_frame (vm : State np) (r : Ptr) (i : Nat) (pb : Ptr) (click phaddr : Nat)
    (other : Ptr) : SameFrame (vm.virRegion other)
      (((vm.cloned r i pb click).swapped vm.newBlock phaddr).virRegion other) :=
  (sameFrame_setSlot _ r i none other).trans (sameFrame_setSlot _ r i _ other)

namespace Staged

variable {got : Option Ptr} {coming : Set Nat} {click : Nat}

/-- The next page has gone to a block that one slot refers to. -/
theorem swapped (staged : Staged memory vm got coming) {pb : Ptr}
    (one : (vm.physBlock pb).refcount = 1) (next : click ∈ coming) :
    Staged memory (vm.swapped pb (click2abs click)) got (coming \ {click}) := by
  have paged := staged.blocks.pages pb (by omega)
  exact
    { blocks := staged.blocks.swapped pb (click2abs_aligned click)
      partition := swapped_owned one (click2abs_abs2click paged).symm next staged.partition
      held := swapped_held one paged (staged.coming next) staged.held
      coming := Set.sdiff_subset.trans staged.coming }

/-- The next page has gone to a new block, in the place of a shared one. -/
theorem cloned (staged : Staged memory vm got coming) {r : Ptr} {i : Nat} {pr : PhysRegion}
    (slot : Slot vm r i) (resident : (vm.virRegion r).physblocks i = some pr)
    (shared : 1 < (vm.physBlock pr.ph).refcount) {new : Nat}
    (granted : answers.allocMem (vm.calls + 2) 1 vm.free = some new) (next : click ∈ coming) :
    Staged memory ((vm.cloned r i pr.ph new).swapped vm.newBlock (click2abs click)) got
      (coming \ {click}) := by
  have own : (vm.cloned r i pr.ph new).physBlock vm.newBlock = ⟨click2abs new, 1⟩ :=
    Function.update_self _ _ _
  have free : new ∈ vm.free := answers.allocMem_free _ _ _ _ granted 0 Nat.one_pos
  have cloned : Vm.held (vm.cloned r i pr.ph new) ⊆ memory :=
    filled_held (r := r) (i := i) free (parted_held staged.held)
  exact
    { blocks := (staged.blocks.cloned slot resident new).swapped vm.newBlock
        (click2abs_aligned click)
      partition := cloned_owned staged.blocks shared granted next staged.partition
      held := swapped_held (by rw [own]) (by rw [own]; exact click2abs_aligned new)
        (staged.coming next) cloned
      coming := Set.sdiff_subset.trans staged.coming }

end Staged

theorem Found.nth {p : Fin np} {v : VirBytes} {prs : List PhysRegion} (found : Found vm p v prs)
    {k : Nat} (small : k < prs.length) : ∃ r i, At vm p (pageAddress v k).toNat r i prs[k] := by
  induction prs generalizing v k with
  | nil => exact absurd small (Nat.not_lt_zero k)
  | cons pr prs ih =>
      obtain ⟨there, -, later⟩ := found
      cases k with
      | zero =>
          rw [pageAddress_zero]
          exact there
      | succ k =>
          rw [← pageAddress_succ]
          exact ih later (Nat.lt_of_succ_lt_succ small)

theorem Lined.nth {prs : List PhysRegion} {click : Nat} (lined : Lined vm click prs) {k : Nat}
    (small : k < prs.length) : (vm.physBlock prs[k].ph).phys = click2abs (click + k) := by
  induction prs generalizing click k with
  | nil => exact absurd small (Nat.not_lt_zero k)
  | cons pr prs ih =>
      cases k with
      | zero => exact lined.1
      | succ k =>
          have later := ih lined.2 (Nat.lt_of_succ_lt_succ small)
          rwa [Nat.add_right_comm] at later

/-- The other blocks keep their pages. -/
theorem given_others (vm : State np) (prs : List PhysRegion) (phaddr : Nat) {pb : Ptr}
    (other : ∀ pr ∈ prs, pb ≠ pr.ph) :
    (vm.given prs phaddr).physBlock pb = vm.physBlock pb := by
  induction prs generalizing vm phaddr with
  | nil => rfl
  | cons pr prs ih =>
      rw [List.forall_mem_cons] at other
      rw [State.given, ih _ _ other.2]
      exact Function.update_of_ne other.1 _ _

/-- The new pages are one after the other. -/
theorem Found.given_lined {p : Fin np} {v : VirBytes} {prs : List PhysRegion} (blocks : Blocks vm)
    (found : Found vm p v prs) (short : prs.length ≤ 2 ^ 20) (click : Nat) :
    Lined (vm.given prs (click2abs click)) click prs := by
  induction prs generalizing vm v click with
  | nil => trivial
  | cons pr prs ih =>
      have apart := found.apart blocks (by rw [List.length_cons] at short; omega)
      obtain ⟨-, -, later⟩ := found
      have next : click2abs click + vmPageSize = click2abs (click + 1) := by
        rw [click2abs, click2abs, Nat.add_mul, Nat.one_mul]
      have counts : ∀ pb, ((vm.setBlock pr.ph { vm.physBlock pr.ph with
          phys := click2abs click }).called.physBlock pb).refcount = (vm.physBlock pb).refcount := by
        intro pb
        by_cases same : pb = pr.ph
        · subst same
          simp [State.called, State.setBlock]
        · simp [State.called, State.setBlock, same]
      rw [State.given, next]
      refine ⟨?_, ih (blocks.rephys pr.ph (click2abs_aligned click)).called
        (later.congr (fun _ => rfl) rfl counts) (by rw [List.length_cons] at short; omega) _⟩
      rw [given_others _ _ _ fun other member => (apart other member).symm]
      simp [State.called, State.setBlock]

namespace Machine

variable {filling : Filling Page} {m m' : Machine np Page} {got : Option Ptr} {coming : Set Nat}

/-- What the page of a slot holds. -/
def contents (m : Machine np Page) (r : Ptr) (i : Nat) : Option Page :=
  ((m.vm.virRegion r).physblocks i).map fun pr => m.memory (abs2click (m.vm.physBlock pr.ph).phys)

/-- What a process reads at an address. -/
def view (m : Machine np Page) (p : Fin np) (v : Nat) : Option Page :=
  (slotOf m.vm p v).bind fun place => m.contents place.1 place.2

/-- One slot has got a page. -/
structure Placed (m m' : Machine np Page) (r : Ptr) (i : Nat) (page : Page) : Prop where
  place : m'.contents r i = some page
  others : ∀ r' i', Slot m.vm r' i' → (r', i') ≠ (r, i) → m'.contents r' i' = m.contents r' i'

theorem swapped_placed (blocks : Blocks m.vm) {r : Ptr} {i : Nat} {pr : PhysRegion}
    (slot : Slot m.vm r i) (resident : (m.vm.virRegion r).physblocks i = some pr)
    (one : (m.vm.physBlock pr.ph).refcount = 1) (click : Nat) :
    m.Placed { m with vm := m.vm.swapped pr.ph (click2abs click) } r i (m.memory click) := by
  refine ⟨?_, fun r' i' slot' different => ?_⟩
  · simp [contents, State.swapped, State.setBlock, State.freeMem, resident, abs2click_click2abs]
  · unfold contents
    show ((m.vm.virRegion r').physblocks i').map _ = _
    refine Option.map_congr fun pr' resident' => ?_
    have other := blocks.sole slot resident one slot' resident' different
    simp [State.swapped, State.setBlock, State.freeMem, other]

theorem cloned_placed (staged : Staged memory m.vm got coming) {r : Ptr} {i : Nat}
    {pr : PhysRegion} (slot : Slot m.vm r i)
    (resident : (m.vm.virRegion r).physblocks i = some pr) (new : Nat) {click : Nat}
    (next : click ∈ coming) {pages : Nat → Page} (spares : m.Spares ⟨m.vm, pages⟩) :
    m.Placed ⟨(m.vm.cloned r i pr.ph new).swapped m.vm.newBlock (click2abs click), pages⟩ r i
      (m.memory click) := by
  refine ⟨?_, fun r' i' slot' different => ?_⟩
  · have here : pages click = m.memory click := spares click (staged.coming_used next)
    simp [contents, State.swapped, State.cloned, State.filled, State.parted, State.setSlot,
      State.setBlock, State.freeMem, abs2click_click2abs, here]
  · have slots : (((m.vm.cloned r i pr.ph new).swapped m.vm.newBlock
        (click2abs click)).virRegion r').physblocks i' = (m.vm.virRegion r').physblocks i' := by
      by_cases isRegion : r' = r
      · subst isRegion
        have isSlot : i' ≠ i := fun same => different (by rw [same])
        simp [State.swapped, State.cloned, State.filled, State.parted, State.setSlot,
          State.setBlock, State.freeMem, isSlot]
      · simp [State.swapped, State.cloned, State.filled, State.parted, State.setSlot,
          State.setBlock, State.freeMem, isRegion]
    unfold contents
    rw [slots]
    refine Option.map_congr fun pr' resident' => ?_
    have counted := staged.blocks.referenced slot' resident'
    have known : pr'.ph ≠ m.vm.newBlock := Fresh.known staged.blocks.fresh counted
    have phys : (((m.vm.cloned r i pr.ph new).swapped m.vm.newBlock
        (click2abs click)).physBlock pr'.ph).phys = (m.vm.physBlock pr'.ph).phys := by
      by_cases same : pr'.ph = pr.ph
      · rw [same] at known ⊢
        simp [State.swapped, State.cloned, State.filled, State.parted, State.setSlot,
          State.setBlock, State.freeMem, known]
      · simp [State.swapped, State.cloned, State.filled, State.parted, State.setSlot,
          State.setBlock, State.freeMem, known, same]
    rw [phys]
    exact spares _ (staged.block_used counted)

theorem pageAddress_injective {v : VirBytes} {k k' : Nat} (small : k < 2 ^ 20)
    (small' : k' < 2 ^ 20) (same : (pageAddress v k).toNat = (pageAddress v k').toNat) : k = k' := by
  have inside := v.isLt
  rw [pageAddress, pageAddress, BitVec.toNat_add, BitVec.toNat_add, BitVec.toNat_ofNat,
    BitVec.toNat_ofNat] at same
  unfold vmPageSize at same
  omega

/-- What a request to get a block has done to its pages. -/
structure Gotten (m m' : Machine np Page) (p : Fin np) (count : Nat) (v : VirBytes) (click : Nat)
    (got : Option Ptr) : Prop where
  slotOf : ∀ q v', Vm.slotOf m'.vm q v' = Vm.slotOf m.vm q v'
  pages : ∀ k < count, m'.view p (pageAddress v k).toNat = some (m.memory (click + k))
  others : ∀ r i, Slot m.vm r i →
    (∀ k < count, Vm.slotOf m.vm p (pageAddress v k).toNat ≠ some (r, i)) →
    m'.contents r i = m.contents r i
  yielded : ∀ node h, node ∈ m.vm.vmYieldedBlocks h → got ≠ some node →
    ∀ page ∈ (m.vm.yielded node).range, m'.memory page = m.memory page

theorem Gotten.zero (m : Machine np Page) (p : Fin np) (v : VirBytes) (click : Nat)
    (got : Option Ptr) : m.Gotten m p 0 v click got :=
  ⟨fun _ _ => rfl, fun _ none => absurd none (Nat.not_lt_zero _), fun _ _ _ _ => rfl,
    fun _ _ _ _ _ _ => rfl⟩

/-- After the first page, the others. -/
theorem Gotten.succ {m1 : Machine np Page} {p : Fin np} {count : Nat} {v : VirBytes} {click : Nat}
    (staged : Staged memory m.vm got {page | page ∈ Finset.Ico click (click + (count + 1))})
    (short : count + 1 ≤ 2 ^ 20) (aligned : v.toNat % vmPageSize = 0) {r : Ptr} {i : Nat}
    (first : Vm.slotOf m.vm p v.toNat = some (r, i)) (placed : m.Placed m1 r i (m.memory click))
    (frame : ∀ other, SameFrame (m.vm.virRegion other) (m1.vm.virRegion other))
    (same : m1.vm.vmproc = m.vm.vmproc)
    (trees : m1.vm.vmYieldedBlocks = m.vm.vmYieldedBlocks ∧ m1.vm.yielded = m.vm.yielded)
    (spares : m.Spares m1)
    (rest : m1.Gotten m' p count (v + BitVec.ofNat 32 vmPageSize) (click + 1) got) :
    m.Gotten m' p (count + 1) v click got := by
  have slots : ∀ q v', Vm.slotOf m1.vm q v' = Vm.slotOf m.vm q v' :=
    fun q => slotOf_congr (by rw [same]) fun other _ => frame other
  have slot1 : ∀ {r' i'}, Slot m.vm r' i' → Slot m1.vm r' i' := by
    intro r' i' slot
    refine ⟨?_, ?_⟩
    · have lists : allRegions m1.vm = allRegions m.vm := allRegions_congr fun q => by rw [same]
      exact lists ▸ slot.region
    · rw [(frame r').length]
      exact slot.small
  have coming : ∀ k < count, click + 1 + k ∈ {page | page ∈ Finset.Ico click (click + (count + 1))} := by
    intro k small
    rw [Set.mem_ofPred_eq, Finset.mem_Ico]
    omega
  refine ⟨fun q v' => (rest.slotOf q v').trans (slots q v'), fun k small => ?_,
    fun r' i' slot apart => ?_, fun node h inTree other page inRange => ?_⟩
  · cases k with
    | zero =>
        have inRegion := (staged.blocks.slotOf first).1
        unfold view
        rw [pageAddress_zero, rest.slotOf, slots, first, Option.bind_some]
        refine (rest.others r i (slot1 inRegion) fun k small found => ?_).trans placed.place
        rw [pageAddress_succ, slots] at found
        have whole := pageAddress_aligned aligned (k + 1)
        have equal := slotOf_injective staged.blocks whole aligned found first
        have isZero := congrArg BitVec.toNat (pageAddress_zero v)
        exact absurd (pageAddress_injective (by omega) (by omega) (equal.trans isZero.symm))
          (Nat.succ_ne_zero k)
    | succ k =>
        rw [← pageAddress_succ, rest.pages k (by omega),
          spares _ (staged.coming_used (coming k (by omega))), Nat.add_right_comm, Nat.add_assoc]
  · have beside : (r', i') ≠ (r, i) := by
      intro same
      refine apart 0 (Nat.succ_pos count) ?_
      rw [pageAddress_zero, first, same]
    refine (rest.others r' i' (slot1 slot) fun k small found => ?_).trans
      (placed.others r' i' slot beside)
    rw [pageAddress_succ, slots] at found
    exact apart (k + 1) (by omega) found
  · have later := rest.yielded node h (trees.1 ▸ inTree) other page (trees.2 ▸ inRange)
    exact later.trans (spares page (staged.yielded_used inTree other inRange))

/-- All pages of a yielded block have come to the slots of their addresses. -/
theorem getPages_gotten (header : Header np) (answers : Answers) (filling : Filling Page)
    (p : Fin np) (count : Nat) (v : VirBytes) (click : Nat) (short : count ≤ 2 ^ 20)
    (staged : Staged memory m.vm got {page | page ∈ Finset.Ico click (click + count)}) :
    Ends (fun _ => True) (fun result => result.1 = .ok →
        m.Gotten result.2 p count v click got)
      (m.getPages header answers filling p count v (click2abs click)) := by
  induction count generalizing v click m with
  | zero => exact fun _ => .zero m p v click got
  | succ count ih =>
      have step := getPages_succ header answers filling staged.blocks p count v (click2abs click)
      have next : click2abs click + vmPageSize = click2abs (click + 1) := by
        rw [click2abs, click2abs, Nat.add_mul, Nat.one_mul]
      have first : click ∈ {page | page ∈ Finset.Ico click (click + (count + 1))} := by simp
      revert step
      generalize m.getPages header answers filling p (count + 1) v (click2abs click) = outcome
      intro step
      rw [next] at step
      cases step with
      | stopped => trivial
      | absent | refused =>
          intro failed
          cases failed
      | @alone r i pr there one =>
          have later := staged.swapped one first
          rw [range_cons] at later
          refine (ih (v + BitVec.ofNat 32 vmPageSize) (click + 1) (by omega) later).imp
            fun result rest isOk => ?_
          exact .succ staged short (there.aligned staged.blocks) (there.slotOf staged.blocks)
            (swapped_placed staged.blocks there.toSlot there.resident one click)
            (fun _ => .refl _) rfl ⟨rfl, rfl⟩ (fun _ _ => rfl) (rest isOk)
      | @cloned r i pr there shared new granted memory' spares =>
          have later := staged.cloned there.toSlot there.resident shared granted first
          rw [range_cons] at later
          refine (ih (v + BitVec.ofNat 32 vmPageSize) (click + 1) (by omega) later).imp
            fun result rest isOk => ?_
          exact .succ staged short (there.aligned staged.blocks) (there.slotOf staged.blocks)
            (cloned_placed staged there.toSlot there.resident new first spares)
            (cloned_frame m.vm r i pr.ph new _) rfl ⟨rfl, rfl⟩ spares (rest isOk)

/-- What a process reads at the pages of a request. -/
def read (m : Machine np Page) (p : Fin np) (v : VirBytes) (count : Nat) : List (Option Page) :=
  (List.range count).map fun k => m.view p (pageAddress v k).toNat

/-- What the pages of a yielded block hold. -/
def blockPages (m : Machine np Page) (node : Ptr) : List (Option Page) :=
  (List.range (m.vm.yielded node).pages).map fun k =>
    some (m.memory (abs2click (m.vm.yielded node).physaddr + k))

/-- What a request to yield a block has done to its pages. -/
structure Put (m m' : Machine np Page) (p : Fin np) (count : Nat) (v : VirBytes) (clear : Page)
    (block : Yielded) (new : Ptr) : Prop where
  slotOf : ∀ q v', Vm.slotOf m'.vm q v' = Vm.slotOf m.vm q v'
  pages : ∀ k < count, m'.view p (pageAddress v k).toNat = some clear
  others : ∀ r i, Slot m.vm r i →
    (∀ k < count, Vm.slotOf m.vm p (pageAddress v k).toNat ≠ some (r, i)) →
    m'.contents r i = m.contents r i
  yielded : ∀ node h, node ∈ m.vm.vmYieldedBlocks h → m'.blockPages node = m.blockPages node
  unused : ∀ h, new ∉ m.vm.vmYieldedBlocks h
  trees : ∀ node, (∃ h, node ∈ m'.vm.vmYieldedBlocks h) ↔
    (∃ h, node ∈ m.vm.vmYieldedBlocks h) ∨ node = new
  same : ∀ node, node ≠ new → SameBlock (m.vm.yielded node) (m'.vm.yielded node)
  new : SameBlock block (m'.vm.yielded new) ∧ m'.blockPages new = m.read p v count

theorem view_at {p : Fin np} {v : Nat} {r : Ptr} {i : Nat} {pr : PhysRegion}
    (there : At m.vm p v r i pr) (blocks : Blocks m.vm) :
    m.view p v = some (m.memory (abs2click (m.vm.physBlock pr.ph).phys)) := by
  unfold view
  rw [there.slotOf blocks, Option.bind_some]
  unfold contents
  rw [there.resident]
  rfl

/-- Nothing that a process can notice has changed. -/
structure Still (m m' : Machine np Page) : Prop where
  lists : ∀ p, (m'.vm.vmproc p).vmRegionsAvl = (m.vm.vmproc p).vmRegionsAvl
  virRegion : m'.vm.virRegion = m.vm.virRegion
  physBlock : m'.vm.physBlock = m.vm.physBlock
  yielded : m'.vm.yielded = m.vm.yielded
  trees : m'.vm.vmYieldedBlocks = m.vm.vmYieldedBlocks
  memory : m'.memory = m.memory

theorem Still.refl (m : Machine np Page) : m.Still m := ⟨fun _ => rfl, rfl, rfl, rfl, rfl, rfl⟩

theorem blockPages_congr {node : Ptr} (same : SameBlock (m.vm.yielded node) (m'.vm.yielded node))
    (pages : ∀ page ∈ (m.vm.yielded node).range, m'.memory page = m.memory page)
    (aligned : (m.vm.yielded node).physaddr % vmPageSize = 0) :
    m'.blockPages node = m.blockPages node := by
  obtain ⟨-, physaddr, count⟩ := same
  unfold blockPages
  rw [physaddr, count]
  refine List.map_congr_left fun k small => congrArg some (pages _ ?_)
  rw [Yielded.range_eq (click2abs_abs2click aligned).symm, Set.mem_ofPred_eq, Finset.mem_Ico]
  rw [List.mem_range] at small
  omega

theorem yieldblock_put (header : Header np) (answers : Answers) (filling : Filling Page)
    (wellformed : Wellformed header m.vm) (housed : Housed memory m.vm) (p : Fin np)
    (id : BitVec 64) (v : VirBytes) (count : Nat) (short : count ≤ 2 ^ 20) :
    Ends (fun _ => True) (fun result => (result.1 ≠ .ok → m.Still result.2) ∧
        (result.1 = .ok → ∃ block, block.id = ⟨(m.vm.vmproc p).vmEndpoint, id⟩ ∧
          yieldedSearch m.vm (m.vm.vmYieldedBlocks (getYieldedAvl header block.id)) block.id = none ∧
          m.Put result.2 p count v filling.clear block m.vm.newYielded))
      (m.yieldblock header answers filling p id v count) := by
  obtain ⟨order, books⟩ := wellformed.books
  have blocks := wellformed.blocks
  have staged := housed.staged blocks
  have cases' := yieldblock_cases header answers blocks p id v count
  unfold yieldblock
  revert cases'
  generalize Vm.yieldblock header answers m.vm p id v count = outcome
  intro cases'
  cases cases' with
  | stopped => trivial
  | failed code bad newYielded calls =>
      refine ⟨fun _ => ⟨fun _ => rfl, rfl, rfl, rfl, rfl, funext fun page => ?_⟩, fun isOk => ?_⟩
      · exact if_neg fun both => both.2 both.1
      · exact absurd isOk bad
  | yielded block pr prs click search isId size wanted first place found contiguous granted blocks' =>
      refine ⟨fun bad => absurd rfl bad, fun _ => ⟨block, isId, search, ?_⟩⟩
      have remembered := rememberNode_remembered header books p first (pr :: prs) click
      have start : (m.vm.physBlock pr.ph).phys =
          click2abs (abs2click (m.vm.physBlock pr.ph).phys) := by
        refine (click2abs_abs2click (blocks.pages _ ?_)).symm
        rw [found.alone List.mem_cons_self]
        exact Nat.one_pos
      have lined := contiguous.2.lined start
      have length : (pr :: prs).length = count := wanted.symm
      rw [← size] at wanted
      have taken : ∀ k < count, click + k ∈ m.vm.free := answers.allocMem_free _ _ _ _ granted
      clear granted blocks' contiguous
      generalize pr :: prs = all at *
      have given := found.given_lined blocks (length ▸ short) click
      generalize rememberNode header ((m.vm.taken block click).given all (click2abs click)) p
        m.vm.newYielded = vm' at remembered
      have stays : ∀ page, page ∉ m.vm.free →
          (m.given vm' fun _ => filling.clear).memory page = m.memory page :=
        fun page used => if_neg fun both => used both.1
      have slots : ∀ q v', Vm.slotOf vm' q v' = Vm.slotOf m.vm q v' := by
        refine fun q => slotOf_congr (remembered.lists q) fun r _ => ?_
        rw [remembered.virRegion]
        exact .refl _
      refine
        { slotOf := slots
          pages := fun k small => ?_, others := fun r i slot apart => ?_
          yielded := fun node h inTree => ?_
          unused := remembered.unused, trees := remembered.trees, same := remembered.same
          new := ⟨remembered.new, ?_⟩ }
      · subst length
        obtain ⟨r, i, there⟩ := found.nth small
        show (Vm.slotOf vm' p _).bind _ = _
        rw [slots, there.slotOf blocks, Option.bind_some]
        show ((vm'.virRegion r).physblocks i).map _ = _
        rw [remembered.virRegion, there.resident, Option.map_some]
        show some ((m.given vm' _).memory (abs2click (vm'.physBlock _).phys)) = _
        rw [remembered.physBlock, given.nth small, abs2click_click2abs]
        refine congrArg some (if_pos ⟨taken k small, ?_⟩)
        rw [remembered.free, Finset.mem_sdiff, Finset.mem_Ico]
        omega
      · show ((vm'.virRegion r).physblocks i).map _ = _
        rw [remembered.virRegion]
        refine Option.map_congr fun pr' resident => ?_
        have other : ∀ pr ∈ all, pr'.ph ≠ pr.ph := by
          intro pr member
          obtain ⟨k, small, rfl⟩ := List.mem_iff_getElem.mp member
          obtain ⟨r', i', at'⟩ := found.nth small
          refine blocks.sole at'.toSlot at'.resident (found.alone member) slot resident fun same => ?_
          rw [length] at small
          exact apart k small (same ▸ at'.slotOf blocks)
        show (m.given vm' _).memory (abs2click (vm'.physBlock pr'.ph).phys) = _
        rw [remembered.physBlock, given_others _ _ _ other]
        exact stays _ (staged.block_used (blocks.referenced slot resident))
      · have isOld : node ≠ m.vm.newYielded := fun same => remembered.unused h (same ▸ inTree)
        exact blockPages_congr (remembered.same node isOld)
          (fun page inRange => stays page (staged.yielded_used inTree nofun inRange))
          (wellformed.nodes h node inTree)
      · obtain ⟨-, physaddr, pages⟩ := remembered.new
        unfold blockPages read
        show (List.range (vm'.yielded m.vm.newYielded).pages).map (fun k =>
          some ((m.given vm' _).memory (abs2click (vm'.yielded m.vm.newYielded).physaddr + k))) = _
        rw [physaddr, pages, ← wanted, place]
        refine List.map_congr_left fun k small => ?_
        rw [List.mem_range, ← length] at small
        obtain ⟨r, i, there⟩ := found.nth small
        have page := lined.nth small
        have counted := found.alone (List.getElem_mem small)
        rw [view_at there blocks, ← abs2click_click2abs (_ + k), ← page]
        exact congrArg some (stays _ (staged.block_used (by omega)))

/-- What a request to get a block has done to its pages. -/
structure Take (m m' : Machine np Page) (p : Fin np) (count : Nat) (v : VirBytes) (node : Ptr) :
    Prop where
  slotOf : ∀ q v', Vm.slotOf m'.vm q v' = Vm.slotOf m.vm q v'
  pages : m'.read p v count = m.blockPages node
  others : ∀ r i, Slot m.vm r i →
    (∀ k < count, Vm.slotOf m.vm p (pageAddress v k).toNat ≠ some (r, i)) →
    m'.contents r i = m.contents r i
  yielded : ∀ other h, other ∈ m.vm.vmYieldedBlocks h → other ≠ node →
    m'.blockPages other = m.blockPages other
  trees : ∀ other, (∃ h, other ∈ m'.vm.vmYieldedBlocks h) ↔
    (∃ h, other ∈ m.vm.vmYieldedBlocks h) ∧ other ≠ node
  same : ∀ other, SameBlock (m.vm.yielded other) (m'.vm.yielded other)

theorem getPages_absent (header : Header np) (answers : Answers) (filling : Filling Page)
    (blocks : Blocks m.vm) {p : Fin np} {v : VirBytes} (absent : pageAt m.vm p v.toNat = none)
    {count : Nat} (positive : 0 < count) (phaddr : Nat) :
    Ends (fun _ => True) (fun result => result = (.einval, m))
      (m.getPages header answers filling p count v phaddr) := by
  obtain ⟨rest, rfl⟩ := Nat.exists_eq_add_of_lt positive
  rw [Nat.zero_add]
  have missing : ∀ {r i pr}, ¬ At m.vm p v.toNat r i pr := by
    intro r i pr there
    rw [there.found blocks] at absent
    cases absent
  have step := getPages_succ header answers filling blocks p rest v phaddr
  revert step
  generalize m.getPages header answers filling p (rest + 1) v phaddr = outcome
  intro step
  cases step with
  | stopped => trivial
  | absent => rfl
  | refused there => exact absurd there missing
  | alone there => exact absurd there missing
  | cloned there => exact absurd there missing

/-- The pages of a yielded block that a request found are where it asked for them. -/
theorem Gotten.take {m1 : Machine np Page} {p : Fin np} {count : Nat} {v : VirBytes} {node : Ptr}
    (gotten : m.Gotten m1 p count v (abs2click (m.vm.yielded node).physaddr) (some node))
    (size : (m.vm.yielded node).pages = count) (keeps : KeepsBooks m.vm m1.vm)
    (paged : ∀ other h, other ∈ m.vm.vmYieldedBlocks h →
      (m.vm.yielded other).physaddr % vmPageSize = 0)
    {vm2 : State np} (freed : FreedNode m1.vm vm2 node false) :
    m.Take { m1 with vm := vm2 } p count v node := by
  have slots : ∀ q v', Vm.slotOf vm2 q v' = Vm.slotOf m.vm q v' := by
    intro q v'
    refine (slotOf_congr (freed.lists q) (fun r _ => ?_) v').trans (gotten.slotOf q v')
    rw [freed.virRegion]
    exact .refl _
  have contents (r : Ptr) (i : Nat) :
      ({ m1 with vm := vm2 } : Machine np Page).contents r i = m1.contents r i := by
    unfold Machine.contents
    rw [freed.virRegion, freed.physBlock]
  have same (other : Ptr) : SameBlock (m.vm.yielded other) (vm2.yielded other) :=
    keeps.yielded ▸ freed.same other
  refine ⟨slots, ?_, fun r i slot apart => ?_, fun other h inTree different => ?_, fun other => ?_,
    same⟩
  · unfold read blockPages
    rw [size]
    refine List.map_congr_left fun k small => ?_
    rw [← gotten.pages k (List.mem_range.mp small)]
    unfold view
    rw [gotten.slotOf, slots]
    simp only [contents]
  · exact (contents r i).trans (gotten.others r i slot apart)
  · exact blockPages_congr (same other)
      (gotten.yielded other h inTree fun equal => different (Option.some.inj equal).symm)
      (paged other h inTree)
  · show (∃ h, other ∈ vm2.vmYieldedBlocks h) ↔ _
    rw [freed.trees, keeps.vmYieldedBlocks]

theorem getblock_take (header : Header np) (answers : Answers) (filling : Filling Page)
    (wellformed : Wellformed header m.vm) (housed : Housed memory m.vm) (p : Fin np)
    (id : BitVec 64) (v : VirBytes) {count : Nat} (positive : 0 < count) (short : count < 2 ^ 20)
    (wanted : Wanted header answers m.vm p True (pageAt m.vm p v.toNat = none) id v count) :
    Ends (fun _ => True) (fun result => (result.1 ≠ .ok → m.Still result.2) ∧
        (result.1 = .ok → ∃ node, yieldedSearch m.vm (m.vm.vmYieldedBlocks (getYieldedAvl header
            ⟨(m.vm.vmproc p).vmEndpoint, id⟩)) ⟨(m.vm.vmproc p).vmEndpoint, id⟩ = some node ∧
          m.Take result.2 p count v node))
      (m.getblock header answers filling p id v count) := by
  obtain ⟨order, books⟩ := wellformed.books
  have failed {answer : Prop} (code : Code) (bad : code ≠ .ok) :
      (code ≠ .ok → m.Still m) ∧ (code = .ok → answer) :=
    ⟨fun _ => .refl m, fun isOk => absurd isOk bad⟩
  unfold getblock Wanted at *
  dsimp only at wanted ⊢
  cases search : yieldedSearch m.vm (m.vm.vmYieldedBlocks
      (getYieldedAvl header { owner := (m.vm.vmproc p).vmEndpoint, id }))
      { owner := (m.vm.vmproc p).vmEndpoint, id } with
  | none => exact failed .esrch nofun
  | some yb =>
      have member := (books.search_some search).1
      have inTree := (books.trees _ yb).mpr ⟨member, rfl⟩
      have paged := wellformed.nodes _ yb inTree
      have start := click2abs_abs2click paged
      dsimp only
      by_cases size : (m.vm.yielded yb).pages = count
      · rw [if_neg (not_not.mpr size)]
        have walk := wanted yb search size
        by_cases absent : pageAt m.vm p v.toNat = none
        · refine (getPages_absent header answers filling wellformed.blocks absent positive _).bind
            fun result same => ?_
          subst same
          exact failed .einval nofun
        · have keeps : Keeps m.vm (Vm.getPages header answers p count v (m.vm.yielded yb).physaddr
              m.vm) := getPages_keeps p count v _ m.vm
          have reached := getPages_walk header answers p True (pageAt m.vm p v.toNat = none) count
            v wellformed.blocks paged short
          have below := ((keeps.and reached).stop fun _ _ => trivial)
          rw [← getPages_bare header answers filling] at below
          have staged : Staged memory m.vm (some yb)
              {page | page ∈ Finset.Ico (abs2click (m.vm.yielded yb).physaddr)
                (abs2click (m.vm.yielded yb).physaddr + count)} := by
            have range := Yielded.range_eq start.symm
            rw [size] at range
            have partition := housed.owned.get inTree
            rw [range] at partition
            refine ⟨wellformed.blocks, partition, housed.held, fun page inRange => ?_⟩
            exact housed.held (yielded_held inTree (range ▸ inRange))
          have gotten := getPages_gotten header answers filling p count v _ short.le staged
          rw [start] at gotten
          refine ((below.of_map.and gotten).stop fun _ _ => trivial).bind fun result after => ?_
          obtain ⟨code, m1⟩ := result
          obtain ⟨⟨keeps, -, -, reached⟩, gotten⟩ := after
          obtain rfl : code = .ok := (reached.mp walk).resolve_right absent
          have keeps : KeepsBooks m.vm m1.vm := keeps
          obtain ⟨vm2, result, -⟩ := freeyieldednode_ok (keeps.books books) member false
          dsimp only
          rw [result]
          have freed := freeyieldednode_freed (keeps.books books) member result
          exact ⟨fun bad => absurd rfl bad, fun _ => ⟨yb, rfl,
            (gotten rfl).take size keeps (fun other h => wellformed.nodes h other) freed⟩⟩
      · rw [if_pos size]
        exact failed .efault nofun

end Machine

end Ve482.Vm
