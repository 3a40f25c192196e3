import Ve482.Vm.Views

set_option autoImplicit false

namespace Ve482.Vm

open Function (update)
open Fallible (Ends)

variable {np : Nat} {Page : Type} {header : Header np} {answers : Answers} {vm vm' : State np}
  {memory : Set Nat}

/-- What the page table lets a process write. -/
def prWritable (header : Header np) (vm : State np) (r : Ptr) (pr : PhysRegion) : Prop :=
  (vm.virRegion r).flags.writable ∧
    header.writable (vm.virRegion r).memtype (vm.physBlock pr.ph) = true

instance (header : Header np) (vm : State np) (r : Ptr) (pr : PhysRegion) :
    Decidable (prWritable header vm r pr) :=
  inferInstanceAs (Decidable (_ ∧ _))

/-- The page table lets a process write at an address. -/
def mayWrite (header : Header np) (vm : State np) (p : Fin np) (vaddr : Nat) : Prop :=
  ∃ place ∈ pageAt vm p vaddr, prWritable header vm place.1 place.2

instance (header : Header np) (vm : State np) (p : Fin np) (vaddr : Nat) :
    Decidable (mayWrite header vm p vaddr) :=
  inferInstanceAs (Decidable (∃ place ∈ pageAt vm p vaddr, prWritable header vm place.1 place.2))

/-- A memory type lets a block be written where it is only if one slot refers to it. -/
def Header.Alone (header : Header np) : Prop :=
  ∀ memtype block, header.writable memtype block = true → block.refcount = 1

/-- At most one slot has changed, and no block in use has another page. -/
structure Retained (vm vm' : State np) (r : Ptr) (i : Nat) : Prop where
  lists : ∀ q, (vm'.vmproc q).vmRegionsAvl = (vm.vmproc q).vmRegionsAvl
  frame : ∀ r', SameFrame (vm.virRegion r') (vm'.virRegion r')
  slots : ∀ r' i', (r', i') ≠ (r, i) →
    (vm'.virRegion r').physblocks i' = (vm.virRegion r').physblocks i'
  phys : ∀ pb, 0 < (vm.physBlock pb).refcount →
    (vm'.physBlock pb).phys = (vm.physBlock pb).phys

section

variable {r : Ptr} {i : Nat}

theorem setSlot_others (vm : State np) (slot : Option PhysRegion) {r' : Ptr} {i' : Nat}
    (other : (r', i') ≠ (r, i)) : ((vm.setSlot r i slot).virRegion r').physblocks i' =
      (vm.virRegion r').physblocks i' := by
  rw [setSlot_slot, if_neg]
  rintro ⟨rfl, rfl⟩
  exact other rfl

theorem Missed.retained (missed : Missed vm vm') (fresh : Fresh vm) : Retained vm vm' r i := by
  refine ⟨fun q => by rw [missed.vmproc], fun r' => ?_, fun r' i' _ => by rw [missed.virRegion],
    fun pb counted => ?_⟩
  · rw [missed.virRegion]
    exact .refl _
  · exact congrArg PhysBlock.phys (missed.physBlock pb (fresh.known counted))

theorem filled_retained (fresh : Fresh vm) (click : Nat) :
    Retained vm (vm.filled r i click) r i := by
  exact ⟨fun _ => rfl, sameFrame_setSlot vm r i _, fun r' i' other => setSlot_others vm _ other,
    fun pb counted =>
      congrArg PhysBlock.phys (Function.update_of_ne (fresh.known counted) _ _)⟩

theorem parted_phys (vm : State np) (r : Ptr) (i : Nat) (pb other : Ptr) :
    ((vm.parted r i pb).physBlock other).phys = (vm.physBlock other).phys := by
  by_cases same : other = pb
  · subst same
    simp [State.parted, State.setSlot, State.setBlock]
  · simp [State.parted, State.setSlot, State.setBlock, same]

theorem Rewritten.retained {pb : Ptr} (rewritten : Rewritten vm vm' r i pb) (fresh : Fresh vm) :
    Retained vm vm' r i := by
  rcases rewritten with ⟨calls, rfl⟩ | ⟨calls, -, rfl⟩ | ⟨click, calls, -, -, rfl⟩
  · exact ⟨fun _ => rfl, fun _ => .refl _, fun _ _ _ => rfl, fun _ _ => rfl⟩
  · exact ⟨fun _ => rfl, sameFrame_setSlot _ r i none, fun r' i' other => setSlot_others _ _ other,
      fun other _ => parted_phys vm r i pb other⟩
  · refine ⟨fun _ => rfl, fun r' => (sameFrame_setSlot _ r i none r').trans
      (sameFrame_setSlot (vm.parted r i pb) r i _ r'), fun r' i' other => ?_, fun other counted => ?_⟩
    · exact (setSlot_others (vm.parted r i pb) _ other).trans (setSlot_others _ _ other)
    · have known : other ≠ (vm.parted r i pb).newBlock := fresh.known counted
      exact (congrArg PhysBlock.phys (Function.update_of_ne known _ _)).trans
        (parted_phys vm r i pb other)

end

theorem pageAt_slot {p : Fin np} {v : Nat} {r : Ptr} {pr : PhysRegion}
    (found : pageAt vm p v = some (r, pr)) :
    ∃ i, slotOf vm p v = some (r, i) ∧ (vm.virRegion r).physblocks i = some pr := by
  obtain ⟨r', inRegion, resident⟩ := Option.bind_eq_some_iff.mp found
  obtain ⟨pr', resident', same⟩ := Option.map_eq_some_iff.mp resident
  obtain ⟨rfl, rfl⟩ := Prod.mk.inj same
  refine ⟨_, ?_, resident'⟩
  unfold slotOf
  rw [inRegion, Option.map_some]

/-- All addresses of a page are in one slot. -/
theorem Blocks.slotOf_page (blocks : Blocks vm) (p : Fin np) {v v' : Nat}
    (same : v' / vmPageSize = v / vmPageSize) : Vm.slotOf vm p v' = Vm.slotOf vm p v := by
  have aligned (r : Ptr) (own : r ∈ (vm.vmproc p).vmRegionsAvl) :
      (vm.virRegion r).vaddr % vmPageSize = 0 ∧ (vm.virRegion r).length % vmPageSize = 0 :=
    ⟨blocks.aligned r (mem_allRegions own), (blocks.sound r (mem_allRegions own)).aligned⟩
  unfold vmPageSize at same aligned
  have search : regionSearch vm p v' = regionSearch vm p v := by
    unfold regionSearch
    refine congrArg List.getLast? (List.filter_congr fun r member => ?_)
    have start := (aligned r member).1
    exact decide_eq_decide.mpr (by omega)
  have region : regionAt vm p v' = regionAt vm p v := by
    unfold regionAt
    rw [search]
    cases searched : regionSearch vm p v with
    | none => rfl
    | some r =>
        have member := (List.mem_filter.mp (List.mem_of_getLast? searched)).1
        have place := aligned r member
        rw [Option.filter_some, Option.filter_some]
        refine if_congr ?_ rfl rfl
        rw [decide_eq_true_iff, decide_eq_true_iff]
        omega
  unfold Vm.slotOf
  rw [region]
  refine Option.map_congr fun r found => ?_
  obtain ⟨-, own, above, -⟩ := regionAt_some found
  have start := (aligned r own).1
  refine congrArg (Prod.mk r) ?_
  unfold vmPageSize
  omega

/-- Addresses in one slot are on one page. -/
theorem Blocks.page_slotOf (blocks : Blocks vm) {p : Fin np} {v v' : Nat} {place : Ptr × Nat}
    (found : Vm.slotOf vm p v = some place) (found' : Vm.slotOf vm p v' = some place) :
    v' / vmPageSize = v / vmPageSize := by
  obtain ⟨r, i⟩ := place
  obtain ⟨inRegion, number⟩ := slotOf_some found
  obtain ⟨inRegion', number'⟩ := slotOf_some found'
  obtain ⟨-, own, above, -⟩ := regionAt_some inRegion
  obtain ⟨-, -, above', -⟩ := regionAt_some inRegion'
  have start := blocks.aligned r (mem_allRegions own)
  unfold vmPageSize at *
  omega

namespace Machine

variable {filling : Filling Page} {m m' : Machine np Page}

def restart (m : Machine np Page) : Machine np Page := { m with vm := Vm.restart m.vm }

/-- A new page holds what is on the one that it is copied from. -/
def mapPfResident (header : Header np) (answers : Answers) (m : Machine np Page) (r : Ptr)
    (ph : PhysRegion) : Except Stop (Bool × Machine np Page) := do
  let (ok, vm) ← Vm.mapPfResident header answers m.vm r ph
  return (ok, m.given vm fun _ => m.memory (abs2click (m.vm.physBlock ph.ph).phys))

def pagefault (header : Header np) (answers : Answers) (filling : Filling Page)
    (m : Machine np Page) (p : Fin np) (vaddr : Nat) : Except Stop (Machine np Page) :=
  match regionAt m.vm p vaddr with
  | none => .ok m
  | some r =>
      let region := m.vm.virRegion r
      let offset := vaddr - region.vaddr
      match region.physblocks (offset / vmPageSize) with
      | none => (m.mapPf header answers filling r offset).map Prod.snd
      | some ph => (m.mapPfResident header answers r ph).map Prod.snd

/-- A process changes what is on a page. -/
def store (m : Machine np Page) (p : Fin np) (vaddr : Nat) (change : Page → Page) :
    Machine np Page :=
  match pageAt m.vm p vaddr with
  | none => m
  | some (_, pr) =>
      let page := abs2click (m.vm.physBlock pr.ph).phys
      { m with memory := update m.memory page (change (m.memory page)) }

theorem mapPfResident_bare (header : Header np) (answers : Answers) (m : Machine np Page) (r : Ptr)
    (ph : PhysRegion) : (m.mapPfResident header answers r ph).map bare =
      Vm.mapPfResident header answers m.vm r ph := by
  unfold mapPfResident
  cases Vm.mapPfResident header answers m.vm r ph with
  | error stop => rfl
  | ok result => rfl

theorem pagefault_bare (header : Header np) (answers : Answers) (filling : Filling Page)
    (m : Machine np Page) (p : Fin np) (vaddr : Nat) :
    (m.pagefault header answers filling p vaddr).map Machine.vm =
      Vm.pagefault header answers m.vm p vaddr := by
  unfold pagefault Vm.pagefault
  cases regionAt m.vm p vaddr with
  | none => rfl
  | some r =>
      dsimp only
      cases (m.vm.virRegion r).physblocks ((vaddr - (m.vm.virRegion r).vaddr) / vmPageSize) with
      | none =>
          dsimp only
          rw [← mapPf_bare header answers filling]
          cases m.mapPf header answers filling r (vaddr - (m.vm.virRegion r).vaddr) <;> rfl
      | some ph =>
          dsimp only
          rw [← mapPfResident_bare header answers]
          cases m.mapPfResident header answers r ph <;> rfl

/-- The books are in order, and every page of the memory has its owner. -/
structure Kept (header : Header np) (memory : Set Nat) (m : Machine np Page) : Prop where
  orderly : Orderly header m.vm
  housed : Housed memory m.vm

theorem Kept.restart (kept : m.Kept header memory) : m.restart.Kept header memory :=
  ⟨kept.orderly.answered 0, kept.housed.congr (holding_congr rfl rfl rfl rfl)⟩

theorem store_vm (m : Machine np Page) (p : Fin np) (vaddr : Nat) (change : Page → Page) :
    (m.store p vaddr change).vm = m.vm := by
  unfold store
  split <;> rfl

theorem store_kept (kept : m.Kept header memory) (p : Fin np) (vaddr : Nat)
    (change : Page → Page) : (m.store p vaddr change).Kept header memory := by
  have same := store_vm m p vaddr change
  exact ⟨same ▸ kept.orderly, same ▸ kept.housed⟩

/-- No other slot has the page that a process may write. -/
theorem store_placed (alone : header.Alone) (kept : m.Kept header memory) {p : Fin np} {vaddr : Nat}
    (writable : mayWrite header m.vm p vaddr) (change : Page → Page) :
    ∃ r i old, slotOf m.vm p vaddr = some (r, i) ∧ m.contents r i = some old ∧
      m.Placed (m.store p vaddr change) r i (change old) := by
  have blocks := kept.orderly.wellformed.blocks
  obtain ⟨⟨r, pr⟩, found, writable⟩ := writable
  have one : (m.vm.physBlock pr.ph).refcount = 1 := alone _ _ writable.2
  obtain ⟨i, slot, resident⟩ := pageAt_slot found
  have aligned := click2abs_abs2click (blocks.pages pr.ph (by omega))
  refine ⟨r, i, m.memory (abs2click (m.vm.physBlock pr.ph).phys), slot, ?_, ?_⟩
  · unfold contents
    rw [resident, Option.map_some]
  unfold store
  rw [found]
  refine ⟨?_, fun r' i' slot' different => ?_⟩
  · show ((m.vm.virRegion r).physblocks i).map _ = _
    rw [resident, Option.map_some]
    dsimp only
    rw [Function.update_self]
  · refine Option.map_congr fun pr' resident' => Function.update_of_ne (fun same => ?_) _ _
    have counted' := blocks.referenced slot' resident'
    refine blocks.sole (blocks.slotOf slot).1 resident one slot' resident' different ?_
    have aligned' := click2abs_abs2click (blocks.pages pr'.ph counted')
    have here : abs2click (m.vm.physBlock pr.ph).phys ∈ holding m.vm (.block pr.ph) :=
      ⟨by omega, aligned.symm⟩
    have there : abs2click (m.vm.physBlock pr.ph).phys ∈ holding m.vm (.block pr'.ph) :=
      ⟨counted', by rw [← same, aligned']⟩
    exact Place.block.inj (kept.housed.unique there here)

/-- The process reads one page as it has changed it, and the others as they were. -/
structure Stored (m m' : Machine np Page) (p : Fin np) (vaddr : Nat) (change : Page → Page) : Prop
    where
  here : ∀ v, v / vmPageSize = vaddr / vmPageSize → ∀ old, m.view p v = some old →
    m'.view p v = some (change old)
  elsewhere : ∀ v, v / vmPageSize ≠ vaddr / vmPageSize → m'.view p v = m.view p v

theorem Stored.trans {m1 : Machine np Page} {p : Fin np} {vaddr : Nat} {change : Page → Page}
    (faulted : m.Stored m1 p vaddr id) (stored : m1.Stored m' p vaddr change) :
    m.Stored m' p vaddr change :=
  ⟨fun v same old before => stored.here v same old (faulted.here v same old before),
    fun v other => (stored.elsewhere v other).trans (faulted.elsewhere v other)⟩

/-- What becomes of a slot that an address is in, and that the other slots are as they were. -/
theorem stored_of (blocks : Blocks m.vm) {p : Fin np} {vaddr : Nat} {r : Ptr} {i : Nat}
    {change : Page → Page} (found : slotOf m.vm p vaddr = some (r, i))
    (slots : ∀ v, slotOf m'.vm p v = slotOf m.vm p v)
    (here : ∀ old, m.contents r i = some old → m'.contents r i = some (change old))
    (others : ∀ r' i', Slot m.vm r' i' → (r', i') ≠ (r, i) → m'.contents r' i' = m.contents r' i') :
    m.Stored m' p vaddr change := by
  refine ⟨fun v same old before => ?_, fun v other => ?_⟩
  · have place := (blocks.slotOf_page p same).trans found
    unfold view at before ⊢
    rw [slots, place, Option.bind_some]
    rw [place, Option.bind_some] at before
    exact here old before
  · unfold view
    rw [slots]
    refine Option.bind_congr fun place found' => others place.1 place.2 (blocks.slotOf found').1 ?_
    intro same
    exact other (blocks.page_slotOf found (found'.trans (congrArg some same)))

theorem store_stored (alone : header.Alone) (kept : m.Kept header memory) {p : Fin np}
    {vaddr : Nat} (writable : mayWrite header m.vm p vaddr) (change : Page → Page) :
    m.Stored (m.store p vaddr change) p vaddr change := by
  obtain ⟨r, i, old, found, before, placed⟩ := store_placed alone kept writable change
  refine stored_of kept.orderly.wellformed.blocks found (fun v => by rw [store_vm]) ?_ placed.others
  intro old' before'
  rw [placed.place, Option.some.inj (before.symm.trans before')]

/-- A page fault has been handled: one slot has changed at most, and it holds what it held, or has no
page any more. -/
structure Handled (m m' : Machine np Page) (r : Ptr) (i : Nat) : Prop where
  retained : Retained m.vm m'.vm r i
  spares : m.Spares m'
  slot : ∀ old, m.contents r i = some old → m'.contents r i = some old ∨ m'.contents r i = none

theorem Handled.slotOf {r : Ptr} {i : Nat} (handled : m.Handled m' r i) (q : Fin np) (v : Nat) :
    Vm.slotOf m'.vm q v = Vm.slotOf m.vm q v :=
  slotOf_congr (handled.retained.lists q) (fun r' _ => handled.retained.frame r') v

theorem Handled.others {r r' : Ptr} {i i' : Nat} (handled : m.Handled m' r i)
    (staged : Staged memory m.vm none ∅) (slot : Slot m.vm r' i') (other : (r', i') ≠ (r, i)) :
    m'.contents r' i' = m.contents r' i' := by
  unfold contents
  rw [handled.retained.slots r' i' other]
  refine Option.map_congr fun pr resident => ?_
  have counted := staged.blocks.referenced slot resident
  rw [handled.retained.phys _ counted]
  exact handled.spares _ (staged.block_used counted)

/-- A page that is filled was not there before. -/
theorem filled_handled (header : Header np) (answers : Answers) (filling : Filling Page)
    (fresh : Fresh m.vm) {r : Ptr} {i : Nat} (absent : (m.vm.virRegion r).physblocks i = none) :
    Ends (fun _ => True) (fun result => m.Handled result.2 r i)
      (m.mapPf header answers filling r (i * vmPageSize)) := by
  unfold mapPf
  refine (mapPf_outcome header answers fresh absent).bind fun result after => ?_
  refine ⟨?_, given_spares m result.2 _, fun old held => ?_⟩
  · rcases after with missed | ⟨click, -, filled⟩
    · exact missed.retained fresh
    · show Retained m.vm result.2 r i
      rw [filled]
      exact filled_retained fresh click
  · unfold contents at held
    rw [absent] at held
    cases held

theorem mapPfResident_handled (header : Header np) (answers : Answers) (blocks : Blocks m.vm)
    {r : Ptr} {i : Nat} {pr : PhysRegion} (slot : Slot m.vm r i)
    (resident : (m.vm.virRegion r).physblocks i = some pr) :
    Ends (fun _ => True) (fun result => m.Handled result.2 r i)
      (m.mapPfResident header answers r pr) := by
  unfold mapPfResident
  refine (mapPfResident_rewritten header answers blocks slot resident).bind
    fun result rewritten => ?_
  refine ⟨rewritten.retained blocks.fresh, given_spares m result.2 _, fun old held => ?_⟩
  unfold contents at held
  rw [resident, Option.map_some] at held
  obtain ⟨ok, vm'⟩ := result
  rcases rewritten with ⟨calls, rfl⟩ | ⟨calls, -, rfl⟩ | ⟨click, calls, -, free, rfl⟩
  · left
    show ((m.vm.virRegion r).physblocks i).map _ = _
    rw [resident, Option.map_some]
    exact (congrArg some (if_neg fun both => both.2 both.1)).trans held
  · right
    show (((m.vm.parted r i pr.ph).virRegion r).physblocks i).map _ = _
    rw [(slot.parted pr.ph).2]
    rfl
  · left
    have copied : click ∈ m.vm.free ∧ click ∉ m.vm.free.erase click :=
      ⟨free, Finset.notMem_erase click _⟩
    refine Eq.trans ?_ held
    simp [contents, given, State.cloned, State.filled, State.parted, State.setSlot, State.setBlock,
      abs2click_click2abs, copied]

theorem pagefault_handled (header : Header np) (answers : Answers) (filling : Filling Page)
    (kept : m.Kept header memory) (p : Fin np) (vaddr : Nat) :
    Ends (fun _ => True) (fun m' => m' = m ∨ ∃ r i, slotOf m.vm p vaddr = some (r, i) ∧
        m.Handled m' r i)
      (m.pagefault header answers filling p vaddr) := by
  have blocks := kept.orderly.wellformed.blocks
  unfold pagefault slotOf
  cases inRegion : regionAt m.vm p vaddr with
  | none => exact .inl rfl
  | some r =>
      dsimp only
      split
      · rename_i absent
        have round (offset : Nat) : m.mapPf header answers filling r offset =
            m.mapPf header answers filling r (offset / vmPageSize * vmPageSize) := by
          unfold mapPf
          rw [Vm.mapPf_round header answers m.vm r offset]
        rw [round]
        exact Ends.map ((filled_handled header answers filling blocks.fresh absent).imp
          fun result handled => .inr ⟨r, _, rfl, handled⟩)
      · rename_i pr resident
        exact Ends.map ((mapPfResident_handled header answers blocks (blocks.slotIn inRegion)
          resident).imp fun result handled => .inr ⟨r, _, rfl, handled⟩)

/-- The page that a process may write after its page fault holds what it held before. -/
theorem pagefault_stored (header : Header np) (answers : Answers) (filling : Filling Page)
    (kept : m.Kept header memory) (p : Fin np) (vaddr : Nat) :
    Ends (fun _ => True) (fun m' => mayWrite header m'.vm p vaddr → m.Stored m' p vaddr id)
      (m.pagefault header answers filling p vaddr) := by
  have blocks := kept.orderly.wellformed.blocks
  refine (pagefault_handled header answers filling kept p vaddr).imp fun m' after writable => ?_
  rcases after with rfl | ⟨r, i, found, handled⟩
  · exact ⟨fun v same old before => before, fun _ _ => rfl⟩
  · refine stored_of blocks found (handled.slotOf p) (fun old held => ?_)
      fun r' i' slot other => handled.others (kept.housed.staged blocks) slot other
    obtain ⟨place, there, -⟩ := writable
    obtain ⟨i', found', resident⟩ := pageAt_slot there
    have same : some (place.1, i') = some (r, i) :=
      found'.symm.trans ((handled.slotOf p vaddr).trans found)
    obtain ⟨rfl, rfl⟩ := Prod.mk.inj (Option.some.inj same)
    refine (handled.slot old held).resolve_right fun none => ?_
    unfold contents at none
    rw [resident] at none
    cases none

end Machine

end Ve482.Vm
