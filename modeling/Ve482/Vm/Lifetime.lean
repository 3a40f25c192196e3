import Ve482.Vm.MapRegion
import Ve482.Vm.WriteFault

set_option autoImplicit false

namespace Ve482.Vm

open Function (update)
open Fallible (Ends)
open Ownership (Partition transfer transfer_target transfer_other)

variable {np : Nat} {header : Header np} {answers : Answers} {vm vm' : State np} {order : List Ptr}
  {regions : List Ptr} {memory : Set Nat}

/-- `map_page_region` at a place that was found, of a memory type without `ev_new` and not
preallocated. -/
def mapRegion (answers : Answers) (vm : State np) (p : Fin np) (startv length : Nat)
    (flags : Flags) (memtype : Nat) : Except Stop (Option Ptr × State np) := do
  match ← regionNew answers vm p startv length flags memtype with
  | (none, vm) => return (none, vm)
  | (some newregion, vm) =>
      let region := vm.virRegion newregion
      let vm := { vm with
        virRegion := update vm.virRegion newregion
          { region with flags := { region.flags with uninitialized := false } } }
      return (some newregion, regionInsert vm p newregion)

/-- `map_pf`, for writing, at an address of a process. -/
def pagefault (header : Header np) (answers : Answers) (vm : State np) (p : Fin np)
    (vaddr : Nat) : Except Stop (State np) :=
  match regionAt vm p vaddr with
  | none => .ok vm
  | some r =>
      let region := vm.virRegion r
      let offset := vaddr - region.vaddr
      match region.physblocks (offset / vmPageSize) with
      | none => (mapPf header answers vm r offset).map Prod.snd
      | some ph => (mapPfResident header answers vm r ph).map Prod.snd

/-- What the server is called for, and what it is asked. A slot of the process table is taken by
the rest of the system. -/
inductive Life (np : Nat) where
  | begin (p : Fin np) (endpoint : Endpoint)
  | map (answers : Answers) (p : Fin np) (startv length : Nat) (flags : Flags) (memtype : Nat)
  | fault (answers : Answers) (p : Fin np) (vaddr : Nat)
  | fork (answers : Answers) (dst src : Fin np)
  | request (event : Event np)

def State.start (vm : State np) (p : Fin np) (endpoint : Endpoint) : State np :=
  vm.setProc p { vmEndpoint := endpoint, inUse := true, vmRegionsAvl := [], vmYielded := 0 }

def restart (vm : State np) : State np := { vm with calls := 0 }

def happen (header : Header np) (vm : State np) : Life np → Except Stop (State np)
  | .begin p endpoint => .ok (vm.start p endpoint)
  | .map answers p startv length flags memtype =>
      (mapRegion answers (restart vm) p startv length flags memtype).map Prod.snd
  | .fault answers p vaddr => pagefault header answers (restart vm) p vaddr
  | .fork answers dst src => (mapProcCopy header answers (restart vm) dst src).map Prod.snd
  | .request event => step header vm event

/-- What the callers see to: a slot is taken for the endpoint that names it, a region comes where
no other one is, and a process is copied to one that has nothing yet. -/
def Life.Permitted (header : Header np) (vm : State np) : Life np → Prop
  | .begin p endpoint => (vm.vmproc p).inUse = false ∧ header.endpointP endpoint = p
  | .map _ p startv length _ _ => (vm.vmproc p).inUse ∧ startv % vmPageSize = 0 ∧ 0 < length ∧
      Away vm p length startv
  | .fault _ _ _ => True
  | .fork _ dst src => (vm.vmproc dst).inUse ∧ (vm.vmproc dst).vmRegionsAvl = [] ∧
      (vm.vmproc dst).vmYielded = 0 ∧ (vm.vmproc src).vmRegionsAvl ≠ []
  | .request _ => True

instance Life.Permitted.decidable (header : Header np) (vm : State np) :
    (event : Life np) → Decidable (event.Permitted header vm)
  | .begin _ _ => inferInstanceAs (Decidable (_ ∧ _))
  | .map _ p startv length _ _ => inferInstanceAs (Decidable (_ ∧ _ ∧ _ ∧
      ∀ r ∈ (vm.vmproc p).vmRegionsAvl, startv + length ≤ (vm.virRegion r).vaddr ∨
        (vm.virRegion r).vaddr + (vm.virRegion r).length ≤ startv))
  | .fault _ _ _ => .isTrue trivial
  | .fork _ _ _ => inferInstanceAs (Decidable (_ ∧ _ ∧ _ ∧ _))
  | .request _ => .isTrue trivial

/-- The books are in order, every block counts its slots, the regions of each process are apart,
and a process that is not in use has none. -/
structure Orderly (header : Header np) (vm : State np) : Prop where
  wellformed : Wellformed header vm
  exact : Exact vm (allRegions vm)
  layout : ∀ p, Layout vm p (vm.vmproc p).vmRegionsAvl
  idle : ∀ p, (vm.vmproc p).inUse = false → (vm.vmproc p).vmRegionsAvl = []

/-- The place and the owner of a region are what they were. -/
theorem Layout.kept {p : Fin np} (layout : Layout vm p regions) (blocks : Blocks vm')
    (members : ∀ r ∈ regions, r ∈ allRegions vm')
    (frame : ∀ r ∈ regions, SameFrame (vm.virRegion r) (vm'.virRegion r))
    (newRegion : vm.newRegion ≤ vm'.newRegion) : Layout vm' p regions := by
  refine ⟨?_, fun r member => ?_⟩
  · refine layout.apart.imp_of_mem fun {left right} inLeft inRight apart => ?_
    rw [(frame left inLeft).vaddr, (frame left inLeft).length, (frame right inRight).vaddr]
    exact apart
  · have mapped := layout.mapped r member
    have same := frame r member
    exact
      { parent := same.parent.trans mapped.parent
        known := Nat.lt_of_lt_of_le mapped.known newRegion
        aligned := same.vaddr.symm ▸ mapped.aligned
        positive := same.length.symm ▸ mapped.positive
        sound := blocks.sound r (members r member)
        counted := fun pb resident => Nat.lt_of_lt_of_le
          (List.count_pos_iff.mpr (List.mem_flatMap.mpr ⟨r, members r member, resident⟩))
          (blocks.counted pb) }

/-- No region has come or gone. -/
theorem Orderly.tallied (orderly : Orderly header vm) (wellformed : Wellformed header vm')
    (tallied : Tallied (allRegions vm) vm vm') : Orderly header vm' := by
  have same := allRegions_congr tallied.lists
  refine ⟨wellformed, ?_, fun p => ?_, fun p ended => ?_⟩
  · rw [same]
    exact tallied.exact orderly.exact
  · rw [tallied.lists]
    refine (orderly.layout p).kept wellformed.blocks (fun r member => ?_)
      (fun r _ => tallied.frame r) tallied.newRegion.ge
    rw [same]
    exact mem_allRegions member
  · rw [tallied.lists]
    exact orderly.idle p ((tallied.inUse p).symm.trans ended)

theorem Orderly.answered (orderly : Orderly header vm) (calls : Nat) :
    Orderly header { vm with calls } := by
  obtain ⟨order, books⟩ := orderly.wellformed.books
  have keeps : KeepsBooks vm { vm with calls } :=
    ⟨fun _ => ⟨rfl, rfl, rfl⟩, rfl, rfl, rfl, rfl, rfl, rfl, rfl, rfl⟩
  exact orderly.tallied
    ⟨⟨order, keeps.books books⟩, orderly.wellformed.blocks.idle _ _, orderly.wellformed.nodes⟩
    (.of_same (fun _ => ⟨rfl, rfl⟩) rfl rfl (Nat.le_refl _) fun _ => rfl)

theorem start_other {p q : Fin np} (endpoint : Endpoint) (different : q ≠ p) :
    (vm.start p endpoint).vmproc q = vm.vmproc q :=
  Function.update_of_ne different _ _

theorem start_own (vm : State np) (p : Fin np) (endpoint : Endpoint) :
    (vm.start p endpoint).vmproc p =
      { vmEndpoint := endpoint, inUse := true, vmRegionsAvl := [], vmYielded := 0 } :=
  Function.update_self _ _ _

theorem start_yielded (vm : State np) (p : Fin np) (endpoint : Endpoint) :
    (vm.start p endpoint).yielded = vm.yielded := rfl

/-- A yielded block is not owned by an endpoint whose slot is not in use. -/
theorem Books.stranger (books : Books header vm order) {p : Fin np} {endpoint : Endpoint}
    (ended : (vm.vmproc p).inUse = false) (named : header.endpointP endpoint = p) {node : Ptr}
    (member : node ∈ order) : header.endpointP (vm.yielded node).id.owner ≠ p ∧
      (vm.yielded node).id.owner ≠ endpoint := by
  have live := books.owners node member
  unfold vmIsokendpt at live
  dsimp only at live
  have other : header.endpointP (vm.yielded node).id.owner ≠ p := by
    intro same
    rw [same, ended] at live
    simp at live
  refine ⟨other, ?_⟩
  rintro same
  rw [same] at other
  exact other named

theorem Books.start (books : Books header vm order) {p : Fin np} {endpoint : Endpoint}
    (ended : (vm.vmproc p).inUse = false) (named : header.endpointP endpoint = p) :
    Books header (vm.start p endpoint) order := by
  refine
    { linked := books.linked, trees := books.trees, sorted := books.sorted, times := books.times,
      past := books.past, counts := fun q live => ?_, owners := fun node member => ?_
      slots := fun q live => ?_, fresh := books.fresh }
  · by_cases own : q = p
    · subst own
      rw [start_own, start_yielded]
      refine (List.countP_eq_zero.mpr fun node member => ?_).symm
      have stranger := (books.stranger ended named member).2
      simpa using stranger
    · rw [start_other endpoint own] at live ⊢
      exact books.counts q live
  · have owner := books.owners node member
    have other := (books.stranger ended named member).1
    rw [start_yielded]
    unfold vmIsokendpt at owner ⊢
    dsimp only at owner ⊢
    rwa [start_other endpoint other]
  · by_cases own : q = p
    · subst own
      rw [start_own]
      exact named
    · rw [start_other endpoint own] at live ⊢
      exact books.slots q live

theorem Orderly.start (orderly : Orderly header vm) {p : Fin np} {endpoint : Endpoint}
    (ended : (vm.vmproc p).inUse = false) (named : header.endpointP endpoint = p) :
    Orderly header (vm.start p endpoint) := by
  obtain ⟨order, books⟩ := orderly.wellformed.books
  have lists : ∀ q, ((vm.start p endpoint).vmproc q).vmRegionsAvl = (vm.vmproc q).vmRegionsAvl := by
    intro q
    by_cases own : q = p
    · rw [own, start_own, orderly.idle p ended]
    · rw [start_other endpoint own]
  have blocks := orderly.wellformed.blocks.congr lists rfl rfl rfl
  have same := allRegions_congr lists
  refine ⟨⟨⟨order, books.start ended named⟩, blocks, orderly.wellformed.nodes⟩, ?_, fun q => ?_,
    fun q idle => ?_⟩
  · rw [same]
    exact orderly.exact
  · rw [lists]
    refine (orderly.layout q).kept blocks (fun r member => ?_) (fun _ _ => .refl _) (Nat.le_refl _)
    rw [same]
    exact mem_allRegions member
  · rw [lists]
    by_cases own : q = p
    · exact own ▸ orderly.idle p ended
    · rw [start_other endpoint own] at idle
      exact orderly.idle q idle

/-- A region with no pages has come to a process. -/
structure Joined (vm vm' : State np) (p : Fin np) (r : Ptr) : Prop extends KeepsBooks vm vm' where
  own : (vm'.vmproc p).vmRegionsAvl = treeInsert vm' (vm.vmproc p).vmRegionsAvl r
  others : ∀ q, q ≠ p → vm'.vmproc q = vm.vmproc q
  regions : ∀ other, other ≠ r → vm'.virRegion other = vm.virRegion other
  parent : (vm'.virRegion r).parent = p
  empty : ∀ i, (vm'.virRegion r).physblocks i = none
  isNew : r = vm.newRegion ∧ vm'.newRegion = vm.newRegion + 1
  blocks : vm'.physBlock = vm.physBlock ∧ vm'.newBlock = vm.newBlock
  free : vm'.free = vm.free

theorem mapRegion_joined (answers : Answers) (vm : State np) (p : Fin np) (startv length : Nat)
    (flags : Flags) (memtype : Nat) :
    Ends (fun _ => True) (fun result => length % vmPageSize = 0 ∧
        ((∃ calls, result.2 = { vm with calls }) ∨ Joined vm result.2 p vm.newRegion ∧
          (result.2.virRegion vm.newRegion).vaddr = startv ∧
          (result.2.virRegion vm.newRegion).length = length))
      (mapRegion answers vm p startv length flags memtype) := by
  by_cases aligned : length % vmPageSize = 0
  · unfold mapRegion
    obtain ⟨-, -, new⟩ | ⟨-, calls, new⟩ := regionNew_ok answers aligned vm p startv flags memtype
    · rw [new, ok_bind]
      dsimp only
      refine ⟨aligned, Or.inr ⟨?_, ?_, ?_⟩⟩
      · refine
          { toKeepsBooks := .trans ?_ (keepsBooks_setRegions _ p _)
            own := ?_, others := fun q different => Function.update_of_ne different _ _
            regions := fun other different => ?_, parent := ?_, empty := fun i => ?_
            isNew := ⟨rfl, rfl⟩, blocks := ⟨rfl, rfl⟩, free := rfl }
        · exact ⟨fun _ => ⟨rfl, rfl, rfl⟩, rfl, rfl, rfl, rfl, rfl, rfl, rfl, rfl⟩
        · exact regionInsert_tree _ p _
        · exact (Function.update_of_ne different _ _).trans (Function.update_of_ne different _ _)
        · simp [regionInsert, State.setProc]
        · simp [regionInsert, State.setProc]
      · simp [regionInsert, State.setProc]
      · simp [regionInsert, State.setProc]
    · rw [new, ok_bind]
      exact ⟨aligned, Or.inl ⟨calls, rfl⟩⟩
  · unfold mapRegion regionNew physSlot assert
    rw [if_neg aligned]
    trivial

/-- A region that meets no other one comes into its place in the tree. -/
theorem treeInsert_away {tree : List Ptr} {r : Ptr} (positive : 0 < (vm.virRegion r).length)
    (full : ∀ other ∈ tree, 0 < (vm.virRegion other).length)
    (apart : tree.Pairwise fun left right =>
      (vm.virRegion left).vaddr + (vm.virRegion left).length ≤ (vm.virRegion right).vaddr)
    (away : ∀ other ∈ tree,
      (vm.virRegion r).vaddr + (vm.virRegion r).length ≤ (vm.virRegion other).vaddr ∨
        (vm.virRegion other).vaddr + (vm.virRegion other).length ≤ (vm.virRegion r).vaddr) :
    (treeInsert vm tree r).Perm (r :: tree) ∧ (treeInsert vm tree r).Pairwise fun left right =>
      (vm.virRegion left).vaddr + (vm.virRegion left).length ≤ (vm.virRegion right).vaddr := by
  have new : ¬ ∃ other ∈ tree, (vm.virRegion other).vaddr = (vm.virRegion r).vaddr := by
    rintro ⟨other, member, same⟩
    have free := away other member
    have some := full other member
    omega
  unfold treeInsert
  dsimp only
  rw [if_neg new]
  generalize isBefore : (fun other => decide
    ((vm.virRegion other).vaddr < (vm.virRegion r).vaddr)) = before
  have split : tree.takeWhile before ++ tree.dropWhile before = tree :=
    List.takeWhile_append_dropWhile
  have earlier : ∀ other ∈ tree.takeWhile before,
      (vm.virRegion other).vaddr < (vm.virRegion r).vaddr := by
    intro other member
    have small := List.mem_takeWhile_imp member
    rw [← isBefore] at small
    exact of_decide_eq_true small
  have later : ∀ other ∈ tree.dropWhile before,
      (vm.virRegion r).vaddr ≤ (vm.virRegion other).vaddr := by
    have sorted := apart.sublist (List.dropWhile_sublist before)
    have first := @List.head?_dropWhile_not _ before tree
    cases rest : tree.dropWhile before with
    | nil => exact fun other member => absurd member List.not_mem_nil
    | cons head rest' =>
        rw [rest] at sorted first
        have above : ¬ (vm.virRegion head).vaddr < (vm.virRegion r).vaddr := by
          rw [List.head?_cons, ← isBefore] at first
          simpa using first
        intro other member
        rcases List.mem_cons.mp member with rfl | inRest
        · omega
        · have after := (List.pairwise_cons.mp sorted).1 other inRest
          omega
  refine ⟨?_, ?_⟩
  · have perm : (tree.takeWhile before ++ r :: tree.dropWhile before).Perm
        (r :: (tree.takeWhile before ++ tree.dropWhile before)) := List.perm_middle
    rwa [split] at perm
  · rw [← split] at apart full away
    obtain ⟨low, high, between⟩ := List.pairwise_append.mp apart
    refine List.pairwise_append.mpr ⟨low, List.pairwise_cons.mpr ⟨fun other member => ?_, high⟩,
      fun left inLow right inHigh => ?_⟩
    · have free := away other (List.mem_append_right _ member)
      have bound := later other member
      have some := full other (List.mem_append_right _ member)
      omega
    · rcases List.mem_cons.mp inHigh with rfl | inRest
      · have free := away left (List.mem_append_left _ inLow)
        have bound := earlier left inLow
        omega
      · exact between left inLow right inRest

theorem Joined.orderly {p : Fin np} {startv length : Nat} (orderly : Orderly header vm)
    (joined : Joined vm vm' p vm.newRegion) (live : (vm.vmproc p).inUse)
    (place : (vm'.virRegion vm.newRegion).vaddr = startv ∧
      (vm'.virRegion vm.newRegion).length = length)
    (aligned : startv % vmPageSize = 0 ∧ length % vmPageSize = 0) (positive : 0 < length)
    (away : Away vm p length startv) : Orderly header vm' := by
  obtain ⟨order, books⟩ := orderly.wellformed.books
  have before := orderly.wellformed.blocks
  have older : ∀ other ∈ allRegions vm, other ≠ vm.newRegion := by
    intro other member
    obtain ⟨q, -, inTree⟩ := List.mem_flatMap.mp member
    exact Nat.ne_of_lt ((orderly.layout q).mapped other inTree).known
  have kept : ∀ other ∈ allRegions vm, vm'.virRegion other = vm.virRegion other :=
    fun other member => joined.regions other (older other member)
  have apart : ∀ q, Layout vm q (vm.vmproc q).vmRegionsAvl := orderly.layout
  have tree : (treeInsert vm' (vm.vmproc p).vmRegionsAvl vm.newRegion).Perm
      (vm.newRegion :: (vm.vmproc p).vmRegionsAvl) ∧
      (treeInsert vm' (vm.vmproc p).vmRegionsAvl vm.newRegion).Pairwise fun left right =>
        (vm'.virRegion left).vaddr + (vm'.virRegion left).length ≤ (vm'.virRegion right).vaddr := by
    refine treeInsert_away (place.2.symm ▸ positive) (fun other member => ?_) ?_
      fun other member => ?_
    · rw [kept other (mem_allRegions member)]
      exact ((apart p).mapped other member).positive
    · refine (apart p).apart.imp_of_mem fun {left right} inLeft inRight ends => ?_
      rw [kept left (mem_allRegions inLeft), kept right (mem_allRegions inRight)]
      exact ends
    · rw [kept other (mem_allRegions member), place.1, place.2]
      exact away other member
  have perm : (allRegions vm').Perm (vm.newRegion :: allRegions vm) := by
    have others : allRegions (vm'.without p) = allRegions (vm.without p) := by
      refine allRegions_congr fun q => ?_
      by_cases own : q = p
      · rw [own, without_own, without_own]
      · rw [without_other own, without_other own, joined.others q own]
    refine (allRegions_split vm' p).trans ?_
    rw [joined.own, others]
    exact (tree.1.append_right _).trans ((allRegions_split vm p).symm.cons _)
  have members : ∀ {other}, other ∈ allRegions vm' →
      other = vm.newRegion ∨ other ∈ allRegions vm :=
    fun member => List.mem_cons.mp (perm.mem_iff.mp member)
  have none : (vm'.virRegion vm.newRegion).allRefs = [] :=
    VirRegion.refs_empty fun i _ _ => joined.empty i
  have counts : ∀ pb, (procRefs vm' (allRegions vm')).count pb =
      (procRefs vm (allRegions vm)).count pb := by
    intro pb
    rw [← procRefs_congr kept, procRefs, (perm.flatMap_right _).count_eq, List.flatMap_cons, none]
    rfl
  have blocks : Blocks vm' := by
    refine ⟨?_, fun other member => ?_, fun other member => ?_, fun pb => ?_, ?_, ?_⟩
    · exact perm.symm.nodup (List.nodup_cons.mpr ⟨fun member => older _ member rfl, before.distinct⟩)
    · rcases members member with rfl | old
      · refine ⟨place.2.symm ▸ aligned.2, fun i pr _ resident => ?_⟩
        rw [joined.empty i] at resident
        cases resident
      · exact kept other old ▸ before.sound other old
    · rcases members member with rfl | old
      · exact place.1.symm ▸ aligned.1
      · exact kept other old ▸ before.aligned other old
    · rw [counts, joined.blocks.1]
      exact before.counted pb
    · rw [joined.blocks.1]
      exact before.pages
    · rw [joined.blocks.1, joined.blocks.2]
      exact before.fresh
  refine ⟨⟨⟨order, joined.toKeepsBooks.books books⟩, blocks, fun h node inTree => ?_⟩, fun pb => ?_,
    fun q => ?_, fun q ended => ?_⟩
  · rw [joined.vmYieldedBlocks] at inTree
    rw [joined.yielded]
    exact orderly.wellformed.nodes h node inTree
  · rw [counts, joined.blocks.1]
    exact orderly.exact pb
  · by_cases own : q = p
    · subst own
      rw [joined.own]
      refine ⟨tree.2, fun r member => ?_⟩
      have inAll : r ∈ allRegions vm' := mem_allRegions (joined.own ▸ member)
      rcases List.mem_cons.mp (tree.1.mem_iff.mp member) with rfl | old
      · exact
          { parent := joined.parent
            known := by rw [joined.isNew.2]; exact Nat.lt_succ_self _
            aligned := place.1.symm ▸ aligned.1
            positive := place.2.symm ▸ positive
            sound := blocks.sound _ inAll
            counted := by simp [none] }
      · have mapped := (apart q).mapped r old
        have same := kept r (mem_allRegions old)
        exact
          { parent := same ▸ mapped.parent
            known := by rw [joined.isNew.2]; exact Nat.lt_succ_of_lt mapped.known
            aligned := same ▸ mapped.aligned
            positive := same ▸ mapped.positive
            sound := same ▸ mapped.sound
            counted := by rw [same, joined.blocks.1]; exact mapped.counted }
    · have list : (vm'.vmproc q).vmRegionsAvl = (vm.vmproc q).vmRegionsAvl := by
        rw [joined.others q own]
      rw [list]
      refine (apart q).kept blocks (fun r member => ?_) (fun r member => ?_) ?_
      · exact mem_allRegions (list.symm ▸ member)
      · rw [kept r (mem_allRegions member)]
        exact .refl _
      · rw [joined.isNew.2]
        exact Nat.le_succ _
  · have other : q ≠ p := by
      rintro rfl
      rw [(joined.vmproc q).2.1, live] at ended
      cases ended
    rw [joined.others q other] at ended ⊢
    exact orderly.idle q ended

theorem mapPf_round (header : Header np) (answers : Answers) (vm : State np) (r : Ptr)
    (offset : Nat) : mapPf header answers vm r offset =
      mapPf header answers vm r (offset / vmPageSize * vmPageSize) := by
  have round : offset - offset % vmPageSize = offset / vmPageSize * vmPageSize := by
    unfold vmPageSize
    omega
  unfold mapPf
  rw [round, (offset_slot (offset / vmPageSize)).2, Nat.sub_zero]

theorem mapPf_orderly (header : Header np) (answers : Answers) (orderly : Orderly header vm)
    {r : Ptr} {i : Nat} (slot : Slot vm r i)
    (empty : (vm.virRegion r).physblocks i = none) :
    Ends (fun _ => True) (fun result => Orderly header result.2)
      (mapPf header answers vm r (i * vmPageSize)) := by
  obtain ⟨order, books⟩ := orderly.wellformed.books
  have blocks := orderly.wellformed.blocks
  have keeps : Keeps vm (mapPf header answers vm r (i * vmPageSize)) := mapPf_keeps vm r _
  have tallied := mapPf_tallied header answers (i * vmPageSize) blocks.measured slot.region
    blocks.fresh
  have ends := mapPf_ends header answers blocks slot empty
  refine ((((keeps.and tallied).and ends).stop fun _ _ => trivial)).imp fun result after => ?_
  obtain ⟨⟨keeps, tallied⟩, -, outcome⟩ := after
  refine orderly.tallied ⟨⟨order, keeps.books books⟩, ?_, fun h node inTree => ?_⟩ tallied
  · rcases outcome with ⟨-, -, click, -, filled⟩ | ⟨-, -, blocks'⟩
    · rw [filled]
      exact blocks.filled slot empty click
    · exact blocks'
  · rw [keeps.vmYieldedBlocks] at inTree
    rw [keeps.yielded]
    exact orderly.wellformed.nodes h node inTree

theorem Rewritten.orderly {r : Ptr} {i : Nat} {pr : PhysRegion}
    (rewritten : Rewritten vm vm' r i pr.ph) (orderly : Orderly header vm) (slot : Slot vm r i)
    (resident : (vm.virRegion r).physblocks i = some pr) : Orderly header vm' := by
  obtain ⟨order, books⟩ := orderly.wellformed.books
  have blocks := orderly.wellformed.blocks
  have keeps := rewritten.keeps
  refine orderly.tallied ⟨⟨order, keeps.books books⟩, rewritten.blocks blocks slot resident,
    fun h node inTree => ?_⟩ (rewritten.tallied blocks slot resident)
  rw [keeps.vmYieldedBlocks] at inTree
  rw [keeps.yielded]
  exact orderly.wellformed.nodes h node inTree

/-- The slot in which an address is. -/
theorem Blocks.slotIn (blocks : Blocks vm) {p : Fin np} {vaddr : Nat} {r : Ptr}
    (found : regionAt vm p vaddr = some r) :
    Slot vm r ((vaddr - (vm.virRegion r).vaddr) / vmPageSize) := by
  obtain ⟨-, own, above, below⟩ := regionAt_some found
  have region := mem_allRegions own
  have whole := (blocks.sound r region).aligned
  refine ⟨region, ?_⟩
  unfold vmPageSize at *
  omega

theorem pagefault_orderly (header : Header np) (answers : Answers) (orderly : Orderly header vm)
    (p : Fin np) (vaddr : Nat) :
    Ends (fun _ => True) (Orderly header) (pagefault header answers vm p vaddr) := by
  unfold pagefault
  cases found : regionAt vm p vaddr with
  | none => exact orderly
  | some r =>
      have slot := orderly.wellformed.blocks.slotIn found
      dsimp only
      split
      · rename_i absent
        rw [mapPf_round]
        exact (mapPf_orderly header answers orderly slot absent).map
      · rename_i ph resident
        exact ((mapPfResident_rewritten header answers orderly.wellformed.blocks slot resident).imp
          fun result rewritten => rewritten.orderly orderly slot resident).map

theorem forall_rel {α β : Type} {related : α → β → Prop} {apart : α → α → Prop}
    {apart' : β → β → Prop} {lefts : List α} {rights : List β}
    (all : List.Forall₂ related lefts rights)
    (carries : ∀ left right left' right', related left left' → related right right' →
      apart left right → apart' left' right')
    (pairwise : lefts.Pairwise apart) : rights.Pairwise apart' := by
  induction all with
  | nil => exact .nil
  | cons first rest ih =>
      obtain ⟨heads, tail⟩ := List.pairwise_cons.mp pairwise
      refine List.pairwise_cons.mpr ⟨fun right member => ?_, ih tail⟩
      obtain ⟨left, inLefts, holds⟩ := exists_left rest member
      exact carries _ _ _ _ first holds (heads left inLefts)

theorem Copying.orderly {dst src : Fin np} {copies : List Ptr} (orderly : Orderly header vm)
    (copying : Copying vm vm' dst (vm.vmproc src).vmRegionsAvl copies) (shares : Shares vm vm')
    (live : (vm.vmproc dst).inUse) (clear : (vm.vmproc dst).vmRegionsAvl = []) :
    Orderly header vm' := by
  obtain ⟨order, books⟩ := orderly.wellformed.books
  have before := orderly.wellformed.blocks
  have mapped := (orderly.layout src).mapped
  have known : ∀ r ∈ allRegions vm, r < vm.newRegion := by
    intro r member
    obtain ⟨q, -, inTree⟩ := List.mem_flatMap.mp member
    exact ((orderly.layout q).mapped r inTree).known
  have kept : ∀ r ∈ allRegions vm, vm'.virRegion r = vm.virRegion r :=
    fun r member => copying.regions r (known r member)
  have list : (vm'.vmproc dst).vmRegionsAvl = copies := by rw [copying.own]
  have perm : (allRegions vm').Perm (copies ++ allRegions vm) := by
    have others : allRegions (vm'.without dst) = allRegions vm := by
      refine allRegions_congr fun q => ?_
      by_cases own : q = dst
      · rw [own, without_own, clear]
      · rw [without_other own, copying.others q own]
    have split := allRegions_split vm' dst
    rwa [list, others] at split
  have copied : ∀ new ∈ copies, ∃ old ∈ (vm.vmproc src).vmRegionsAvl,
      vm'.virRegion new = (vm.virRegion old).copy dst :=
    fun new member => exists_left copying.copied member
  have counts : ∀ pb, (procRefs vm' (allRegions vm')).count pb =
      (procRefs vm (allRegions vm)).count pb +
        (procRefs vm (vm.vmproc src).vmRegionsAvl).count pb := by
    intro pb
    rw [← procRefs_congr kept, ← copying.refs, Nat.add_comm, ← List.count_append, procRefs,
      (perm.flatMap_right _).count_eq, List.flatMap_append]
    rfl
  have refcounts : ∀ pb, (vm'.physBlock pb).refcount = (vm.physBlock pb).refcount +
      (procRefs vm (vm.vmproc src).vmRegionsAvl).count pb := by
    intro pb
    rw [copying.physBlock]
    rfl
  have exact' : Exact vm' (allRegions vm') := by
    intro pb
    rw [refcounts, counts, orderly.exact pb]
  have source : ∀ pb, (procRefs vm (vm.vmproc src).vmRegionsAvl).count pb ≤
      (vm.physBlock pb).refcount := by
    intro pb
    have split := ((allRegions_split vm src).flatMap_right
      fun r => (vm.virRegion r).allRefs).count_eq pb
    rw [List.flatMap_append, List.count_append] at split
    rw [orderly.exact pb]
    unfold procRefs
    omega
  have blocks : Blocks vm' := by
    refine ⟨?_, fun r member => ?_, fun r member => ?_, fun pb => (exact' pb).ge, fun pb counted => ?_,
      fun pb new => ?_⟩
    · refine perm.symm.nodup (List.nodup_append.mpr ⟨copying.nodup, before.distinct, ?_⟩)
      intro new inCopies r inAll same
      have newer := (copying.fresh new inCopies).1
      exact Nat.not_lt.mpr newer (same ▸ known r inAll)
    · rcases List.mem_append.mp (perm.mem_iff.mp member) with new | old
      · obtain ⟨old, inTree, copy⟩ := copied r new
        rw [copy]
        exact (mapped old inTree).sound.copy dst
      · exact kept r old ▸ before.sound r old
    · rcases List.mem_append.mp (perm.mem_iff.mp member) with new | old
      · obtain ⟨old, inTree, copy⟩ := copied r new
        rw [copy]
        exact (mapped old inTree).aligned
      · exact kept r old ▸ before.aligned r old
    · have phys : (vm'.physBlock pb).phys = (vm.physBlock pb).phys := by
        rw [copying.physBlock]
        rfl
      have bound := source pb
      rw [refcounts] at counted
      rw [phys]
      exact before.pages pb (by omega)
    · rw [shares.newBlock] at new
      have none := before.fresh pb new
      have bound := source pb
      rw [refcounts]
      omega
  refine ⟨⟨⟨order, shares.toKeepsBooks.books books⟩, blocks, fun h node inTree => ?_⟩, exact',
    fun q => ?_, fun q ended => ?_⟩
  · rw [shares.vmYieldedBlocks] at inTree
    rw [shares.yielded]
    exact orderly.wellformed.nodes h node inTree
  · by_cases own : q = dst
    · subst own
      rw [list]
      refine ⟨?_, fun new member => ?_⟩
      · refine forall_rel copying.copied (fun left right left' right' isLeft isRight ends => ?_)
          (orderly.layout src).apart
        rw [isLeft, isRight]
        exact ends
      · obtain ⟨old, inTree, copy⟩ := copied new member
        have inAll : new ∈ allRegions vm' := perm.mem_iff.mpr (List.mem_append_left _ member)
        exact
          { parent := by rw [copy]; rfl
            known := (copying.fresh new member).2
            aligned := blocks.aligned new inAll
            positive := by rw [copy]; exact (mapped old inTree).positive
            sound := blocks.sound new inAll
            counted := fun pb resident => Nat.lt_of_lt_of_le (List.count_pos_iff.mpr
              (List.mem_flatMap.mpr ⟨new, inAll, resident⟩)) (blocks.counted pb) }
    · rw [copying.others q own]
      refine (orderly.layout q).kept blocks (fun r member => ?_) (fun r member => ?_)
        copying.newRegion
      · exact perm.mem_iff.mpr (List.mem_append_right _ (mem_allRegions member))
      · rw [kept r (mem_allRegions member)]
        exact .refl _
  · have other : q ≠ dst := by
      rintro rfl
      rw [(shares.vmproc q).2.1, live] at ended
      cases ended
    rw [copying.others q other] at ended ⊢
    exact orderly.idle q ended

theorem Undone.orderly (orderly : Orderly header vm) (undone : Undone vm vm')
    (shares : Shares vm vm') : Orderly header vm' := by
  obtain ⟨order, books⟩ := orderly.wellformed.books
  have lists : ∀ q, (vm'.vmproc q).vmRegionsAvl = (vm.vmproc q).vmRegionsAvl :=
    fun q => by rw [undone.vmproc]
  have kept : ∀ r ∈ allRegions vm, vm'.virRegion r = vm.virRegion r := by
    intro r member
    obtain ⟨q, -, inTree⟩ := List.mem_flatMap.mp member
    exact undone.regions r ((orderly.layout q).mapped r inTree).known
  have same := allRegions_congr lists
  have blocks := orderly.wellformed.blocks.of_regions lists kept undone.physBlock shares.newBlock
  refine ⟨⟨⟨order, shares.toKeepsBooks.books books⟩, blocks, fun h node inTree => ?_⟩, fun pb => ?_,
    fun q => ?_, fun q ended => ?_⟩
  · rw [shares.vmYieldedBlocks] at inTree
    rw [shares.yielded]
    exact orderly.wellformed.nodes h node inTree
  · rw [same, procRefs_congr kept, undone.physBlock]
    exact orderly.exact pb
  · rw [lists]
    refine (orderly.layout q).kept blocks (fun r member => ?_) (fun r member => ?_) shares.newRegion
    · exact same ▸ mem_allRegions member
    · rw [kept r (mem_allRegions member)]
      exact .refl _
  · rw [undone.vmproc] at ended
    rw [lists]
    exact orderly.idle q ended

theorem exit_orderly (orderly : Orderly header vm) {p : Fin np} (live : (vm.vmproc p).inUse) :
    ∃ vm', mapFreeProc header vm p = .ok vm' ∧
      Orderly header (vm'.setProc p { vm'.vmproc p with inUse := false }) := by
  obtain ⟨order, books⟩ := orderly.wellformed.books
  obtain ⟨vm', result, wellformed⟩ := mapFreeProc_wellformed orderly.wellformed live
  have departed := (mapFreeProc_departed orderly.wellformed orderly.exact (p := p)).of_eq result
  have swept := (mapFreeProc_ends books live).of_eq result
  refine ⟨vm', result, ?_⟩
  generalize ended : vm'.setProc p { vm'.vmproc p with inUse := false } = vm2 at *
  have lists : ∀ q, (vm2.vmproc q).vmRegionsAvl = ((vm.without p).vmproc q).vmRegionsAvl := by
    intro q
    rw [← departed.lists q, ← ended]
    by_cases own : q = p
    · subst own
      simp [State.setProc]
    · simp [State.setProc, own]
  have frame : ∀ r, SameFrame (vm.virRegion r) (vm2.virRegion r) := by
    rw [← ended]
    exact departed.frame
  have newRegion : vm2.newRegion = vm.newRegion := by
    rw [← ended]
    exact departed.newRegion
  refine ⟨wellformed, fun pb => ?_, fun q => ?_, fun q idle => ?_⟩
  · have exact' := departed.exact pb
    rw [allRegions_congr departed.lists] at exact'
    rw [allRegions_congr lists, ← ended]
    exact exact'
  · by_cases own : q = p
    · have none : (vm2.vmproc q).vmRegionsAvl = [] := by rw [lists, own, without_own]
      rw [none]
      refine ⟨.nil, fun r member => ?_⟩
      cases member
    · have same : (vm2.vmproc q).vmRegionsAvl = (vm.vmproc q).vmRegionsAvl := by
        rw [lists, without_other own]
      rw [same]
      exact (orderly.layout q).kept wellformed.blocks
        (fun r member => mem_allRegions (same.symm ▸ member)) (fun r _ => frame r) newRegion.ge
  · by_cases own : q = p
    · rw [lists, own, without_own]
    · rw [lists, without_other own]
      refine orderly.idle q ?_
      rw [← (swept.processes q).2, ← idle, ← ended]
      simp [State.setProc, own]

theorem request_wellformed (wellformed : Wellformed header vm) (event : Event np)
    (stays : ∀ p, event ≠ .exit p) :
    Ends (fun _ => True) (Wellformed header) (step header vm event) := by
  cases event with
  | yieldblockGetblock answers m =>
      unfold step
      dsimp only
      cases caller : vmIsokendpt header vm m.source with
      | none =>
          have caller' : vmIsokendpt header { vm with calls := 0 } m.source = none := caller
          unfold doYieldblockgetblock
          rw [caller']
          trivial
      | some p =>
          have asked := doYieldblockgetblock_asked header answers wellformed.numbered m True True
            (p := p) caller
          exact ((asked.stop fun _ _ => trivial).imp fun result after => after.1).map
  | forgetblock source id =>
      unfold step
      dsimp only
      cases caller : vmIsokendpt header vm source with
      | none =>
          unfold doForgetblock
          rw [caller]
          trivial
      | some p =>
          obtain ⟨vm', result, wellformed'⟩ := doForgetblock_wellformed wellformed caller id
          rw [result]
          exact wellformed'
  | forgetblocks source =>
      unfold step doForgetblocks
      dsimp only
      cases caller : vmIsokendpt header vm source with
      | none => trivial
      | some p =>
          obtain ⟨vm', result, wellformed'⟩ :=
            freeYieldedProc_wellformed wellformed (vmIsokendpt_live caller).2
          dsimp only
          rw [result]
          exact wellformed'
  | freeYielded maxBytes =>
      obtain ⟨bytes, vm', result, wellformed'⟩ := freeYielded_wellformed wellformed maxBytes
      unfold step
      dsimp only
      rw [result]
      exact wellformed'
  | exit p => exact absurd rfl (stays p)

theorem request_orderly (orderly : Orderly header vm) (event : Event np) :
    Ends (fun _ => True) (Orderly header) (step header vm event) := by
  by_cases stays : ∀ p, event ≠ .exit p
  · exact ((request_wellformed orderly.wellformed event stays).and
      (request_tallied orderly.wellformed event stays)).stop (fun _ _ => trivial) |>.imp
        fun vm' after => orderly.tallied after.1 after.2
  · push Not at stays
    obtain ⟨p, rfl⟩ := stays
    unfold step
    dsimp only
    split
    · rename_i live
      obtain ⟨vm', result, orderly'⟩ := exit_orderly orderly live
      rw [result]
      exact orderly'
    · exact orderly

/-- One thing that happens leaves the server orderly. -/
theorem happen_orderly (orderly : Orderly header vm) (event : Life np)
    (permitted : event.Permitted header vm) :
    Ends (fun _ => True) (Orderly header) (happen header vm event) := by
  cases event with
  | begin p endpoint => exact orderly.start permitted.1 permitted.2
  | map answers p startv length flags memtype =>
      obtain ⟨live, aligned, positive, away⟩ := permitted
      have started := orderly.answered 0
      refine Ends.map ((mapRegion_joined answers (restart vm) p startv length flags memtype).imp
        fun result after => ?_)
      obtain ⟨whole, ⟨calls, same⟩ | ⟨joined, place⟩⟩ := after
      · rw [same]
        exact started.answered calls
      · exact joined.orderly started live place ⟨aligned, whole⟩ positive away
  | fault answers p vaddr => exact pagefault_orderly header answers (orderly.answered 0) p vaddr
  | fork answers dst src =>
      obtain ⟨live, clear, unyielded, nonempty⟩ := permitted
      have started : Orderly header (restart vm) := orderly.answered 0
      obtain ⟨code, vm', result, outcome⟩ :=
        mapProcCopy_ok header answers rfl (started.layout src) nonempty clear unyielded
      have shares := (mapProcCopy_shares header answers src
        (show ((restart vm).vmproc dst).vmYielded = 0 from unyielded)).of_eq result
      unfold happen
      dsimp only
      rw [result]
      rcases outcome with ⟨-, copies, copying⟩ | ⟨-, undone⟩
      · exact copying.orderly started shares live clear
      · exact undone.orderly started shares
  | request event => exact request_orderly orderly event

/-! The owners of the pages. -/

theorem owned_congr (same : holding vm' = holding vm) (owned : Owned memory vm) :
    Owned memory vm' := by
  unfold Owned
  rwa [same]

theorem holding_none {pb : Ptr} (none : (vm.physBlock pb).phys = mapNone) :
    holding vm (.block pb) = ∅ := by
  ext page
  refine iff_of_false (fun both => ?_) id
  have place := none.symm.trans both.2
  unfold mapNone click2abs vmPageSize at place
  omega

/-- A block without a page changes. -/
theorem holding_setBlock {pb : Ptr} (block : PhysBlock) (before : holding vm (.block pb) = ∅)
    (after : block.refcount = 0 ∨ block.phys = mapNone) :
    holding (vm.setBlock pb block) = holding vm := by
  funext place
  cases place with
  | free => rfl
  | block other =>
      by_cases same : other = pb
      · subst same
        rw [before]
        have now : (vm.setBlock other block).physBlock other = block := Function.update_self _ _ _
        rcases after with unused | unplaced
        · exact holding_unused (by rw [now, unused])
        · exact holding_none (by rw [now, unplaced])
      · simp [holding, State.setBlock, same]
  | yielded node => rfl

/-- A free page goes to a block that had none. -/
theorem filled_owned {pb : Ptr} {click refcount : Nat} (free : click ∈ vm.free)
    (counted : 0 < refcount) (before : holding vm (.block pb) = ∅) (owned : Owned memory vm) :
    Owned memory { vm.setBlock pb ⟨click2abs click, refcount⟩ with
      free := vm.free.erase click } := by
  have given := owned.transfer .free (.block pb) {click} (by simp) (by simpa [holding] using free)
  unfold Owned
  convert given using 1
  funext place
  cases place with
  | free =>
      rw [Ownership.transfer_source]
      ext page
      simp [holding, and_comm]
  | block other =>
      by_cases same : other = pb
      · subst same
        rw [transfer_target (by simp), before, Set.empty_union]
        exact holding_block (by simpa [State.setBlock] using counted) (by simp [State.setBlock])
      · rw [transfer_other (by simp) (by simpa using same)]
        simp [holding, State.setBlock, same]
  | yielded node =>
      rw [transfer_other (by simp) (by simp)]
      rfl

theorem pbUnreferenced_unplaced {r : Ptr} {pr : PhysRegion}
    (none : (vm.physBlock pr.ph).phys = mapNone) (owned : Owned memory vm) :
    Ends (fun _ => True) (Owned memory) (pbUnreferenced vm r pr) := by
  unfold pbUnreferenced
  refine assert_ends (fun _ => trivial) fun _ => ?_
  dsimp only
  rw [if_neg fun both => both.2 none]
  refine (physblockSet_slot _ r _ _).imp fun vm' set => owned_congr ?_ owned
  rw [set, ← holding_setBlock { vm.physBlock pr.ph with
    refcount := (vm.physBlock pr.ph).refcount - 1 } (holding_none none) (Or.inr none)]
  exact holding_congr rfl rfl rfl rfl

theorem mapPhWritept_owned (answers : Answers) (owned : Owned memory vm) (r : Ptr)
    (pr : PhysRegion) :
    Ends (fun _ => True) (fun result => Owned memory result.2) (mapPhWritept answers vm r pr) := by
  unfold mapPhWritept
  refine assert_ends (fun _ => trivial) fun _ => assert_ends (fun _ => trivial) fun _ =>
    assert_ends (fun _ => trivial) fun _ => ?_
  exact owned_congr (holding_congr rfl rfl rfl rfl) owned

theorem mapPf_owned (header : Header np) (answers : Answers) (fresh : Fresh vm)
    (owned : Owned memory vm) (r : Ptr) (offset : Nat) :
    Ends (fun _ => True) (fun result => Owned memory result.2)
      (mapPf header answers vm r offset) := by
  have unused : holding vm (.block vm.newBlock) = ∅ := holding_unused (fresh _ (Nat.le_refl _))
  unfold mapPf
  refine assert_ends (fun _ => trivial) fun _ => assert_ends (fun _ => trivial) fun _ =>
    assert_ends (fun _ => trivial) fun _ => (physblockGet_ends _ _).bind fun found _ => ?_
  cases found with
  | some pr => trivial
  | none =>
      dsimp only
      unfold pbNew
      by_cases first : answers.slaballoc vm.calls
      · rw [if_pos first]
        dsimp only
        have made : holding (vm.setBlock vm.newBlock ⟨mapNone, 0⟩) = holding vm :=
          holding_setBlock _ unused (Or.inl rfl)
        have noted : holding (vm.setBlock vm.newBlock ⟨mapNone, 1⟩) = holding vm :=
          holding_setBlock _ unused (Or.inr rfl)
        unfold pbReference
        by_cases second : answers.slaballoc (vm.calls + 1)
        · rw [if_pos second]
          dsimp only
          rw [bind_assoc]
          refine (physblockSet_slot _ r _ _).bind fun vm2 set => ?_
          have owned2 : Owned memory vm2 := by
            refine owned_congr ?_ owned
            rw [← noted, set]
            exact holding_congr rfl (by simp [State.setSlot, State.setBlock, State.called]) rfl rfl
          have block : vm2.physBlock vm.newBlock = ⟨mapNone, 1⟩ := by
            rw [set]
            simp [State.setSlot, State.setBlock, State.called]
          have none : holding vm2 (.block vm.newBlock) = ∅ := holding_none (by rw [block])
          show Ends _ _ (ite (header.writable _ (vm2.physBlock vm.newBlock) = true) _ _)
          rw [block, header.writable_none, if_neg Bool.false_ne_true]
          unfold evPagefault
          cases given : answers.allocMem vm2.calls 1 vm2.free with
          | none =>
              dsimp only
              refine (pbUnreferenced_unplaced ?_ ?_).bind fun vm3 kept => kept
              · exact congrArg PhysBlock.phys block
              · exact owned_congr (holding_congr rfl rfl rfl rfl) owned2
          | some click =>
              have free := answers.allocMem_free _ _ _ _ given 0 Nat.one_pos
              refine mapPhWritept_owned answers ?_ r _
              refine owned_congr ?_ (filled_owned free Nat.one_pos none owned2)
              exact holding_congr rfl (by simp [State.setBlock, State.called, block]) rfl rfl
        · rw [if_neg second]
          exact owned_congr ((holding_congr rfl rfl rfl rfl).trans made) owned
      · rw [if_neg first]
        exact owned_congr (holding_congr rfl rfl rfl rfl) owned

theorem parted_holding {r : Ptr} {i : Nat} {pb : Ptr} (shared : 1 < (vm.physBlock pb).refcount) :
    holding (vm.parted r i pb) = holding vm := by
  funext place
  cases place with
  | free => rfl
  | block other =>
      by_cases same : other = pb
      · subst same
        ext page
        simp only [holding, State.parted, State.setSlot, State.setBlock, Function.update_self]
        exact and_congr_left' (by omega)
      · simp [holding, State.parted, State.setSlot, State.setBlock, same]
  | yielded node => rfl

theorem Rewritten.owned {r : Ptr} {i : Nat} {pb : Ptr} (rewritten : Rewritten vm vm' r i pb)
    (fresh : Fresh vm) (owned : Owned memory vm) : Owned memory vm' := by
  rcases rewritten with ⟨calls, rfl⟩ | ⟨calls, shared, rfl⟩ | ⟨click, calls, shared, free, rfl⟩
  · exact owned
  · exact owned_congr (@parted_holding _ vm r i pb shared) owned
  · have parted : Owned memory (vm.parted r i pb) := owned_congr (parted_holding shared) owned
    have unused : holding (vm.parted r i pb) (.block vm.newBlock) = ∅ := by
      rw [parted_holding shared]
      exact holding_unused (fresh _ (Nat.le_refl _))
    refine owned_congr ?_ (@filled_owned _ (vm.parted r i pb) _ _ _ _ free Nat.one_pos unused parted)
    exact holding_congr rfl rfl rfl rfl

/-- The blocks that a copy shares were in use before. -/
theorem Copying.holding {dst src : Fin np} {copies : List Ptr} (orderly : Orderly header vm)
    (copying : Copying vm vm' dst (vm.vmproc src).vmRegionsAvl copies) (shares : Shares vm vm') :
    holding vm' = holding vm := by
  funext place
  cases place with
  | free => simp [Vm.holding, copying.free]
  | block pb =>
      ext page
      show 0 < _ ∧ _ ↔ 0 < _ ∧ _
      rw [copying.physBlock]
      refine and_congr_left' ⟨fun counted => ?_, fun counted => Nat.lt_of_lt_of_le counted
        (Nat.le_add_right _ _)⟩
      change 0 < (vm.physBlock pb).refcount +
        (procRefs vm (vm.vmproc src).vmRegionsAvl).count pb at counted
      rcases Nat.eq_zero_or_pos (vm.physBlock pb).refcount with none | positive
      · rw [none, Nat.zero_add] at counted
        obtain ⟨r, inTree, resident⟩ := List.mem_flatMap.mp (List.count_pos_iff.mp counted)
        exact ((orderly.layout src).mapped r inTree).counted pb resident
      · exact positive
  | yielded node => simp [Vm.holding, shares.vmYieldedBlocks, shares.yielded]

/-- A request to get a block comes to no page that is missing or cannot be copied, unless its
first page is missing. -/
def Life.Whole (header : Header np) (vm : State np) : Life np → Prop
  | .request (.exit _) => True
  | .request event => event.Whole header vm
  | _ => True

theorem request_owned (orderly : Orderly header vm) (owned : Owned memory vm) (event : Event np)
    (whole : (Life.request event).Whole header vm) :
    Ends (fun _ => True) (Owned memory) (step header vm event) := by
  by_cases stays : ∀ p, event ≠ .exit p
  · have whole' : event.Whole header vm := by
      cases event with
      | exit p => exact absurd rfl (stays p)
      | yieldblockGetblock | forgetblock | forgetblocks | freeYielded => exact whole
    exact (step_owned orderly.wellformed owned event whole').imp fun _ after => after.2
  · push Not at stays
    obtain ⟨p, rfl⟩ := stays
    unfold step
    dsimp only
    split
    · exact (mapFreeProc_owned orderly.wellformed owned).bind fun vm1 kept =>
        owned_congr (holding_congr rfl rfl rfl rfl) kept
    · exact owned

theorem happen_owned (orderly : Orderly header vm) (owned : Owned memory vm) (event : Life np)
    (permitted : event.Permitted header vm) (whole : event.Whole header vm) :
    Ends (fun _ => True) (Owned memory) (happen header vm event) := by
  have started : Orderly header (restart vm) := orderly.answered 0
  have owned0 : Owned memory (restart vm) := owned
  cases event with
  | begin p endpoint => exact owned_congr (holding_congr rfl rfl rfl rfl) owned
  | map answers p startv length flags memtype =>
      refine Ends.map ((mapRegion_joined answers (restart vm) p startv length flags memtype).imp
        fun result after => owned_congr ?_ owned0)
      obtain ⟨-, ⟨calls, same⟩ | ⟨joined, -⟩⟩ := after
      · rw [same]
        exact holding_congr rfl rfl rfl rfl
      · exact holding_congr joined.free joined.blocks.1 joined.vmYieldedBlocks joined.yielded
  | fault answers p vaddr =>
      unfold happen pagefault
      dsimp only
      cases found : regionAt (restart vm) p vaddr with
      | none => exact owned0
      | some r =>
          have blocks := started.wellformed.blocks
          dsimp only
          split
          · exact (mapPf_owned header answers blocks.fresh owned0 r _).map
          · rename_i ph resident
            exact ((mapPfResident_rewritten header answers blocks (blocks.slotIn found)
              resident).imp fun result rewritten => rewritten.owned blocks.fresh owned0).map
  | fork answers dst src =>
      obtain ⟨live, clear, unyielded, nonempty⟩ := permitted
      obtain ⟨code, vm', result, outcome⟩ :=
        mapProcCopy_ok header answers rfl (started.layout src) nonempty clear unyielded
      have shares := (mapProcCopy_shares header answers src
        (show ((restart vm).vmproc dst).vmYielded = 0 from unyielded)).of_eq result
      unfold happen
      dsimp only
      rw [result]
      rcases outcome with ⟨-, copies, copying⟩ | ⟨-, undone⟩
      · exact owned_congr (copying.holding started shares) owned0
      · exact owned_congr (holding_congr undone.free undone.physBlock shares.vmYieldedBlocks
          shares.yielded) owned0
  | request event => exact request_owned orderly owned event whole

/-- A server that has stopped does nothing more. -/
def live (header : Header np) (outcome : Except Stop (State np)) (event : Life np) :
    Except Stop (State np) :=
  outcome.bind fun vm => happen header vm event

/-- What holds of an event in a server that has not stopped. -/
def Living (property : State np → Life np → Prop) (outcome : Except Stop (State np))
    (event : Life np) : Prop :=
  ∀ vm, outcome = .ok vm → property vm event

instance Living.decidable (property : State np → Life np → Prop)
    [∀ vm event, Decidable (property vm event)] :
    (outcome : Except Stop (State np)) → (event : Life np) →
      Decidable (Living property outcome event)
  | .error _, _ => .isTrue fun _ same => nomatch same
  | .ok vm, event => decidable_of_iff (property vm event)
      ⟨fun holds _ same => Except.ok.inj same ▸ holds, fun all => all vm rfl⟩

theorem run_orderly (orderly : Orderly header vm) (events : List (Life np))
    (permitted : Runs.EveryStep (live header) (Living fun vm event => event.Permitted header vm)
      (.ok vm) events) :
    Ends (fun _ => True) (Orderly header) (Runs.run (live header) (.ok vm) events) := by
  refine Runs.run_invariant (Ends (fun _ : Stop => True) (Orderly header))
    (fun outcome event before allowed => ?_) orderly permitted
  cases outcome with
  | error stop => trivial
  | ok vm => exact happen_orderly before event (allowed vm rfl)

theorem run_owned (orderly : Orderly header vm) (owned : Owned memory vm) (events : List (Life np))
    (permitted : Runs.EveryStep (live header) (Living fun vm event => event.Permitted header vm)
      (.ok vm) events)
    (whole : Runs.EveryStep (live header) (Living fun vm event => event.Whole header vm)
      (.ok vm) events) :
    Ends (fun _ => True) (fun vm' => Orderly header vm' ∧ Owned memory vm')
      (Runs.run (live header) (.ok vm) events) := by
  refine Runs.run_invariant (Ends (fun _ : Stop => True)
    fun vm => Orderly header vm ∧ Owned memory vm)
    (fun outcome event before allowed => ?_) ⟨orderly, owned⟩
    (Runs.everyStep_and.mpr ⟨permitted, whole⟩)
  cases outcome with
  | error stop => trivial
  | ok vm =>
      have now := allowed.1 vm rfl
      exact ((happen_orderly before.1 event now).and
        (happen_owned before.1 before.2 event now (allowed.2 vm rfl))).stop fun _ _ => trivial

end Ve482.Vm
