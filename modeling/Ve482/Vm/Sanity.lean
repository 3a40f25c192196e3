import Ve482.Vm.Extend
import Ve482.Vm.Leaks

set_option autoImplicit false

namespace Ve482.Vm

open Function (update)
open Fallible (Ends)
open Chain (Path Linked Paired linked_iff_paired)

variable {np : Nat} {header : Header np} {vm vm' : State np} {order : List Ptr}
  {memory : Set Nat} {σ : Type}

/-- Where a check fails: in the list of yielded blocks, in a region, or in what it calls. -/
inductive Unsound where
  | lrucheck
  | mapSanitycheck
  | stopped (stop : Stop)

def myassert (condition : Prop) [Decidable condition] (place : Unsound) : Except Unsound Unit :=
  if condition then .ok () else .error place

/-- `if(list->younger) … else …`, and the same of `list->older`. -/
def lruNeighbour (neighbour : Option Ptr) (back : Ptr → Option Ptr) (last : Option Ptr)
    (list : Ptr) : Except Unsound Unit :=
  match neighbour with
  | some other => myassert (back other = some list) .lrucheck
  | none => myassert (last = some list) .lrucheck

/-- The loop of `lrucheck`. -/
def lruLoop (vm : State np) : Nat → Option Ptr → Except Unsound Unit
  | _, none => .ok ()
  | 0, some _ => .error (.stopped .endless)
  | fuel + 1, some list => do
      lruNeighbour (vm.yielded list).younger (fun node => (vm.yielded node).older) vm.lruYoungest list
      lruNeighbour (vm.yielded list).older (fun node => (vm.yielded node).younger) vm.lruOldest list
      lruLoop vm fuel (vm.yielded list).older

/-- No more nodes are in the list than were ever allocated. -/
def lrucheck (vm : State np) : Except Unsound Unit :=
  match vm.lruYoungest, vm.lruOldest with
  | none, none => .ok ()
  | some youngest, some oldest => do
      myassert ((vm.yielded youngest).younger = none) .lrucheck
      myassert ((vm.yielded oldest).older = none) .lrucheck
      lruLoop vm vm.newYielded vm.lruYoungest
  | _, _ => .error .lrucheck

/-- The number of times that a loop over the offsets of a region is run. -/
def VirRegion.slots (region : VirRegion np) : Nat := (region.length + vmPageSize - 1) / vmPageSize

/-- The body of the inner loop of `ALLREGIONS`. -/
def allSlot (region : VirRegion np) (physcode : Nat → PhysRegion → σ → Except Unsound σ)
    (state : σ) (i : Nat) : Except Unsound σ := do
  let voffset := i * vmPageSize
  match ← (physblockGet region voffset).mapError .stopped with
  | none => return state
  | some pr => physcode voffset pr state

def allSlots (region : VirRegion np) (physcode : Nat → PhysRegion → σ → Except Unsound σ)
    (state : σ) : Except Unsound σ :=
  (List.range region.slots).foldlM (allSlot region physcode) state

/-- `ALLREGIONS` -/
def allregions (vm : State np) (regioncode : Ptr → Except Unsound Unit)
    (physcode : Ptr → Nat → PhysRegion → σ → Except Unsound σ) (state : σ) : Except Unsound σ :=
  (liveRegions vm).foldlM (fun state vr => do
    regioncode vr
    allSlots (vm.virRegion vr) (physcode vr) state) state

/-- The first part of the consistency check of a region. -/
def regionCheck (vm : State np) (vr : Ptr) : Except Unsound Unit := do
  let region := vm.virRegion vr
  match ← (getnextvr vm vr).mapError .stopped with
  | none => pure ()
  | some nextvr =>
      myassert (region.vaddr < (vm.virRegion nextvr).vaddr) .mapSanitycheck
      myassert (vbAdd region.vaddr region.length ≤ (vm.virRegion nextvr).vaddr) .mapSanitycheck
  myassert (region.vaddr % vmPageSize = 0) .mapSanitycheck

/-- What pb.c keeps: the address of the `phys_region` in each slot of a region, the region and the
block that a `phys_region` names, and the list of those that refer to a block. -/
structure PhysRegions where
  physblocks : Ptr → Nat → Ptr
  parent : Ptr → Ptr
  ph : Ptr → Ptr
  firstregion : Ptr → Option Ptr
  nextPhList : Ptr → Option Ptr
  newPhysRegion : Ptr

/-- `for(others = pr->ph->firstregion; others; others = others->next_ph_list)`, over no more
`phys_region`s than were ever allocated. -/
def othersLoop (phs : PhysRegions) (pb : Ptr) : Nat → Option Ptr → Nat → Except Unsound Nat
  | _, none, nOthers => .ok nOthers
  | 0, some _, _ => .error (.stopped .endless)
  | fuel + 1, some others, nOthers => do
      myassert (phs.ph others = pb) .mapSanitycheck
      othersLoop phs pb fuel (phs.nextPhList others) (nOthers + 1)

/-- The consistency check of the `phys_region`s that refer to the block of one of them. -/
def othersCheck (phs : PhysRegions) (block : PhysBlock) (pb pr : Ptr) : Except Unsound Unit := do
  if 0 < block.refcount then
    myassert (phs.firstregion pb ≠ none) .mapSanitycheck
    myassert (block.refcount = 1 → phs.firstregion pb = some pr) .mapSanitycheck
  else myassert (phs.firstregion pb = none) .mapSanitycheck
  let nOthers ← othersLoop phs pb phs.newPhysRegion (phs.firstregion pb) 0
  myassert (block.refcount = nOthers) .mapSanitycheck

/-- The counts that an earlier check has left are set to zero first. -/
def mapSanitycheck (vm : State np) (phs : PhysRegions) (seencount : Ptr → Nat) :
    Except Unsound Unit := do
  lrucheck vm
  allregions vm (fun _ => .ok ()) (fun vr voffset _ _ =>
    myassert (phs.parent (phs.physblocks vr (voffset / vmPageSize)) = vr) .mapSanitycheck) ()
  let seencount ← allregions vm (fun _ => .ok ())
    (fun _ _ pr seencount => .ok (update seencount pr.ph 0)) seencount
  allregions vm (fun _ => .ok ())
    (fun _ voffset pr _ => myassert (pr.offset = voffset) .mapSanitycheck) ()
  let seencount ← allregions vm (fun _ => .ok ())
    (fun _ _ pr seencount => .ok (update seencount pr.ph (seencount pr.ph + 1))) seencount
  allregions vm (regionCheck vm) (fun vr voffset pr _ => do
    let block := vm.physBlock pr.ph
    othersCheck phs block pr.ph (phs.physblocks vr (voffset / vmPageSize))
    myassert (block.refcount = seencount pr.ph) .mapSanitycheck
    myassert (pr.offset % vmPageSize = 0) .mapSanitycheck) ()

/-! What the checks find. -/

theorem myassert_ok {condition : Prop} [Decidable condition] {place : Unsound} :
    myassert condition place = .ok () ↔ condition := by
  unfold myassert
  split
  · rename_i holds
    exact iff_of_true rfl holds
  · rename_i fails
    exact iff_of_false nofun fails

/-- A check and what comes after it pass if both do. -/
theorem check_bind {β : Type} {check : Except Unsound Unit} {rest : Unit → Except Unsound β}
    {value : β} : (check >>= rest) = .ok value ↔ check = .ok () ∧ rest () = .ok value := by
  cases check with
  | error place => exact iff_of_false nofun fun both => nomatch both.1
  | ok _ => exact (and_iff_right rfl).symm

theorem lruNeighbour_ok {neighbour last : Option Ptr} {back : Ptr → Option Ptr} {list : Ptr} :
    lruNeighbour neighbour back last list = .ok () ↔
      (∀ other, neighbour = some other → back other = some list) ∧
        (neighbour = none → last = some list) := by
  cases neighbour with
  | none => exact myassert_ok.trans ⟨fun same => ⟨nofun, fun _ => same⟩, fun both => both.2 rfl⟩
  | some next =>
      refine myassert_ok.trans ⟨fun same => ⟨fun other found => ?_, nofun⟩, fun both => both.1 _ rfl⟩
      exact Option.some.inj found ▸ same

/-- The two lists that run through the yielded blocks. -/
abbrev lruPaired (vm : State np) (node : Ptr) : Prop :=
  Paired (fun node => (vm.yielded node).older) (fun node => (vm.yielded node).younger)
    vm.lruYoungest vm.lruOldest node

theorem lruLoop_ok {fuel : Nat} {head : Option Ptr} : lruLoop vm fuel head = .ok () ↔
    ∃ nodes, Path (fun node => (vm.yielded node).older) head nodes none ∧ nodes.length ≤ fuel ∧
      ∀ node ∈ nodes, lruPaired vm node := by
  induction fuel generalizing head with
  | zero =>
      cases head with
      | none => exact iff_of_true rfl ⟨[], rfl, Nat.le_refl _, fun _ member => nomatch member⟩
      | some list =>
          refine iff_of_false nofun ?_
          rintro ⟨nodes, path, short, -⟩
          rw [List.length_eq_zero_iff.mp (Nat.le_zero.mp short)] at path
          cases path
  | succ fuel ih =>
      cases head with
      | none =>
          exact iff_of_true rfl ⟨[], rfl, Nat.zero_le _, fun _ member => nomatch member⟩
      | some list =>
          rw [lruLoop, check_bind, check_bind, lruNeighbour_ok, lruNeighbour_ok, ih]
          constructor
          · rintro ⟨⟨before, first⟩, ⟨after, last⟩, nodes, path, short, rest⟩
            exact ⟨list :: nodes, ⟨rfl, path⟩, Nat.succ_le_succ short,
              List.forall_mem_cons.mpr ⟨⟨before, first, after, last⟩, rest⟩⟩
          · rintro ⟨nodes, path, short, paired⟩
            cases nodes with
            | nil => cases path
            | cons node nodes =>
                obtain rfl := Option.some.inj path.1
                obtain ⟨⟨before, first, after, last⟩, rest⟩ := List.forall_mem_cons.mp paired
                exact ⟨⟨before, first⟩, ⟨after, last⟩, nodes, path.2,
                  Nat.le_of_succ_le_succ short, rest⟩

/-- The check of the list of yielded blocks passes if and only if it is linked both ways. -/
theorem lrucheck_ok : lrucheck vm = .ok () ↔ ∃ order, order.length ≤ vm.newYielded ∧
    Linked (fun node => (vm.yielded node).older) (fun node => (vm.yielded node).younger)
      vm.lruYoungest vm.lruOldest order := by
  unfold lrucheck
  cases young : vm.lruYoungest with
  | none =>
      cases old : vm.lruOldest with
      | none => exact iff_of_true rfl ⟨[], Nat.zero_le _, rfl, rfl⟩
      | some oldest =>
          refine iff_of_false nofun ?_
          rintro ⟨order, -, forward, backward⟩
          cases order with
          | nil => cases backward
          | cons node order => cases forward.1
  | some youngest =>
      cases old : vm.lruOldest with
      | none =>
          refine iff_of_false nofun ?_
          rintro ⟨order, -, forward, backward⟩
          cases order with
          | nil => cases forward
          | cons node order =>
              have last := backward.head_eq
              rw [List.head?_reverse, List.getLast?_cons] at last
              cases last
      | some oldest =>
          dsimp only
          rw [check_bind, check_bind, myassert_ok, myassert_ok, lruLoop_ok]
          unfold lruPaired
          rw [young, old]
          constructor
          · rintro ⟨first, -, nodes, path, short, paired⟩
            exact ⟨nodes, short, linked_iff_paired.mpr ⟨path, first, paired⟩⟩
          · rintro ⟨nodes, short, linked⟩
            obtain ⟨path, first, paired⟩ := linked_iff_paired.mp linked
            have last := (linked_iff_paired.mp linked.flip).2.1
            exact ⟨first, last, nodes, path, short, paired⟩

/-- What a loop finds in a slot: the offset at which it comes to it, and what is there. -/
def VirRegion.entry (region : VirRegion np) (i : Nat) : Option (Nat × PhysRegion) :=
  (region.physblocks i).map fun pr => (i * vmPageSize, pr)

def VirRegion.present (region : VirRegion np) : List (Nat × PhysRegion) :=
  (List.range region.slots).filterMap region.entry

/-- The slots know their offsets. -/
def VirRegion.Offset (region : VirRegion np) : Prop :=
  ∀ entry ∈ region.present, entry.2.offset = entry.1

/-- The slots of the regions of the processes in use. -/
def entries (vm : State np) : List (Ptr × Nat × PhysRegion) :=
  (liveRegions vm).flatMap fun r => (vm.virRegion r).present.map (r, ·)

theorem mem_entries {r : Ptr} {entry : Nat × PhysRegion} :
    (r, entry) ∈ entries vm ↔ r ∈ liveRegions vm ∧ entry ∈ (vm.virRegion r).present := by
  unfold entries
  rw [List.mem_flatMap]
  constructor
  · rintro ⟨r', member, inside⟩
    obtain ⟨entry', present, same⟩ := List.mem_map.mp inside
    obtain ⟨rfl, rfl⟩ := Prod.mk.inj same
    exact ⟨member, present⟩
  · rintro ⟨member, present⟩
    exact ⟨r, member, List.mem_map_of_mem present⟩

section

variable {region : VirRegion np} {physcode : Nat → PhysRegion → σ → Except Unsound σ}

theorem VirRegion.slots_lt {i : Nat} : i < region.slots ↔ i * vmPageSize < region.length := by
  unfold VirRegion.slots vmPageSize
  omega

theorem physblockGet_there {i : Nat} (inside : i < region.slots)
    (offset : ∀ entry ∈ region.entry i, entry.2.offset = entry.1) :
    physblockGet region (i * vmPageSize) = .ok (region.physblocks i) := by
  unfold physblockGet
  rw [assert_true _ (offset_slot i).2, assert_true _ (VirRegion.slots_lt.mp inside),
    (offset_slot i).1]
  unfold VirRegion.entry at offset
  cases there : region.physblocks i with
  | none => rfl
  | some pr =>
      rw [there] at offset
      exact assert_true _ (offset _ rfl)

/-- The body of the loop does what it is to do if the slot knows its offset, and stops if not. -/
theorem allSlot_eq {i : Nat} (inside : i < region.slots)
    (offset : ∀ entry ∈ region.entry i, entry.2.offset = entry.1) (state : σ) :
    allSlot region physcode state i = match region.entry i with
      | some entry => physcode entry.1 entry.2 state
      | none => .ok state := by
  unfold allSlot
  dsimp only
  rw [physblockGet_there inside offset]
  unfold VirRegion.entry
  cases region.physblocks i with
  | none => rfl
  | some pr => rfl

theorem allSlot_offset {i : Nat} {state state' : σ}
    (passed : allSlot region physcode state i = .ok state') :
    ∀ entry ∈ region.entry i, entry.2.offset = entry.1 := by
  unfold allSlot at passed
  dsimp only at passed
  intro entry found
  obtain ⟨pr, there, rfl⟩ := Option.map_eq_some_iff.mp found
  have slot := physblockGet_slot region (i * vmPageSize)
  cases got : physblockGet region (i * vmPageSize) with
  | error stop =>
      rw [got] at passed
      cases passed
  | ok result =>
      obtain ⟨-, -, same, offset⟩ := slot.of_eq got
      rw [(offset_slot i).1] at same
      exact offset pr (same.trans there)

/-- A loop over slots is one over what is there, as long as the slots know their offsets. -/
theorem slots_present {slots : List Nat} (inside : ∀ i ∈ slots, i < region.slots)
    (offset : ∀ i ∈ slots, ∀ entry ∈ region.entry i, entry.2.offset = entry.1) (state : σ) :
    slots.foldlM (allSlot region physcode) state = (slots.filterMap region.entry).foldlM
      (fun state entry => physcode entry.1 entry.2 state) state := by
  rw [List.foldlM_filterMap]
  induction slots generalizing state with
  | nil => rfl
  | cons i slots ih =>
      rw [List.foldlM_cons, List.foldlM_cons, allSlot_eq (inside i List.mem_cons_self)
        (offset i List.mem_cons_self)]
      refine congrArg₂ (· >>= ·) ?_ (funext fun next => ?_)
      · cases region.entry i <;> rfl
      · exact ih (fun j member => inside j (List.mem_cons_of_mem i member))
          (fun j member => offset j (List.mem_cons_of_mem i member)) next

theorem allSlots_present (offset : region.Offset) (state : σ) :
    allSlots region physcode state =
      region.present.foldlM (fun state entry => physcode entry.1 entry.2 state) state := by
  refine slots_present (fun i member => List.mem_range.mp member) (fun i member entry found => ?_) _
  exact offset entry (List.mem_filterMap.mpr ⟨i, member, found⟩)

theorem allSlots_offset {state state' : σ}
    (passed : allSlots region physcode state = .ok state') : region.Offset := by
  intro entry member
  obtain ⟨i, inside, found⟩ := List.mem_filterMap.mp member
  unfold allSlots at passed
  revert inside passed
  generalize List.range region.slots = slots
  intro passed inside
  induction slots generalizing state with
  | nil => cases inside
  | cons j slots ih =>
      rw [List.foldlM_cons] at passed
      cases first : allSlot region physcode state j with
      | error stop =>
          rw [first] at passed
          cases passed
      | ok middle =>
          rw [first] at passed
          rcases List.mem_cons.mp inside with rfl | later
          · exact allSlot_offset first entry found
          · exact ih passed later

/-- A loop that only checks passes if and only if each of its rounds does. -/
theorem checks_ok {ι : Type} {check : ι → Except Unsound Unit} {items : List ι} :
    items.foldlM (fun _ item => check item) () = .ok () ↔ ∀ item ∈ items, check item = .ok () := by
  induction items with
  | nil => exact iff_of_true rfl fun _ member => nomatch member
  | cons item items ih => rw [List.foldlM_cons, check_bind, ih, List.forall_mem_cons]

theorem allregions_offset {regioncode : Ptr → Except Unsound Unit}
    {physcode : Ptr → Nat → PhysRegion → σ → Except Unsound σ} {state state' : σ}
    (passed : allregions vm regioncode physcode state = .ok state') :
    ∀ r ∈ liveRegions vm, (vm.virRegion r).Offset := by
  unfold allregions at passed
  generalize liveRegions vm = regions at passed
  induction regions generalizing state with
  | nil => exact fun _ member => nomatch member
  | cons r regions ih =>
      rw [List.foldlM_cons, bind_assoc, check_bind] at passed
      obtain ⟨-, passed⟩ := passed
      cases first : allSlots (vm.virRegion r) (physcode r) state with
      | error place =>
          rw [first] at passed
          cases passed
      | ok middle =>
          rw [first] at passed
          exact List.forall_mem_cons.mpr ⟨allSlots_offset first, ih passed⟩

theorem allregions_entries {physcode : Ptr → Nat → PhysRegion → σ → Except Unsound σ}
    (offset : ∀ r ∈ liveRegions vm, (vm.virRegion r).Offset) (state : σ) :
    allregions vm (fun _ => .ok ()) physcode state = (entries vm).foldlM
      (fun state entry => physcode entry.1 entry.2.1 entry.2.2 state) state := by
  unfold allregions entries
  generalize liveRegions vm = regions at offset
  induction regions generalizing state with
  | nil => rfl
  | cons r regions ih =>
      rw [List.forall_mem_cons] at offset
      rw [List.foldlM_cons, List.flatMap_cons, List.foldlM_append, List.foldlM_map]
      refine congrArg₂ (· >>= ·) (allSlots_present offset.1 state) (funext fun next => ?_)
      exact ih next offset.2

theorem allregions_update (offset : ∀ r ∈ liveRegions vm, (vm.virRegion r).Offset)
    (next : σ → PhysRegion → σ) (state : σ) :
    allregions vm (fun _ => .ok ()) (fun _ _ pr state => .ok (next state pr)) state =
      .ok ((entries vm).foldl (fun state entry => next state entry.2.2) state) :=
  (allregions_entries offset state).trans List.foldlM_pure

theorem allregions_checks {regioncode : Ptr → Except Unsound Unit}
    {check : Ptr → Nat → PhysRegion → Except Unsound Unit}
    (offset : ∀ r ∈ liveRegions vm, (vm.virRegion r).Offset) :
    allregions vm regioncode (fun vr voffset pr _ => check vr voffset pr) () = .ok () ↔
      (∀ r ∈ liveRegions vm, regioncode r = .ok ()) ∧
        ∀ entry ∈ entries vm, check entry.1 entry.2.1 entry.2.2 = .ok () := by
  have each : ∀ r ∈ liveRegions vm, (do
      regioncode r
      allSlots (vm.virRegion r) (fun voffset pr _ => check r voffset pr) ()) = .ok () ↔
        regioncode r = .ok () ∧ ∀ entry ∈ (vm.virRegion r).present,
          check r entry.1 entry.2 = .ok () := by
    intro r member
    rw [check_bind, allSlots_present (offset r member), checks_ok]
  refine checks_ok.trans ((forall₂_congr each).trans ?_)
  rw [forall₂_and]
  refine and_congr_right' ⟨fun all entry member => ?_, fun all r member entry inside => ?_⟩
  · obtain ⟨inRegions, present⟩ := mem_entries.mp member
    exact all entry.1 inRegions entry.2 present
  · exact all (r, entry) (mem_entries.mpr ⟨member, inside⟩)

end

theorem seencount_zero (slots : List (Ptr × Nat × PhysRegion)) (seencount : Ptr → Nat) {pb : Ptr}
    (member : pb ∈ slots.map fun entry => entry.2.2.ph) :
    slots.foldl (fun seencount entry => update seencount entry.2.2.ph 0) seencount pb = 0 := by
  induction slots using List.reverseRecOn with
  | nil => cases member
  | append_singleton slots entry ih =>
      rw [List.foldl_append, List.foldl_cons, List.foldl_nil]
      by_cases here : pb = entry.2.2.ph
      · rw [here, Function.update_self]
      · rw [Function.update_of_ne here]
        rw [List.map_append, List.mem_append, List.map_singleton, List.mem_singleton] at member
        exact ih (member.resolve_right here)

theorem seencount_add (slots : List (Ptr × Nat × PhysRegion)) (seencount : Ptr → Nat) (pb : Ptr) :
    slots.foldl (fun seencount entry => update seencount entry.2.2.ph (seencount entry.2.2.ph + 1))
      seencount pb = seencount pb + (slots.map fun entry => entry.2.2.ph).count pb := by
  induction slots using List.reverseRecOn with
  | nil => rfl
  | append_singleton slots entry ih =>
      rw [List.foldl_append, List.foldl_cons, List.foldl_nil, List.map_append, List.count_append,
        List.map_singleton]
      by_cases here : pb = entry.2.2.ph
      · subst here
        rw [Function.update_self, ih, List.count_singleton_self, Nat.add_assoc]
      · rw [Function.update_of_ne here, ih, List.count_singleton,
          beq_eq_false_iff_ne.mpr (Ne.symm here)]
        rfl

theorem othersLoop_ok {phs : PhysRegions} {pb : Ptr} {fuel : Nat} {head : Option Ptr}
    {nOthers total : Nat} : othersLoop phs pb fuel head nOthers = .ok total ↔
      ∃ nodes, Path phs.nextPhList head nodes none ∧ nodes.length ≤ fuel ∧
        (∀ node ∈ nodes, phs.ph node = pb) ∧ total = nOthers + nodes.length := by
  induction fuel generalizing head nOthers with
  | zero =>
      cases head with
      | none =>
          refine ⟨fun same => ⟨[], rfl, Nat.le_refl _, nofun, (Except.ok.inj same).symm⟩, ?_⟩
          rintro ⟨nodes, -, short, -, rfl⟩
          rw [Nat.le_zero.mp short]
          rfl
      | some others =>
          refine iff_of_false nofun ?_
          rintro ⟨nodes, path, short, -⟩
          rw [List.length_eq_zero_iff.mp (Nat.le_zero.mp short)] at path
          cases path
  | succ fuel ih =>
      cases head with
      | none =>
          refine ⟨fun same => ⟨[], rfl, Nat.zero_le _, nofun, (Except.ok.inj same).symm⟩, ?_⟩
          rintro ⟨nodes, path, -, -, rfl⟩
          cases nodes with
          | nil => rfl
          | cons node nodes => cases path.1
      | some others =>
          rw [othersLoop, check_bind, myassert_ok, ih]
          constructor
          · rintro ⟨own, nodes, path, short, rest, rfl⟩
            exact ⟨others :: nodes, ⟨rfl, path⟩, Nat.succ_le_succ short,
              List.forall_mem_cons.mpr ⟨own, rest⟩, by rw [List.length_cons]; omega⟩
          · rintro ⟨nodes, path, short, all, rfl⟩
            cases nodes with
            | nil => cases path
            | cons node nodes =>
                obtain rfl := Option.some.inj path.1
                obtain ⟨own, rest⟩ := List.forall_mem_cons.mp all
                exact ⟨own, nodes, path.2, Nat.le_of_succ_le_succ short, rest,
                  by rw [List.length_cons]; omega⟩

/-- What the check finds of a server that it passes. -/
structure Sane (vm : State np) (phs : PhysRegions) : Prop where
  listed : ∃ order, order.length ≤ vm.newYielded ∧
    Linked (fun node => (vm.yielded node).older) (fun node => (vm.yielded node).younger)
      vm.lruYoungest vm.lruOldest order
  offset : ∀ r ∈ liveRegions vm, (vm.virRegion r).Offset
  placed : ∀ r ∈ liveRegions vm, regionCheck vm r = .ok ()
  counted : ∀ entry ∈ entries vm, (vm.physBlock entry.2.2.ph).refcount =
    ((entries vm).map fun entry => entry.2.2.ph).count entry.2.2.ph
  parent : ∀ entry ∈ entries vm,
    phs.parent (phs.physblocks entry.1 (entry.2.1 / vmPageSize)) = entry.1
  others : ∀ entry ∈ entries vm, othersCheck phs (vm.physBlock entry.2.2.ph) entry.2.2.ph
    (phs.physblocks entry.1 (entry.2.1 / vmPageSize)) = .ok ()

theorem mapSanitycheck_ok {phs : PhysRegions} {seencount : Ptr → Nat} :
    mapSanitycheck vm phs seencount = .ok () ↔ Sane vm phs := by
  unfold mapSanitycheck
  rw [check_bind, lrucheck_ok, check_bind]
  by_cases offset : ∀ r ∈ liveRegions vm, (vm.virRegion r).Offset
  · generalize zeroed : (entries vm).foldl (fun seencount entry => update seencount entry.2.2.ph 0)
      seencount = zero
    have seen : ∀ entry ∈ entries vm, (entries vm).foldl (fun seencount entry =>
        update seencount entry.2.2.ph (seencount entry.2.2.ph + 1)) zero entry.2.2.ph =
        ((entries vm).map fun entry => entry.2.2.ph).count entry.2.2.ph := by
      intro entry member
      rw [seencount_add, ← zeroed, seencount_zero _ _ (List.mem_map_of_mem member), Nat.zero_add]
    rw [allregions_checks offset,
      allregions_update offset fun seencount pr => update seencount pr.ph 0, zeroed]
    show _ ∧ _ ∧ (allregions vm _ _ () >>= _) = _ ↔ _
    rw [check_bind, allregions_checks offset,
      allregions_update offset fun seencount pr => update seencount pr.ph (seencount pr.ph + 1)]
    show _ ∧ _ ∧ _ ∧ allregions vm _ _ () = _ ↔ _
    rw [allregions_checks offset]
    constructor
    · rintro ⟨listed, ⟨-, parent⟩, -, placed, checked⟩
      refine ⟨listed, offset, placed, fun entry member => ?_, fun entry member =>
        myassert_ok.mp (parent entry member), fun entry member => ?_⟩
      · have counted := (check_bind.mp (check_bind.mp (checked entry member)).2).1
        rw [← seen entry member]
        exact myassert_ok.mp counted
      · exact (check_bind.mp (checked entry member)).1
    · rintro ⟨listed, -, placed, counted, parent, others⟩
      refine ⟨listed, ⟨fun _ _ => rfl, fun entry member => myassert_ok.mpr (parent entry member)⟩,
        ⟨fun _ _ => rfl, fun entry member => ?_⟩, placed, fun entry member => ?_⟩
      · obtain ⟨inRegions, present⟩ := mem_entries.mp member
        exact myassert_ok.mpr (offset entry.1 inRegions entry.2 present)
      · obtain ⟨inRegions, present⟩ := mem_entries.mp member
        obtain ⟨i, -, found⟩ := List.mem_filterMap.mp present
        obtain ⟨pr, -, same⟩ := Option.map_eq_some_iff.mp found
        refine check_bind.mpr ⟨others entry member, check_bind.mpr
          ⟨myassert_ok.mpr ?_, myassert_ok.mpr ?_⟩⟩
        · rw [seen entry member]
          exact counted entry member
        · rw [offset entry.1 inRegions entry.2 present, ← same]
          exact (offset_slot i).2
  · refine iff_of_false ?_ fun sane => offset sane.offset
    rintro ⟨-, passed, -⟩
    exact offset (allregions_offset passed)

theorem VirRegion.Sound.slots {region : VirRegion np} (sound : region.Sound) :
    region.slots = region.length / vmPageSize := by
  have aligned := sound.aligned
  unfold VirRegion.slots
  unfold vmPageSize at aligned ⊢
  omega

theorem VirRegion.Sound.offset {region : VirRegion np} (sound : region.Sound) :
    region.Offset := by
  intro entry member
  obtain ⟨i, inside, found⟩ := List.mem_filterMap.mp member
  obtain ⟨pr, there, rfl⟩ := Option.map_eq_some_iff.mp found
  rw [sound.slots, List.mem_range] at inside
  exact sound.offsets i pr inside there

theorem VirRegion.Sound.present_refs {region : VirRegion np} (sound : region.Sound) :
    (region.present.map fun entry => entry.2.ph) = region.allRefs := by
  unfold VirRegion.present VirRegion.allRefs VirRegion.refs
  rw [sound.slots, List.map_filterMap, List.range_eq_range']
  refine List.filterMap_congr fun i _ => ?_
  unfold VirRegion.entry
  rw [Option.map_map]
  rfl

theorem Layout.getnextvr_ok {p : Fin np} {before rest : List Ptr} {r : Ptr}
    (layout : Layout vm p (vm.vmproc p).vmRegionsAvl)
    (split : (vm.vmproc p).vmRegionsAvl = before ++ r :: rest) :
    getnextvr vm r = .ok rest.head? := by
  have inTree : ∀ other ∈ before ++ r :: rest, Mapped vm p other := by
    intro other member
    exact layout.mapped other (split ▸ member)
  have apart := layout.apart
  rw [split] at apart
  obtain ⟨-, after, across⟩ := List.pairwise_append.mp apart
  have from' : (before ++ r :: rest).dropWhile (fun other =>
      (vm.virRegion other).vaddr ≠ (vm.virRegion r).vaddr) = r :: rest := by
    rw [List.dropWhile_append_of_pos, List.dropWhile_cons_of_neg]
    · simp
    · intro other inBefore
      have ends := across other inBefore r List.mem_cons_self
      have positive := (inTree other (List.mem_append_left _ inBefore)).positive
      simpa using show (vm.virRegion other).vaddr ≠ (vm.virRegion r).vaddr by omega
  have own := inTree r (by simp)
  unfold getnextvr
  dsimp only
  rw [own.parent, split, from', assert_true _ (List.cons_ne_nil _ _),
    assert_true _ (List.head?_cons : (r :: rest).head? = some r), List.tail_cons]
  cases rest with
  | nil => rfl
  | cons next rest =>
      have later := (List.pairwise_cons.mp after).1 next List.mem_cons_self
      have sum : vbAdd (vm.virRegion r).vaddr (vm.virRegion r).length ≤
          (vm.virRegion next).vaddr := (Nat.mod_le _ _).trans later
      have positive := own.positive
      rw [List.head?_cons]
      dsimp only
      rw [assert_true _ (inTree next (by simp)).parent.symm, assert_true _ (by omega),
        assert_true _ sum]
      rfl

theorem Layout.regionCheck_ok {p : Fin np} {r : Ptr}
    (layout : Layout vm p (vm.vmproc p).vmRegionsAvl)
    (member : r ∈ (vm.vmproc p).vmRegionsAvl) : regionCheck vm r = .ok () := by
  obtain ⟨before, rest, split⟩ := List.append_of_mem member
  have own := layout.mapped r member
  unfold regionCheck
  rw [layout.getnextvr_ok split]
  cases rest with
  | nil => exact myassert_ok.mpr own.aligned
  | cons next rest =>
      have apart := layout.apart
      rw [split] at apart
      have later := (List.pairwise_cons.mp (List.pairwise_append.mp apart).2.1).1 next
        List.mem_cons_self
      have positive := own.positive
      have below : (vm.virRegion r).vaddr < (vm.virRegion next).vaddr := by omega
      exact check_bind.mpr ⟨myassert_ok.mpr below, check_bind.mpr
        ⟨myassert_ok.mpr ((Nat.mod_le _ _).trans later), myassert_ok.mpr own.aligned⟩⟩

/-- The `phys_region`s in the slots that refer to a block. -/
def referrers (vm : State np) (phs : PhysRegions) (pb : Ptr) : List Ptr :=
  ((entries vm).filter fun entry => entry.2.2.ph = pb).map fun entry =>
    phs.physblocks entry.1 (entry.2.1 / vmPageSize)

/-- pb.c has kept the `phys_region` of each slot, which names its region and its block, and lists
those that refer to a block, each once. -/
structure PhysRegions.Kept (phs : PhysRegions) (vm : State np) : Prop where
  known : ∀ entry ∈ entries vm,
    phs.physblocks entry.1 (entry.2.1 / vmPageSize) < phs.newPhysRegion
  parent : ∀ entry ∈ entries vm,
    phs.parent (phs.physblocks entry.1 (entry.2.1 / vmPageSize)) = entry.1
  ph : ∀ entry ∈ entries vm,
    phs.ph (phs.physblocks entry.1 (entry.2.1 / vmPageSize)) = entry.2.2.ph
  listed : ∀ entry ∈ entries vm, ∃ nodes,
    Path phs.nextPhList (phs.firstregion entry.2.2.ph) nodes none ∧
      nodes.Perm (referrers vm phs entry.2.2.ph)

theorem length_referrers (vm : State np) (phs : PhysRegions) (pb : Ptr) :
    (referrers vm phs pb).length = ((entries vm).map fun entry => entry.2.2.ph).count pb := by
  unfold referrers
  rw [List.length_map, List.count, List.countP_map, List.countP_eq_length_filter]
  rfl

/-- The list of a block has as many `phys_region`s as the block counts. -/
theorem PhysRegions.Kept.others {phs : PhysRegions} (kept : phs.Kept vm)
    {entry : Ptr × Nat × PhysRegion} (member : entry ∈ entries vm)
    (counted : (vm.physBlock entry.2.2.ph).refcount =
      ((entries vm).map fun entry => entry.2.2.ph).count entry.2.2.ph) :
    othersCheck phs (vm.physBlock entry.2.2.ph) entry.2.2.ph
      (phs.physblocks entry.1 (entry.2.1 / vmPageSize)) = .ok () := by
  obtain ⟨nodes, path, perm⟩ := kept.listed entry member
  have node (other : Ptr) (inList : other ∈ nodes) :
      other < phs.newPhysRegion ∧ phs.ph other = entry.2.2.ph := by
    obtain ⟨entry', inFilter, rfl⟩ := List.mem_map.mp (perm.mem_iff.mp inList)
    obtain ⟨member', same⟩ := List.mem_filter.mp inFilter
    exact ⟨kept.known entry' member', (kept.ph entry' member').trans (of_decide_eq_true same)⟩
  have own : phs.physblocks entry.1 (entry.2.1 / vmPageSize) ∈ nodes := by
    refine perm.mem_iff.mpr (List.mem_map.mpr ⟨entry, List.mem_filter.mpr ⟨member, ?_⟩, rfl⟩)
    exact decide_eq_true rfl
  have length : nodes.length = (vm.physBlock entry.2.2.ph).refcount := by
    rw [perm.length_eq, length_referrers, counted]
  have few : nodes.length ≤ phs.newPhysRegion := by
    have bounded := (path.nodup.subperm fun other inList =>
      List.mem_range.mpr (node other inList).1).length_le
    rwa [List.length_range] at bounded
  have positive : 0 < (vm.physBlock entry.2.2.ph).refcount := by
    rw [← length]
    exact List.length_pos_of_mem own
  have walked : othersLoop phs entry.2.2.ph phs.newPhysRegion (phs.firstregion entry.2.2.ph) 0 =
      .ok nodes.length :=
    othersLoop_ok.mpr ⟨nodes, path, few, fun other inList => (node other inList).2,
      (Nat.zero_add _).symm⟩
  have first := path.head_eq
  unfold othersCheck
  rw [if_pos positive, walked]
  refine check_bind.mpr ⟨myassert_ok.mpr ?_, check_bind.mpr ⟨myassert_ok.mpr fun one => ?_,
    myassert_ok.mpr length.symm⟩⟩
  · rw [first]
    exact fun none => List.ne_nil_of_mem own (List.head?_eq_none_iff.mp none)
  · obtain ⟨node, only⟩ := List.length_eq_one_iff.mp (length.trans one)
    rw [only, List.mem_singleton] at own
    rw [first, only, own]
    rfl

theorem Orderly.sane (orderly : Orderly header vm) {phs : PhysRegions} (kept : phs.Kept vm) :
    Sane vm phs := by
  have sound := orderly.wellformed.blocks.sound
  rw [← orderly.live_regions] at sound
  have refs : ((entries vm).map fun entry => entry.2.2.ph) = procRefs vm (allRegions vm) := by
    unfold entries procRefs
    rw [List.map_flatMap, ← orderly.live_regions]
    refine List.flatMap_congr fun r member => ?_
    rw [List.map_map]
    exact (sound r member).present_refs
  have counted (entry : Ptr × Nat × PhysRegion) : (vm.physBlock entry.2.2.ph).refcount =
      ((entries vm).map fun entry => entry.2.2.ph).count entry.2.2.ph := by
    rw [refs]
    exact orderly.exact entry.2.2.ph
  obtain ⟨order, books⟩ := orderly.wellformed.books
  refine ⟨⟨order, ?_, books.linked⟩, fun r member => (sound r member).offset, fun r member => ?_,
    fun entry _ => counted entry, kept.parent, fun entry member =>
      kept.others member (counted entry)⟩
  · have few := (books.nodup.subperm fun node member =>
      List.mem_range.mpr (books.fresh node member)).length_le
    rwa [List.length_range] at few
  · obtain ⟨p, -, inTree⟩ := List.mem_flatMap.mp member
    exact (orderly.layout p).regionCheck_ok inTree

/-- Two pages that two processes share: a new `phys_region` comes first in the list of its block. -/
def smallPhysRegions : PhysRegions where
  physblocks r i := 2 * r + i
  parent ph := ph / 2
  ph ph := ph % 2
  firstregion pb := some (pb + 2)
  nextPhList ph := if ph < 2 then none else some (ph - 2)
  newPhysRegion := 4

end Ve482.Vm
