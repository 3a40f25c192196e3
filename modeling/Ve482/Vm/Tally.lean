import Ve482.Vm.Wellformed

set_option autoImplicit false

namespace Ve482.Vm

open Function (update)
open Fallible (Ends)

variable {np : Nat} {header : Header np} {answers : Answers} {vm vm' : State np}
  {regions : List Ptr}

/-- Every block counts the slots that refer to it. -/
def Exact (vm : State np) (regions : List Ptr) : Prop :=
  ∀ pb, (vm.physBlock pb).refcount = (procRefs vm regions).count pb

/-- A block that is not in use yet counts nothing. -/
def Fresh (vm : State np) : Prop :=
  ∀ pb, vm.newBlock ≤ pb → (vm.physBlock pb).refcount = 0

/-- A block in use is not the one to be made next. -/
theorem Fresh.known (fresh : Fresh vm) {pb : Ptr} (counted : 0 < (vm.physBlock pb).refcount) :
    pb ≠ vm.newBlock := by
  rintro rfl
  rw [fresh _ (Nat.le_refl _)] at counted
  exact Nat.lt_irrefl 0 counted

/-- The regions that are looked at are different ones, and made of pages. -/
structure Measured (vm : State np) (regions : List Ptr) : Prop where
  nodup : regions.Nodup
  aligned : ∀ r ∈ regions, (vm.virRegion r).length % vmPageSize = 0

/-- A region is where it was, but its slots may have changed. -/
def SameFrame (region region' : VirRegion np) : Prop :=
  region' = { region with physblocks := region'.physblocks }

/-- All regions are where they were. -/
structure Stays (vm vm' : State np) : Prop where
  frame : ∀ r, SameFrame (vm.virRegion r) (vm'.virRegion r)
  newRegion : vm'.newRegion = vm.newRegion
  fresh : Fresh vm → Fresh vm'

/-- The processes have the same regions, and each count has changed with the slots of the
regions. -/
structure Tallied (regions : List Ptr) (vm vm' : State np) : Prop extends Stays vm vm' where
  lists : ∀ p, (vm'.vmproc p).vmRegionsAvl = (vm.vmproc p).vmRegionsAvl
  inUse : ∀ p, (vm'.vmproc p).inUse = (vm.vmproc p).inUse
  tally : ∀ pb, (vm'.physBlock pb).refcount + (procRefs vm regions).count pb =
    (vm.physBlock pb).refcount + (procRefs vm' regions).count pb

namespace SameFrame

variable {region region' region'' : VirRegion np}

theorem refl (region : VirRegion np) : SameFrame region region := rfl

theorem trans (left : SameFrame region region') (right : SameFrame region' region'') :
    SameFrame region region'' := by
  unfold SameFrame at *
  rw [right, left]

theorem vaddr (same : SameFrame region region') : region'.vaddr = region.vaddr := by rw [same]

theorem length (same : SameFrame region region') : region'.length = region.length := by rw [same]

theorem parent (same : SameFrame region region') : region'.parent = region.parent := by rw [same]

end SameFrame

theorem sameFrame_setSlot (vm : State np) (r : Ptr) (i : Nat) (slot : Option PhysRegion)
    (other : Ptr) : SameFrame (vm.virRegion other) ((vm.setSlot r i slot).virRegion other) := by
  unfold State.setSlot
  by_cases same : other = r
  · subst same
    simp [SameFrame]
  · simp [SameFrame, same]

theorem Stays.refl (vm : State np) : Stays vm vm := ⟨fun _ => .refl _, rfl, id⟩

theorem Stays.trans {first second third : State np} (left : Stays first second)
    (right : Stays second third) : Stays first third :=
  ⟨fun r => (left.frame r).trans (right.frame r), right.newRegion.trans left.newRegion,
    fun fresh => right.fresh (left.fresh fresh)⟩

theorem Stays.measured (stays : Stays vm vm') (measured : Measured vm regions) :
    Measured vm' regions :=
  ⟨measured.nodup, fun r member => (stays.frame r).length ▸ measured.aligned r member⟩

namespace Tallied

theorem refl (vm : State np) : Tallied regions vm vm :=
  ⟨.refl vm, fun _ => rfl, fun _ => rfl, fun _ => rfl⟩

theorem trans {first second third : State np} (left : Tallied regions first second)
    (right : Tallied regions second third) : Tallied regions first third := by
  refine ⟨left.toStays.trans right.toStays, fun p => (right.lists p).trans (left.lists p),
    fun p => (right.inUse p).trans (left.inUse p), fun pb => ?_⟩
  have before := left.tally pb
  have after := right.tally pb
  omega

/-- Neither a slot nor a count has changed. -/
theorem of_same (procs : ∀ p, (vm'.vmproc p).vmRegionsAvl = (vm.vmproc p).vmRegionsAvl ∧
      (vm'.vmproc p).inUse = (vm.vmproc p).inUse)
    (virRegion : vm'.virRegion = vm.virRegion) (newRegion : vm'.newRegion = vm.newRegion)
    (newBlock : vm.newBlock ≤ vm'.newBlock)
    (counts : ∀ pb, (vm'.physBlock pb).refcount = (vm.physBlock pb).refcount) :
    Tallied regions vm vm' := by
  refine ⟨⟨fun r => ?_, newRegion, fun fresh pb new => ?_⟩, fun p => (procs p).1, fun p => (procs p).2,
    fun pb => ?_⟩
  · rw [virRegion]
    exact .refl _
  · rw [counts]
    exact fresh pb (newBlock.trans new)
  · have same : procRefs vm' regions = procRefs vm regions :=
      procRefs_congr fun r _ => by rw [virRegion]
    rw [counts, same]

theorem called (regions : List Ptr) (vm : State np) : Tallied regions vm vm.called :=
  of_same (fun _ => ⟨rfl, rfl⟩) rfl rfl (Nat.le_refl _) fun _ => rfl

/-- A block gets another page. -/
theorem rephys (regions : List Ptr) (vm : State np) (pb phys : Nat) :
    Tallied regions vm (vm.setBlock pb { vm.physBlock pb with phys }) := by
  refine of_same (fun _ => ⟨rfl, rfl⟩) rfl rfl (Nat.le_refl _) fun other => ?_
  by_cases same : other = pb
  · subst same
    simp [State.setBlock]
  · simp [State.setBlock, same]

theorem freeMem (regions : List Ptr) (vm : State np) (click pages : Nat) :
    Tallied regions vm (vm.freeMem click pages) :=
  of_same (fun _ => ⟨rfl, rfl⟩) rfl rfl (Nat.le_refl _) fun _ => rfl

theorem exact (tallied : Tallied regions vm vm') (exact : Exact vm regions) :
    Exact vm' regions := by
  intro pb
  have changed := tallied.tally pb
  rw [exact pb] at changed
  omega

/-- A slot changes, and the counts with it. -/
theorem setSlot {r : Ptr} {i : Nat} {slot : Option PhysRegion} (measured : Measured vm regions)
    (member : r ∈ regions) (small : i < (vm.virRegion r).length / vmPageSize)
    (procs : vm'.vmproc = vm.vmproc) (virRegion : vm'.virRegion = (vm.setSlot r i slot).virRegion)
    (newRegion : vm'.newRegion = vm.newRegion) (fresh : Fresh vm → Fresh vm')
    (counts : ∀ pb, (vm'.physBlock pb).refcount +
        (((vm.virRegion r).physblocks i).map PhysRegion.ph).toList.count pb =
      (vm.physBlock pb).refcount + (slot.map PhysRegion.ph).toList.count pb) :
    Tallied regions vm vm' := by
  refine ⟨⟨fun other => ?_, newRegion, fresh⟩, fun p => by rw [procs], fun p => by rw [procs],
    fun pb => ?_⟩
  · rw [virRegion]
    exact sameFrame_setSlot vm r i slot other
  · have refs : procRefs vm' regions = procRefs (vm.setSlot r i slot) regions :=
      procRefs_congr fun other _ => by rw [virRegion]
    have slots := procRefs_setSlot vm slot member measured.nodup small pb
    have counted := counts pb
    rw [refs]
    omega

end Tallied

/-- The slot of an offset that was looked up. -/
theorem Measured.slot {r : Ptr} {offset : Nat} (measured : Measured vm regions)
    (member : r ∈ regions) (small : offset < (vm.virRegion r).length) :
    offset / vmPageSize < (vm.virRegion r).length / vmPageSize := by
  have whole := measured.aligned r member
  unfold vmPageSize at *
  omega

theorem physblockSet_tallied (vm : State np) {r : Ptr} {offset : Nat} (slot : Option PhysRegion)
    (measured : Measured vm regions) (member : r ∈ regions) {physBlock : Ptr → PhysBlock}
    (fresh : Fresh vm → Fresh { vm with physBlock }) (counts : ∀ pb, (physBlock pb).refcount +
        (((vm.virRegion r).physblocks (offset / vmPageSize)).map PhysRegion.ph).toList.count pb =
      (vm.physBlock pb).refcount + (slot.map PhysRegion.ph).toList.count pb) :
    Ends (fun _ => True) (fun vm' => Tallied regions vm vm' ∧
        (vm'.virRegion r).physblocks (offset / vmPageSize) = slot)
      (physblockSet { vm with physBlock } r offset slot) := by
  unfold physblockSet
  refine assert_ends (fun _ => trivial) fun _ => assert_ends (fun _ => trivial) fun small => ?_
  have set : Tallied regions vm (State.setSlot { vm with physBlock } r (offset / vmPageSize) slot) ∧
      ((State.setSlot { vm with physBlock } r (offset / vmPageSize) slot).virRegion r).physblocks
        (offset / vmPageSize) = slot := by
    refine ⟨.setSlot measured member (measured.slot member small) rfl rfl rfl fresh
      counts, ?_⟩
    rw [setSlot_slot, if_pos ⟨rfl, rfl⟩]
  cases slot with
  | none => exact assert_ends (fun _ => trivial) fun _ => set
  | some pr =>
      exact assert_ends (fun _ => trivial) fun _ => assert_ends (fun _ => trivial) fun _ => set

theorem pbNew_tallied (regions : List Ptr) (answers : Answers) (fresh : Fresh vm) :
    Tallied regions vm (pbNew answers vm).2 ∧
      ∀ pb, (pbNew answers vm).1 = some pb → pb < (pbNew answers vm).2.newBlock := by
  unfold pbNew
  split
  · refine ⟨.of_same (fun _ => ⟨rfl, rfl⟩) rfl rfl (Nat.le_succ _) fun pb => ?_, fun pb isNew => ?_⟩
    · show (update vm.physBlock vm.newBlock ⟨mapNone, 0⟩ pb).refcount = _
      by_cases same : pb = vm.newBlock
      · subst same
        rw [Function.update_self, fresh _ (Nat.le_refl _)]
      · rw [Function.update_of_ne same]
    · rw [← Option.some.inj isNew]
      exact Nat.lt_succ_self _
  · exact ⟨.called regions vm, nofun⟩

theorem pbReference_tallied {pb offset : Nat} {r : Ptr} (measured : Measured vm regions)
    (member : r ∈ regions) (known : pb < vm.newBlock)
    (empty : (vm.virRegion r).physblocks (offset / vmPageSize) = none) :
    Ends (fun _ => True) (fun result => Tallied regions vm result.2 ∧ ∀ pr, result.1 = some pr →
        pr = ⟨pb, offset⟩ ∧ (result.2.virRegion r).physblocks (offset / vmPageSize) = some pr)
      (pbReference answers vm pb offset r) := by
  unfold pbReference
  split
  · refine ((physblockSet_tallied vm.called (some ⟨pb, offset⟩)
      ((Tallied.called regions vm).measured measured) member (fun fresh other new => ?_)
      fun other => ?_)).bind fun vm' set => ?_
    · show (update vm.physBlock pb _ other).refcount = 0
      rw [Function.update_of_ne (Nat.ne_of_gt (Nat.lt_of_lt_of_le known new))]
      exact fresh other new
    · show (update vm.physBlock pb _ other).refcount +
        (((vm.virRegion r).physblocks (offset / vmPageSize)).map PhysRegion.ph).toList.count other =
          (vm.physBlock other).refcount + _
      rw [empty]
      by_cases same : other = pb
      · subst same
        simp
      · simp [same, Ne.symm same]
    · refine ⟨(Tallied.called regions vm).trans set.1, fun pr isNew => ?_⟩
      obtain rfl := Option.some.inj isNew
      exact ⟨rfl, set.2⟩
  · exact ⟨.called regions vm, nofun⟩

theorem pbUnreferenced_tallied {r : Ptr} {pr : PhysRegion} (measured : Measured vm regions)
    (member : r ∈ regions)
    (resident : (vm.virRegion r).physblocks (pr.offset / vmPageSize) = some pr) :
    Ends (fun _ => True) (fun vm' => Tallied regions vm vm' ∧
        (vm'.virRegion r).physblocks (pr.offset / vmPageSize) = none)
      (pbUnreferenced vm r pr) := by
  unfold pbUnreferenced
  refine assert_ends (fun _ => trivial) fun counted => ?_
  have less : Fresh vm → Fresh (vm.setBlock pr.ph
      { vm.physBlock pr.ph with refcount := (vm.physBlock pr.ph).refcount - 1 }) := by
    intro fresh other new
    have unused := fresh other new
    show (update vm.physBlock pr.ph _ other).refcount = 0
    by_cases same : other = pr.ph
    · subst same
      rw [Function.update_self, unused]
    · rwa [Function.update_of_ne same]
  have counts : ∀ pb, ((vm.setBlock pr.ph { vm.physBlock pr.ph with
        refcount := (vm.physBlock pr.ph).refcount - 1 }).physBlock pb).refcount +
        (((vm.virRegion r).physblocks (pr.offset / vmPageSize)).map PhysRegion.ph).toList.count pb =
      (vm.physBlock pb).refcount +
        ((none : Option PhysRegion).map PhysRegion.ph).toList.count pb := by
    intro pb
    rw [resident]
    by_cases same : pb = pr.ph
    · subst same
      simp only [State.setBlock, Function.update_self, Option.map_some, Option.toList_some,
        List.count_singleton_self, Option.map_none, Option.toList_none, List.count_nil]
      omega
    · simp [State.setBlock, same, Ne.symm same]
  dsimp only
  split
  · exact (physblockSet_tallied (vm.freeMem _ 1) none
      ((Tallied.freeMem regions vm _ 1).measured measured) member less counts).imp fun vm' set =>
        ⟨(Tallied.freeMem regions vm _ 1).trans set.1, set.2⟩
  · exact physblockSet_tallied vm none measured member less counts

theorem mapPhWritept_tallied (regions : List Ptr) (answers : Answers) (vm : State np) (r : Ptr)
    (pr : PhysRegion) :
    Ends (fun _ => True) (fun result => Tallied regions vm result.2 ∧
        result.2.virRegion = vm.virRegion) (mapPhWritept answers vm r pr) := by
  unfold mapPhWritept
  refine assert_ends (fun _ => trivial) fun _ => assert_ends (fun _ => trivial) fun _ =>
    assert_ends (fun _ => trivial) fun _ => ⟨.called regions vm, rfl⟩

theorem evPagefault_tallied (regions : List Ptr) (answers : Answers) (vm : State np) (pb : Ptr) :
    Tallied regions vm (evPagefault answers vm pb).2 ∧
      (evPagefault answers vm pb).2.virRegion = vm.virRegion := by
  unfold evPagefault
  cases answers.allocMem vm.calls 1 vm.free with
  | none => exact ⟨.called regions vm, rfl⟩
  | some click =>
      have filled := (Tallied.called regions vm).trans
        (.rephys regions vm.called pb (click2abs click))
      exact ⟨filled.trans (.of_same (fun _ => ⟨rfl, rfl⟩) rfl rfl (Nat.le_refl _) fun _ => rfl), rfl⟩

/-- The stops of a request are of no interest here. -/
abbrev Tallies {β : Type} (regions : List Ptr) (vm : State np)
    (outcome : Except Stop (β × State np)) : Prop :=
  Ends (fun _ => True) (fun result => Tallied regions vm result.2) outcome

theorem mapPf_tallied (header : Header np) (answers : Answers) {r : Ptr} (offset : Nat)
    (measured : Measured vm regions) (member : r ∈ regions) (fresh : Fresh vm) :
    Tallies regions vm (mapPf header answers vm r offset) := by
  unfold mapPf
  dsimp only
  generalize offset - offset % vmPageSize = start
  refine assert_ends (fun _ => trivial) fun _ => assert_ends (fun _ => trivial) fun _ =>
    assert_ends (fun _ => trivial) fun _ => (physblockGet_slot _ _).bind fun found slot => ?_
  cases found with
  | some pr => trivial
  | none =>
      have allocated := pbNew_tallied regions answers fresh
      have place : (pbNew answers vm).2.virRegion = vm.virRegion := by
        unfold pbNew
        split <;> rfl
      revert allocated place
      generalize pbNew answers vm = new
      rintro ⟨allocated, known⟩ place
      obtain ⟨pb, vm1⟩ := new
      cases pb with
      | none => exact allocated
      | some pb =>
          have empty : (vm1.virRegion r).physblocks (start / vmPageSize) = none := by
            rw [place]
            exact slot.2.2.1.symm
          refine (pbReference_tallied (allocated.measured measured) member (known pb rfl) empty).bind
            fun linked reached => ?_
          obtain ⟨pr, vm2⟩ := linked
          obtain ⟨keeps, isNew⟩ := reached
          have before := allocated.trans keeps
          cases pr with
          | none => exact before
          | some pr =>
              obtain ⟨rfl, resident⟩ := isNew pr rfl
              dsimp only
              split
              · exact (mapPhWritept_tallied regions answers vm2 r _).imp fun _ keeps =>
                  before.trans keeps.1
              · have faulted := evPagefault_tallied regions answers vm2 pb
                revert faulted
                generalize evPagefault answers vm2 pb = fault
                rintro ⟨faulted, same⟩
                obtain ⟨filled, vm3⟩ := fault
                cases filled with
                | true =>
                    exact (mapPhWritept_tallied regions answers vm3 r _).imp fun _ keeps =>
                      (before.trans faulted).trans keeps.1
                | false =>
                    refine (pbUnreferenced_tallied (faulted.measured (before.measured measured)) member
                      ?_).bind fun vm4 keeps => (before.trans faulted).trans keeps.1
                    change vm3.virRegion = vm2.virRegion at same
                    rw [same]
                    exact resident

theorem copyAbs2region_tallied (regions : List Ptr) (answers : Answers) (vm : State np) (r : Ptr)
    (offset : Nat) :
    Tallies regions vm (copyAbs2region answers vm r offset) := by
  unfold copyAbs2region
  refine (physblockGet_ends _ _).bind fun found _ => ?_
  cases found with
  | none => exact .refl vm
  | some pr =>
      refine assert_ends (fun _ => trivial) fun _ => ?_
      split
      · exact .refl vm
      · split
        · exact .refl vm
        · exact .called regions vm

theorem mapClonePhBlock_tallied (header : Header np) (answers : Answers) {r : Ptr} {pr : PhysRegion}
    (measured : Measured vm regions) (member : r ∈ regions) (fresh : Fresh vm)
    (resident : (vm.virRegion r).physblocks (pr.offset / vmPageSize) = some pr) :
    Tallies regions vm (mapClonePhBlock header answers vm r pr) := by
  unfold mapClonePhBlock
  refine assert_ends (fun _ => trivial) fun _ =>
    (pbUnreferenced_tallied measured member resident).bind fun vm1 left => ?_
  have parted := left.1
  refine assert_ends (fun _ => trivial) fun _ => assert_ends (fun _ => trivial) fun _ =>
    (mapPf_tallied header answers _ (parted.measured measured) member (parted.fresh fresh)).bind
      fun mapped keeps => ?_
  obtain ⟨done, vm2⟩ := mapped
  have before := parted.trans keeps
  cases done with
  | false => exact before
  | true =>
      refine (copyAbs2region_tallied regions answers vm2 r _).bind fun copied keeps => ?_
      obtain ⟨done, vm3⟩ := copied
      cases done with
      | false => trivial
      | true =>
          refine (physblockGet_ends _ _).bind fun found _ => ?_
          cases found with
          | none => trivial
          | some newpr => exact assert_ends (fun _ => trivial) fun _ => before.trans keeps

/-- The region and the slot of a page that was looked up. -/
theorem mapLookup_slot (vm : State np) (p : Fin np) (offset : Nat) :
    Ends (fun _ => True) (fun found => ∀ r pr, found = some (r, some pr) →
        r ∈ (vm.vmproc p).vmRegionsAvl ∧
          (vm.virRegion r).physblocks (pr.offset / vmPageSize) = some pr)
      (mapLookup vm p offset) := by
  unfold mapLookup
  cases searched : regionSearch vm p offset with
  | none =>
      intro r pr same
      cases same
  | some r =>
      dsimp only
      split
      · refine (physblockGet_slot _ _).bind fun found slot => ?_
        cases found with
        | none =>
            intro r pr same
            cases same
        | some pr =>
            refine assert_ends (fun _ => trivial) fun there r' pr' same => ?_
            obtain ⟨rfl, page⟩ := Prod.mk.inj (Option.some.inj same)
            obtain rfl := Option.some.inj page
            refine ⟨(List.mem_filter.mp (List.mem_of_getLast? searched)).1, ?_⟩
            rw [there]
            exact slot.2.2.1.symm
      · intro r pr same
        cases same

theorem getCleanPhysRegion_tallied (header : Header np) (answers : Answers) (p : Fin np)
    (vaddr : Nat) (measured : Measured vm regions)
    (members : ∀ r ∈ (vm.vmproc p).vmRegionsAvl, r ∈ regions) (fresh : Fresh vm) :
    Tallies regions vm (getCleanPhysRegion header answers vm p vaddr) := by
  unfold getCleanPhysRegion
  refine (mapLookup_slot vm p vaddr).bind fun found slot => ?_
  rcases found with _ | ⟨r, _ | pr⟩
  · exact .refl vm
  · exact .refl vm
  · obtain ⟨own, resident⟩ := slot r pr rfl
    refine assert_ends (fun _ => trivial) fun _ => assert_ends (fun _ => trivial) fun _ =>
      assert_ends (fun _ => trivial) fun _ => ?_
    split
    · refine (mapClonePhBlock_tallied header answers measured (members r own) fresh resident).bind
        fun cloned keeps => ?_
      obtain ⟨clone, vm1⟩ := cloned
      cases clone with
      | none => exact keeps
      | some clone => exact assert_ends (fun _ => trivial) fun _ => keeps
    · exact assert_ends (fun _ => trivial) fun _ => .refl vm

theorem getPages_tallied (header : Header np) (answers : Answers) (p : Fin np) (pages : Nat)
    (vaddr : VirBytes) (phaddr : Nat) (measured : Measured vm regions)
    (members : ∀ r ∈ (vm.vmproc p).vmRegionsAvl, r ∈ regions) (fresh : Fresh vm) :
    Tallies regions vm (getPages header answers p pages vaddr phaddr vm) := by
  induction pages generalizing vaddr phaddr vm with
  | zero => exact .refl vm
  | succ pages ih =>
      rw [getPages]
      refine (getCleanPhysRegion_tallied header answers p _ measured members fresh).bind
        fun found keeps => ?_
      rcases found with ⟨_ | ⟨r, pr⟩, vm1⟩
      · exact keeps
      · refine assert_ends (fun _ => trivial) fun _ =>
          (mapPhWritept_tallied regions answers _ r pr).bind fun written keeps' => ?_
        obtain ⟨done, vm2⟩ := written
        have before : Tallied regions vm vm2 := keeps.trans
          ((Tallied.freeMem regions vm1 _ 1).trans
            ((Tallied.rephys regions _ pr.ph phaddr).trans keeps'.1))
        cases done with
        | false => trivial
        | true =>
            refine (ih _ _ (before.measured measured) ?_ (before.fresh fresh)).imp
              fun _ later => before.trans later
            rw [before.lists]
            exact members

end Ve482.Vm
