import Ve482.Vm.Copies

set_option autoImplicit false

namespace Ve482.Vm

open Function (update)
open Fallible (Ends)

variable {np : Nat} {header : Header np} {answers : Answers} {vm vm' : State np} {r i pb : Nat}

/-- The `phys_region` of a slot leaves its block for a new one, which gets a page. -/
def pbLink (vm : State np) (r : Ptr) (ph : PhysRegion) (newpb : Ptr) (newPage : Nat) :
    Except Stop (State np) := do
  let vm ← pbUnreferenced vm r ph
  physblockSet (vm.setBlock newpb ⟨newPage, 1⟩) r ph.offset (some { ph with ph := newpb })

/-- `ev_pagefault`, for writing, of a block that has a page: a block that others refer to as well
is copied, and the `phys_region` refers to the copy. -/
def evPagefaultWrite (answers : Answers) (vm : State np) (r : Ptr) (ph : PhysRegion) :
    Except Stop (Option PhysRegion × State np) :=
  if (vm.physBlock ph.ph).refcount < 2 then .ok (some ph, vm)
  else
    match answers.allocMem vm.calls 1 vm.free with
    | none => .ok (none, vm.called)
    | some click =>
        match pbNew answers { vm.called with free := vm.free.erase click } with
        | (none, vm) => .ok (none, vm.freeMem click 1)
        | (some pb, vm) =>
            if answers.sysAbscopy vm.calls then do
              return (some { ph with ph := pb }, ← pbLink vm.called r ph pb (click2abs click))
            else .error (.panic .evPagefault)

/-- `map_pf` of a page that has a `phys_region`, for writing. -/
def mapPfResident (header : Header np) (answers : Answers) (vm : State np) (r : Ptr)
    (ph : PhysRegion) : Except Stop (Bool × State np) := do
  let region := vm.virRegion r
  assert (ph.offset < region.length) .mapPf
  assert (region.vaddr % vmPageSize = 0) .mapPf
  assert region.flags.writable .mapPf
  if header.writable region.memtype (vm.physBlock ph.ph) then mapPhWritept answers vm r ph
  else
    match ← evPagefaultWrite answers vm r ph with
    | (none, vm) => return (false, ← pbUnreferenced vm r ph)
    | (some ph, vm) => mapPhWritept answers vm r ph

/-- What a fault for writing does to a slot that has its page: nothing, or the slot leaves a block
that others refer to, without a page or for a page of its own. -/
inductive Rewritten (vm vm' : State np) (r : Ptr) (i : Nat) (pb : Ptr) : Prop
  | stays (calls : Nat) (same : vm' = { vm with calls })
  | parts (calls : Nat) (shared : 1 < (vm.physBlock pb).refcount)
      (same : vm' = { vm.parted r i pb with calls })
  | copies (click calls : Nat) (shared : 1 < (vm.physBlock pb).refcount) (free : click ∈ vm.free)
      (same : vm' = { vm.cloned r i pb click with calls })

theorem Rewritten.called (rewritten : Rewritten vm vm' r i pb) : Rewritten vm vm'.called r i pb := by
  rcases rewritten with ⟨calls, rfl⟩ | ⟨calls, shared, rfl⟩ | ⟨click, calls, shared, free, rfl⟩
  · exact .stays (calls + 1) rfl
  · exact .parts (calls + 1) shared rfl
  · exact .copies click (calls + 1) shared free rfl

/-- A block has been made for a page that it does not have yet. -/
def State.made (vm : State np) (click calls : Nat) : State np :=
  { vm.setBlock vm.newBlock ⟨mapNone, 0⟩ with
    newBlock := vm.newBlock + 1
    free := vm.free.erase click
    calls }

section

variable {pr : PhysRegion} (blocks : Blocks vm) (slot : Slot vm r i)
  (resident : (vm.virRegion r).physblocks i = some pr)
  (shared : 1 < (vm.physBlock pr.ph).refcount)

include blocks slot resident shared

/-- The slot leaves its block, whatever was asked of the rest of the system before. -/
theorem pbUnreferenced_parts (calls : Nat) :
    pbUnreferenced { vm with calls } r pr = .ok { vm.parted r i pr.ph with calls } :=
  @pbUnreferenced_shared np { vm with calls } r i pr (blocks.sound r slot.region) slot.small resident
    shared

theorem pbLink_copies (click calls : Nat) :
    pbLink (vm.made click calls) r pr vm.newBlock (click2abs click) =
      .ok { vm.cloned r i pr.ph click with calls } := by
  have sound := blocks.sound r slot.region
  have known : pr.ph ≠ vm.newBlock := Fresh.known blocks.fresh (by omega)
  have block : (vm.made click calls).physBlock pr.ph = vm.physBlock pr.ph :=
    Function.update_of_ne known _ _
  have offset := sound.offsets i pr slot.small resident
  have parted := @pbUnreferenced_shared np (vm.made click calls) r i pr sound slot.small resident
    (by rw [block]; exact shared)
  unfold pbLink
  rw [parted, ok_bind, offset, block]
  refine (physblockSet_some _ ?_ ?_ rfl).trans (congrArg Except.ok ?_)
  · simpa [State.made, State.setSlot, State.setBlock] using slot.small
  · simp [State.made, State.setSlot, State.setBlock]
  · have order : update (update (update vm.physBlock vm.newBlock ⟨mapNone, 0⟩) pr.ph
        { vm.physBlock pr.ph with refcount := (vm.physBlock pr.ph).refcount - 1 }) vm.newBlock
          ⟨click2abs click, 1⟩ = update (update vm.physBlock pr.ph
            { vm.physBlock pr.ph with refcount := (vm.physBlock pr.ph).refcount - 1 }) vm.newBlock
              ⟨click2abs click, 1⟩ := by
      rw [Function.update_comm known.symm, Function.update_idem]
    simp [State.made, State.cloned, State.filled, State.parted, State.setSlot, State.setBlock, order]

end

theorem evPagefaultWrite_rewritten (answers : Answers) (blocks : Blocks vm) {pr : PhysRegion}
    (slot : Slot vm r i) (resident : (vm.virRegion r).physblocks i = some pr) :
    Ends (fun _ => True) (fun result => Rewritten vm result.2 r i pr.ph ∧ (result.1 = none →
        1 < (vm.physBlock pr.ph).refcount ∧ ∃ calls, result.2 = { vm with calls }))
      (evPagefaultWrite answers vm r pr) := by
  unfold evPagefaultWrite
  by_cases alone : (vm.physBlock pr.ph).refcount < 2
  · rw [if_pos alone]
    exact ⟨.stays vm.calls rfl, nofun⟩
  have shared : 1 < (vm.physBlock pr.ph).refcount := by omega
  rw [if_neg alone]
  cases given : answers.allocMem vm.calls 1 vm.free with
  | none => exact ⟨.stays _ rfl, fun _ => ⟨shared, _, rfl⟩⟩
  | some click =>
      have free : click ∈ vm.free := answers.allocMem_free _ _ _ _ given 0 Nat.one_pos
      have new : pbNew answers { vm.called with free := vm.free.erase click } =
          if answers.slaballoc (vm.calls + 1) then (some vm.newBlock, vm.made click (vm.calls + 2))
          else (none, { vm with free := vm.free.erase click, calls := vm.calls + 2 }) := rfl
      dsimp only
      rw [new]
      by_cases memory : answers.slaballoc (vm.calls + 1)
      · rw [if_pos memory]
        dsimp only
        split
        · have linked := pbLink_copies blocks slot resident shared click (vm.calls + 3)
          rw [show (vm.made click (vm.calls + 2)).called = vm.made click (vm.calls + 3) from rfl,
            linked]
          exact ⟨.copies click _ shared free rfl, nofun⟩
        · trivial
      · rw [if_neg memory]
        have same : ({ vm with free := vm.free.erase click, calls := vm.calls + 2 } : State np).freeMem
            click 1 = { vm with calls := vm.calls + 2 } := by
          simp [State.freeMem, Finset.insert_erase free]
        dsimp only
        rw [same]
        exact ⟨.stays _ rfl, fun _ => ⟨shared, _, rfl⟩⟩

theorem mapPfResident_rewritten (header : Header np) (answers : Answers) (blocks : Blocks vm)
    {pr : PhysRegion} (slot : Slot vm r i) (resident : (vm.virRegion r).physblocks i = some pr) :
    Ends (fun _ => True) (fun result => Rewritten vm result.2 r i pr.ph)
      (mapPfResident header answers vm r pr) := by
  have written {vm1 : State np} (rewritten : Rewritten vm vm1 r i pr.ph) (ph : PhysRegion) :
      Ends (fun _ => True) (fun result => Rewritten vm result.2 r i pr.ph)
        (mapPhWritept answers vm1 r ph) := by
    unfold mapPhWritept
    exact assert_ends (fun _ => trivial) fun _ => assert_ends (fun _ => trivial) fun _ =>
      assert_ends (fun _ => trivial) fun _ => rewritten.called
  unfold mapPfResident
  refine assert_ends (fun _ => trivial) fun _ => assert_ends (fun _ => trivial) fun _ =>
    assert_ends (fun _ => trivial) fun _ => ?_
  split
  · exact written (.stays vm.calls rfl) pr
  · refine (evPagefaultWrite_rewritten answers blocks slot resident).bind fun result after => ?_
    obtain ⟨ph, vm1⟩ := result
    obtain ⟨rewritten, failed⟩ := after
    cases ph with
    | some ph => exact written rewritten ph
    | none =>
        obtain ⟨shared, calls, rfl⟩ := failed rfl
        dsimp only
        rw [pbUnreferenced_parts blocks slot resident shared calls]
        exact .parts calls shared rfl

namespace Rewritten

theorem keeps (rewritten : Rewritten vm vm' r i pb) : KeepsBooks vm vm' := by
  rcases rewritten with ⟨calls, rfl⟩ | ⟨calls, -, rfl⟩ | ⟨click, calls, -, -, rfl⟩
  all_goals exact ⟨fun _ => ⟨rfl, rfl, rfl⟩, rfl, rfl, rfl, rfl, rfl, rfl, rfl, rfl⟩

variable {pr : PhysRegion}

theorem blocks (rewritten : Rewritten vm vm' r i pr.ph) (blocks : Blocks vm) (slot : Slot vm r i)
    (resident : (vm.virRegion r).physblocks i = some pr) : Blocks vm' := by
  rcases rewritten with ⟨calls, rfl⟩ | ⟨calls, -, rfl⟩ | ⟨click, calls, -, -, rfl⟩
  · exact blocks.idle _ _
  · exact (blocks.parted slot resident).idle _ _
  · exact (blocks.cloned slot resident click).idle _ _

theorem tallied (rewritten : Rewritten vm vm' r i pr.ph) (blocks : Blocks vm) (slot : Slot vm r i)
    (resident : (vm.virRegion r).physblocks i = some pr) : Tallied (allRegions vm) vm vm' := by
  have fresh := blocks.fresh
  have measured := blocks.measured
  rcases rewritten with ⟨calls, rfl⟩ | ⟨calls, shared, rfl⟩ | ⟨click, calls, shared, -, rfl⟩
  · exact .of_same (fun _ => ⟨rfl, rfl⟩) rfl rfl (Nat.le_refl _) fun _ => rfl
  · refine @Tallied.setSlot np vm _ _ r i none measured slot.region slot.small rfl rfl rfl
      (fun _ => (blocks.parted slot resident).fresh) fun other => ?_
    rw [resident]
    show (update vm.physBlock pr.ph _ other).refcount + _ = _
    by_cases same : other = pr.ph
    · subst same
      rw [Function.update_self]
      simp
      omega
    · simp [same, Ne.symm same]
  · have known := Fresh.known fresh (show 0 < (vm.physBlock pr.ph).refcount by omega)
    refine @Tallied.setSlot np vm _ _ r i (some ⟨vm.newBlock, i * vmPageSize⟩) measured slot.region
      slot.small rfl ?_ rfl (fun _ => (blocks.cloned slot resident click).fresh) fun other => ?_
    · simp [State.cloned, State.filled, State.parted, State.setSlot, State.setBlock]
    · rw [resident]
      show (update (update vm.physBlock pr.ph _) vm.newBlock _ other).refcount + _ = _
      by_cases isNew : other = vm.newBlock
      · subst isNew
        rw [Function.update_self, fresh _ (Nat.le_refl _)]
        simp [known]
      · rw [Function.update_of_ne isNew]
        by_cases same : other = pr.ph
        · subst same
          rw [Function.update_self]
          simp [Ne.symm isNew]
          omega
        · simp [same, Ne.symm same, Ne.symm isNew]

end Rewritten

end Ve482.Vm
