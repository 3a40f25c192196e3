import Ve482.Vm.Departs

set_option autoImplicit false

namespace Ve482.Vm

open Function (update)
open Fallible (Ends)

variable {np : Nat} {header : Header np} {answers : Answers} {vm vm' : State np} {order : List Ptr}
  {regions : List Ptr} {memory : Set Nat}

/-- No yielded block has changed, no block has been made, and no region is forgotten. -/
structure Shares (vm vm' : State np) : Prop extends KeepsBooks vm vm' where
  newBlock : vm'.newBlock = vm.newBlock
  newRegion : vm.newRegion ≤ vm'.newRegion

theorem Shares.refl (vm : State np) : Shares vm vm := ⟨.refl vm, rfl, Nat.le_refl _⟩

theorem Shares.trans {first second third : State np} (left : Shares first second)
    (right : Shares second third) : Shares first third :=
  ⟨left.toKeepsBooks.trans right.toKeepsBooks, right.newBlock.trans left.newBlock,
    left.newRegion.trans right.newRegion⟩

theorem shares_regions (vm : State np) (virRegion : Ptr → VirRegion np) (calls : Nat) :
    Shares vm { vm with virRegion, calls } :=
  ⟨⟨fun _ => ⟨rfl, rfl, rfl⟩, rfl, rfl, rfl, rfl, rfl, rfl, rfl, rfl⟩, rfl, Nat.le_refl _⟩

theorem physblockSet_shares (vm : State np) (r : Ptr) (offset : Nat) (pr : Option PhysRegion) :
    Ends (fun _ => True) (Shares vm) (physblockSet vm r offset pr) := by
  refine (physblockSet_slot vm r offset pr).imp fun vm' set => ?_
  subst set
  exact shares_regions vm _ _

theorem pbReference_shares (answers : Answers) (vm : State np) (pb : Ptr) (offset : Nat) (r : Ptr) :
    Ends (fun _ => True) (fun result => Shares vm result.2)
      (pbReference answers vm pb offset r) := by
  have called : Shares vm vm.called := shares_regions vm _ _
  unfold pbReference
  split
  · refine (physblockSet_shares _ r offset _).bind fun vm' keeps => called.trans (.trans ?_ keeps)
    exact ⟨keepsBooks_setBlock _ _ _, rfl, Nat.le_refl _⟩
  · exact called

theorem pbUnreferenced_shares (vm : State np) (r : Ptr) (pr : PhysRegion) :
    Ends (fun _ => True) (Shares vm) (pbUnreferenced vm r pr) := by
  unfold pbUnreferenced
  refine assert_ends (fun _ => trivial) fun _ => ?_
  refine (physblockSet_shares _ r _ _).imp fun vm' keeps => Shares.trans ?_ keeps
  split
  · exact ⟨(keepsBooks_setBlock _ _ _).trans (keepsBooks_freeMem _ _ _), rfl, Nat.le_refl _⟩
  · exact ⟨keepsBooks_setBlock _ _ _, rfl, Nat.le_refl _⟩

theorem mapPhWritept_shares (answers : Answers) (vm : State np) (r : Ptr) (pr : PhysRegion) :
    Ends (fun _ => True) (fun result => Shares vm result.2) (mapPhWritept answers vm r pr) := by
  unfold mapPhWritept
  refine assert_ends (fun _ => trivial) fun _ => assert_ends (fun _ => trivial) fun _ =>
    assert_ends (fun _ => trivial) fun _ => ?_
  exact shares_regions vm _ _

theorem mapSubfreeLoop_shares (r : Ptr) (start last count voffset : Nat) (vm : State np) :
    Ends (fun _ => True) (Shares vm) (mapSubfreeLoop r start last count voffset vm) := by
  induction count generalizing voffset vm with
  | zero => exact .refl vm
  | succ count ih =>
      rw [mapSubfreeLoop]
      refine (physblockGet_ends _ _).bind fun found _ => ?_
      cases found with
      | none => exact ih _ vm
      | some pr =>
          refine assert_ends (fun _ => trivial) fun _ => assert_ends (fun _ => trivial) fun _ =>
            (pbUnreferenced_shares vm r pr).bind fun vm1 keeps => ?_
          exact (ih _ vm1).imp fun _ later => keeps.trans later

theorem mapFree_shares (vm : State np) (r : Ptr) :
    Ends (fun _ => True) (Shares vm) (mapFree vm r) := by
  unfold mapFree
  refine (mapSubfreeLoop_shares r _ _ _ _ vm).bind fun vm1 keeps => ?_
  exact keeps.trans (shares_regions vm1 _ _)

theorem mapFreeRegions_shares (p : Fin np) (regions : List Ptr) (vm : State np) :
    Ends (fun _ => True) (Shares vm) (mapFreeRegions p regions vm) := by
  induction regions generalizing vm with
  | nil => exact .refl vm
  | cons r regions ih =>
      rw [mapFreeRegions]
      refine (mapFree_shares _ r).bind fun vm1 keeps => (ih vm1).imp fun vm' later => ?_
      exact Shares.trans ⟨keepsBooks_setRegions vm p _, rfl, Nat.le_refl _⟩ (keeps.trans later)

/-- The end of a process that has yielded nothing. -/
theorem mapFreeProc_shares (header : Header np) {p : Fin np} (none : (vm.vmproc p).vmYielded = 0) :
    Ends (fun _ => True) (Shares vm) (mapFreeProc header vm p) := by
  unfold mapFreeProc
  refine (mapFreeRegions_shares p _ vm).bind fun vm1 keeps => ?_
  have cleared : Shares vm (vm1.without p) :=
    keeps.trans ⟨keepsBooks_setRegions vm1 p [], rfl, Nat.le_refl _⟩
  have none1 : ((vm1.without p).vmproc p).vmYielded = 0 := by
    rw [(cleared.vmproc p).2.2]
    exact none
  show Ends _ _ (freeYieldedProc header (vm1.without p) p)
  rw [freeYieldedProc_none none1]
  exact cleared

theorem physSlot_ends (len : Nat) : Ends (fun _ => True) (fun _ => True) (physSlot len) := by
  cases physSlot len <;> trivial

theorem regionNew_shares (answers : Answers) (vm : State np) (parent : Fin np)
    (startv length : Nat) (flags : Flags) (memtype : Nat) :
    Ends (fun _ => True) (fun result => Shares vm result.2)
      (regionNew answers vm parent startv length flags memtype) := by
  unfold regionNew
  refine (physSlot_ends length).bind fun _ _ => ?_
  by_cases first : answers.slaballoc vm.calls
  · rw [if_neg (not_not.mpr first)]
    dsimp only
    split
    · exact shares_regions vm _ _
    · exact ⟨⟨fun _ => ⟨rfl, rfl, rfl⟩, rfl, rfl, rfl, rfl, rfl, rfl, rfl, rfl⟩, rfl, Nat.le_succ _⟩
  · rw [if_pos first]
    exact shares_regions vm _ _

theorem mapCopyRegionLoop_shares (answers : Answers) (vr newvr : Ptr) (count first : Nat)
    (vm : State np) :
    Ends (fun _ => True) (fun result => Shares vm result.2)
      (mapCopyRegionLoop answers vr newvr count first vm) := by
  induction count generalizing first vm with
  | zero => exact .refl vm
  | succ count ih =>
      rw [mapCopyRegionLoop]
      refine (physblockGet_ends _ _).bind fun found _ => ?_
      cases found with
      | none => exact ih _ vm
      | some ph =>
          refine (pbReference_shares answers vm _ _ newvr).bind fun linked keeps => ?_
          obtain ⟨pr, vm1⟩ := linked
          cases pr with
          | none => exact keeps
          | some pr => exact (ih _ vm1).imp fun _ later => keeps.trans later

theorem mapCopyRegion_shares (answers : Answers) (vm : State np) (vr : Ptr) :
    Ends (fun _ => True) (fun result => Shares vm result.2) (mapCopyRegion answers vm vr) := by
  unfold mapCopyRegion
  refine (regionNew_shares answers vm _ _ _ _ _).bind fun new keeps => ?_
  obtain ⟨newvr, vm1⟩ := new
  cases newvr with
  | none => exact keeps
  | some newvr =>
      refine (physSlot_ends _).bind fun slots _ =>
        (mapCopyRegionLoop_shares answers vr newvr slots 0 vm1).bind fun copied keeps' => ?_
      obtain ⟨done, vm2⟩ := copied
      have before := keeps.trans keeps'
      cases done with
      | true => exact before
      | false => exact (mapFree_shares vm2 newvr).bind fun vm3 later => before.trans later

theorem mapProcCopyLoop_shares (header : Header np) (answers : Answers) {dst : Fin np}
    (regions : List Ptr) (none : (vm.vmproc dst).vmYielded = 0) :
    Ends (fun _ => True) (fun result => Shares vm result.2)
      (mapProcCopyLoop header answers dst regions vm) := by
  induction regions generalizing vm with
  | nil => exact .refl vm
  | cons vr regions ih =>
      rw [mapProcCopyLoop]
      refine (mapCopyRegion_shares answers vm vr).bind fun copied keeps => ?_
      obtain ⟨newvr, vm1⟩ := copied
      cases newvr with
      | none =>
          have none1 : (vm1.vmproc dst).vmYielded = 0 := (keeps.vmproc dst).2.2.trans none
          exact (mapFreeProc_shares header none1).bind fun vm2 later => keeps.trans later
      | some newvr =>
          refine assert_ends (fun _ => trivial) fun _ => ?_
          have inserted : ∀ vm2 : State np, Shares vm2 (regionInsert vm2 dst newvr) :=
            fun vm2 => ⟨keepsBooks_setRegions vm2 dst _, rfl, Nat.le_refl _⟩
          have before := keeps.trans ((shares_regions vm1
            (update vm1.virRegion newvr { vm1.virRegion newvr with parent := dst }) vm1.calls).trans
            (inserted _))
          exact (ih ((before.vmproc dst).2.2.trans none)).imp fun _ later => before.trans later

theorem mapWriteptRegion_shares (answers : Answers) (vr : Ptr) (count voffset : Nat)
    (vm : State np) :
    Ends (fun _ => True) (fun result => Shares vm result.2)
      (mapWriteptRegion answers vr count voffset vm) := by
  induction count generalizing voffset vm with
  | zero => exact .refl vm
  | succ count ih =>
      rw [mapWriteptRegion]
      refine (physblockGet_ends _ _).bind fun found _ => ?_
      cases found with
      | none => exact ih _ vm
      | some ph =>
          refine (mapPhWritept_shares answers vm vr ph).bind fun written keeps => ?_
          obtain ⟨done, vm1⟩ := written
          cases done with
          | false => exact keeps
          | true => exact (ih _ vm1).imp fun _ later => keeps.trans later

theorem mapWriteptLoop_shares (answers : Answers) (regions : List Ptr) (vm : State np) :
    Ends (fun _ => True) (fun result => Shares vm result.2)
      (mapWriteptLoop answers regions vm) := by
  induction regions generalizing vm with
  | nil => exact .refl vm
  | cons vr regions ih =>
      rw [mapWriteptLoop]
      refine (mapWriteptRegion_shares answers vr _ 0 vm).bind fun written keeps => ?_
      obtain ⟨done, vm1⟩ := written
      cases done with
      | false => exact keeps
      | true => exact (ih vm1).imp fun _ later => keeps.trans later

theorem mapProcCopyFrom_shares (header : Header np) (answers : Answers) {dst : Fin np}
    (src : Fin np) (startSrcVr : Option Ptr) (none : (vm.vmproc dst).vmYielded = 0) :
    Ends (fun _ => True) (fun result => Shares vm result.2)
      (mapProcCopyFrom header answers vm dst src startSrcVr) := by
  unfold mapProcCopyFrom
  dsimp only
  cases startSrcVr.or (vm.vmproc src).vmRegionsAvl.head? with
  | none => trivial
  | some startSrcVr =>
      refine assert_ends (fun _ => trivial) fun _ => assert_ends (fun _ => trivial) fun _ =>
        (mapProcCopyLoop_shares header answers _ none).bind fun copied before => ?_
      obtain ⟨code, vm1⟩ := copied
      cases code with
      | ok =>
          refine (mapWriteptLoop_shares answers _ vm1).bind fun first keeps1 =>
            (mapWriteptLoop_shares answers _ first.2).bind fun second keeps2 => ?_
          exact (before.trans keeps1).trans keeps2
      | esrch | efault | einval | enomem => exact before

theorem mapProcCopy_shares (header : Header np) (answers : Answers) {dst : Fin np} (src : Fin np)
    (none : (vm.vmproc dst).vmYielded = 0) :
    Ends (fun _ => True) (fun result => Shares vm result.2)
      (mapProcCopy header answers vm dst src) := by
  have cleared : Shares vm (vm.without dst) := ⟨keepsBooks_setRegions vm dst [], rfl, Nat.le_refl _⟩
  have none' : ((vm.without dst).vmproc dst).vmYielded = 0 := (cleared.vmproc dst).2.2.trans none
  exact (mapProcCopyFrom_shares header answers src _ none').imp fun _ later => cleared.trans later

/-- Either all regions of a process are copied, or all copies are taken back. -/
theorem mapProcCopy_ok (header : Header np) (answers : Answers) {dst src : Fin np}
    {regions : List Ptr} (list : (vm.vmproc src).vmRegionsAvl = regions)
    (layout : Layout vm src regions) (nonempty : regions ≠ [])
    (clear : (vm.vmproc dst).vmRegionsAvl = []) (unyielded : (vm.vmproc dst).vmYielded = 0) :
    ∃ code vm', mapProcCopy header answers vm dst src = .ok (code, vm') ∧
      ((code = .ok ∧ ∃ copies, Copying vm vm' dst regions copies) ∨
        code = .enomem ∧ Undone vm vm') := by
  have start : vm.without dst = vm := by
    unfold State.without State.setProc
    rw [← clear, Function.update_eq_self]
  have different : src ≠ dst := by
    rintro rfl
    exact nonempty (list.symm.trans clear)
  have initial : Copying vm vm dst [] [] := by
    refine ⟨?_, fun _ _ => rfl, fun _ _ => rfl, .nil, fun r copied => ?_, Nat.le_refl _, .nil, rfl,
      rfl⟩
    · rw [← clear]
    · cases copied
  have outcome := mapProcCopyLoop_ok header answers regions clear unyielded
    (by simpa using layout) initial
  have whole : mapProcCopy header answers vm dst src =
      mapProcCopyFrom header answers (vm.without dst) dst src none := rfl
  rw [whole, start, mapProcCopyFrom, list]
  cases regions with
  | nil => exact absurd rfl nonempty
  | cons first rest =>
      have iter : (first :: rest).dropWhile (fun r =>
          decide ((vm.virRegion r).vaddr ≠ (vm.virRegion first).vaddr)) = first :: rest :=
        List.dropWhile_cons_of_neg (by simp)
      dsimp only [List.head?_cons, Option.none_or]
      rw [assert_true _ (layout.mapped first List.mem_cons_self).parent, iter,
        assert_true _ (by rfl)]
      rcases outcome with ⟨-, vm1, copies, result, copying⟩ | ⟨-, vm1, result, undone⟩
      · rw [result, ok_bind]
        dsimp only
        obtain ⟨calls, written⟩ := copying.written answers different list layout
        refine ⟨.ok, { vm1 with calls }, written, Or.inl ⟨rfl, copies, ?_⟩⟩
        exact ⟨copying.own, copying.others, copying.regions, copying.copied, copying.fresh,
          copying.newRegion, copying.nodup, copying.physBlock, copying.free⟩
      · rw [result, ok_bind]
        exact ⟨.enomem, vm1, rfl, Or.inr ⟨rfl, undone⟩⟩

end Ve482.Vm
