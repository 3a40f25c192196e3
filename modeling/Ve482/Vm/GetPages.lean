import Ve482.Vm.Clean

set_option autoImplicit false

namespace Ve482.Vm

open Function (update)
open Fallible (Ends)

variable {np : Nat} {header : Header np} {answers : Answers} {vm vm' : State np}

/-- A block has got another page, and its own one is free. -/
def State.swapped (vm : State np) (pb : Ptr) (phaddr : Nat) : State np :=
  { (vm.freeMem (abs2click (vm.physBlock pb).phys) 1).setBlock pb
      { vm.physBlock pb with phys := phaddr } with calls := vm.calls + 1 }

theorem Blocks.swapped (blocks : Blocks vm) (pb : Ptr) {phaddr : Nat}
    (aligned : phaddr % vmPageSize = 0) : Blocks (vm.swapped pb phaddr) :=
  (blocks.rephys pb aligned).idle _ _

/-- A page that is there may be got: its address is one of a page, and it may be replaced by a copy
if it is shared. -/
def Guarded (vm : State np) (p : Fin np) (v : Nat) : Prop :=
  (regionAt vm p v ≠ none → v % vmPageSize = 0) ∧
    ∀ r pr, pageAt vm p v = some (r, pr) → 1 < (vm.physBlock pr.ph).refcount →
      (vm.virRegion r).Clonable pr.offset

/-- What becomes of a request to get a block at its next page, with `rest` for the pages after. -/
inductive GotPage (answers : Answers) (vm : State np) (p : Fin np) (v phaddr : Nat)
    (rest : State np → Except Stop (Code × State np)) : Except Stop (Code × State np) → Prop where
  | stopped (stop : Stop) (reason : ¬ (Guarded vm p v ∧ Writes answers)) :
      GotPage answers vm p v phaddr rest (.error stop)
  | absent (whole : regionAt vm p v ≠ none → v % vmPageSize = 0) (reason : pageAt vm p v = none) :
      GotPage answers vm p v phaddr rest (.ok (.einval, vm))
  | refused {r : Ptr} {i : Nat} {pr : PhysRegion} (there : At vm p v r i pr)
      (shared : 1 < (vm.physBlock pr.ph).refcount) (clonable : (vm.virRegion r).Clonable pr.offset)
      (reason : ¬ Granted answers vm.calls vm.free) (vm1 : State np) (blocks1 : Blocks vm1) :
      GotPage answers vm p v phaddr rest (.ok (.einval, vm1))
  | alone {r : Ptr} {i : Nat} {pr : PhysRegion} (there : At vm p v r i pr)
      (one : (vm.physBlock pr.ph).refcount = 1) :
      GotPage answers vm p v phaddr rest (rest (vm.swapped pr.ph phaddr))
  | cloned {r : Ptr} {i : Nat} {pr : PhysRegion} (there : At vm p v r i pr)
      (shared : 1 < (vm.physBlock pr.ph).refcount) (clonable : (vm.virRegion r).Clonable pr.offset)
      (granted : Granted answers vm.calls vm.free) (click : Nat)
      (memory : answers.allocMem (vm.calls + 2) 1 vm.free = some click) :
      GotPage answers vm p v phaddr rest
        (rest ((vm.cloned r i pr.ph click).swapped vm.newBlock phaddr))

/-- The rest of a page once it is the only one of its block. -/
theorem swap_page (answers : Answers) {vm1 : State np} {r : Ptr} (pr : PhysRegion) (phaddr : Nat)
    (rest : State np → Except Stop (Code × State np))
    (one : (vm1.physBlock pr.ph).refcount = 1) (aligned : (vm1.virRegion r).vaddr % vmPageSize = 0)
    (offset : pr.offset % vmPageSize = 0) :
    (do
      assert ((vm1.physBlock pr.ph).refcount = 1) .getblock
      let vm := vm1.freeMem (abs2click (vm1.physBlock pr.ph).phys) 1
      let vm := vm.setBlock pr.ph { vm.physBlock pr.ph with phys := phaddr }
      match ← mapPhWritept answers vm r pr with
      | (false, _) => .error (.panic .getblock)
      | (true, vm) => rest vm) =
      if answers.ptWritemap vm1.calls then rest (vm1.swapped pr.ph phaddr)
      else .error (.panic .getblock) := by
  rw [assert_true _ one]
  dsimp only
  generalize changed : (vm1.freeMem (abs2click (vm1.physBlock pr.ph).phys) 1).setBlock pr.ph _ = vm2
  have counted : 0 < (vm2.physBlock pr.ph).refcount := by
    rw [← changed]
    simp [State.setBlock, State.freeMem, one]
  have aligned2 : (vm2.virRegion r).vaddr % vmPageSize = 0 := by
    rw [← changed]
    exact aligned
  have after : (answers.ptWritemap vm2.calls, vm2.called) =
      (answers.ptWritemap vm1.calls, vm1.swapped pr.ph phaddr) := by
    rw [← changed]
    rfl
  rw [mapPhWritept_ok answers vm2 aligned2 offset counted, ok_bind, after]
  cases answers.ptWritemap vm1.calls <;> rfl

/-- What `getblock` can do with a page. -/
theorem getPages_succ (header : Header np) (answers : Answers) (blocks : Blocks vm) (p : Fin np)
    (pages : Nat) (vaddr : VirBytes) (phaddr : Nat) :
    GotPage answers vm p vaddr.toNat phaddr
      (getPages header answers p pages (vaddr + BitVec.ofNat 32 vmPageSize) (phaddr + vmPageSize))
      (getPages header answers p (pages + 1) vaddr phaddr vm) := by
  rw [getPages]
  by_cases whole : regionAt vm p vaddr.toNat ≠ none → vaddr.toNat % vmPageSize = 0
  · cases page : pageAt vm p vaddr.toNat with
    | none =>
        rw [getCleanPhysRegion_absent blocks page whole]
        exact .absent whole page
    | some found =>
        obtain ⟨r, pr⟩ := found
        have inRegion : regionAt vm p vaddr.toNat ≠ none := by
          intro outside
          rw [pageAt, outside] at page
          cases page
        obtain ⟨i, there⟩ := blocks.locate page (whole inRegion)
        have aligned := blocks.aligned r there.region
        have offset : pr.offset % vmPageSize = 0 := by
          rw [(blocks.sound r there.region).offsets i pr there.small there.resident]
          exact (offset_slot i).2
        by_cases shared : 1 < (vm.physBlock pr.ph).refcount
        · have clean := getCleanPhysRegion_shared header answers blocks there shared
          revert clean
          generalize getCleanPhysRegion header answers vm p vaddr.toNat = outcome
          intro clean
          cases outcome with
          | error stop =>
              refine .stopped stop fun both => clean ⟨both.1.2 r pr page shared, ?_⟩
              exact (both.2 _).2
          | ok result =>
              rcases clean with ⟨clonable, ⟨granted, click, memory, rfl⟩ | ⟨isNone, refused, blocks1⟩⟩
              · have one : ((vm.cloned r i pr.ph click).physBlock vm.newBlock).refcount = 1 := by
                  have own : (vm.cloned r i pr.ph click).physBlock vm.newBlock =
                    ⟨click2abs click, 1⟩ := Function.update_self _ _ _
                  rw [own]
                have aligned1 : ((vm.cloned r i pr.ph click).virRegion r).vaddr % vmPageSize = 0 :=
                  (blocks.cloned there.toSlot there.resident click).aligned r there.region
                have swap := swap_page answers ⟨vm.newBlock, i * vmPageSize⟩ phaddr
                  (getPages header answers p pages (vaddr + BitVec.ofNat 32 vmPageSize)
                    (phaddr + vmPageSize)) one aligned1 (offset_slot i).2
                refine Eq.subst (motive := GotPage answers vm p vaddr.toNat phaddr _) swap.symm ?_
                split
                · exact .cloned there shared clonable granted click memory
                · rename_i failed
                  exact .stopped _ fun both => failed (both.2 _).1
              · obtain ⟨found, vm1⟩ := result
                obtain rfl : found = none := isNone
                exact .refused there shared clonable refused vm1 blocks1
        · obtain ⟨one, clean⟩ := getCleanPhysRegion_alone header answers blocks there shared
          rw [clean]
          have swap := swap_page answers pr phaddr (getPages header answers p pages
            (vaddr + BitVec.ofNat 32 vmPageSize) (phaddr + vmPageSize)) one aligned offset
          refine Eq.subst (motive := GotPage answers vm p vaddr.toNat phaddr _) swap.symm ?_
          split
          · exact .alone there one
          · rename_i failed
            exact .stopped _ fun both => failed (both.2 _).1
  · obtain ⟨inRegion, unaligned⟩ := Classical.not_imp.mp whole
    obtain ⟨r, found⟩ := Option.ne_none_iff_exists'.mp inRegion
    unfold getCleanPhysRegion
    rw [mapLookup_unaligned blocks found unaligned]
    exact .stopped _ fun both => whole both.1.1

/-- The address of a page of a request. -/
def pageAddress (v : VirBytes) (k : Nat) : VirBytes := v + BitVec.ofNat 32 (k * vmPageSize)

theorem pageAddress_zero (v : VirBytes) : pageAddress v 0 = v := by
  simp [pageAddress]

theorem pageAddress_succ (v : VirBytes) (k : Nat) :
    pageAddress (v + BitVec.ofNat 32 vmPageSize) k = pageAddress v (k + 1) := by
  rw [pageAddress, pageAddress, BitVec.add_assoc, ← BitVec.ofNat_add, Nat.succ_mul, Nat.add_comm]

theorem pageAddress_aligned {v : VirBytes} (aligned : v.toNat % vmPageSize = 0) (k : Nat) :
    (pageAddress v k).toNat % vmPageSize = 0 := by
  rw [pageAddress, BitVec.toNat_add, BitVec.toNat_ofNat]
  unfold vmPageSize at *
  omega

/-- A request is too short to come back to a page. -/
theorem pageAddress_ne (v : VirBytes) {k : Nat} (positive : 0 < k) (short : k < 2 ^ 20) :
    (pageAddress v k).toNat ≠ v.toNat := by
  rw [pageAddress, BitVec.toNat_add, BitVec.toNat_ofNat]
  have small := v.isLt
  unfold vmPageSize
  omega

/-- A request finds the same pages. -/
structure Alike (vm vm' : State np) (p : Fin np) (pages : Nat) (v : VirBytes) : Prop where
  region : ∀ k < pages, regionAt vm' p (pageAddress v k).toNat = regionAt vm p (pageAddress v k).toNat
  page : ∀ k < pages, pageAt vm' p (pageAddress v k).toNat = pageAt vm p (pageAddress v k).toNat
  flags : ∀ r, (vm'.virRegion r).flags = (vm.virRegion r).flags ∧
    (vm'.virRegion r).length = (vm.virRegion r).length

theorem Alike.tail {p : Fin np} {pages : Nat} {v : VirBytes}
    (alike : Alike vm vm' p (pages + 1) v) :
    Alike vm vm' p pages (v + BitVec.ofNat 32 vmPageSize) := by
  refine ⟨fun k small => ?_, fun k small => ?_, alike.flags⟩
  · rw [pageAddress_succ]
    exact alike.region (k + 1) (Nat.succ_lt_succ small)
  · rw [pageAddress_succ]
    exact alike.page (k + 1) (Nat.succ_lt_succ small)

theorem Alike.head {p : Fin np} {pages : Nat} {v : VirBytes}
    (alike : Alike vm vm' p (pages + 1) v) :
    regionAt vm' p v.toNat = regionAt vm p v.toNat ∧ pageAt vm' p v.toNat = pageAt vm p v.toNat := by
  have region := alike.region 0 (Nat.succ_pos pages)
  have page := alike.page 0 (Nat.succ_pos pages)
  rw [pageAddress_zero] at region page
  exact ⟨region, page⟩

theorem regionAt_setSlot (vm : State np) (r : Ptr) (i : Nat) (slot : Option PhysRegion) (p : Fin np)
    (v : Nat) : regionAt (vm.setSlot r i slot) p v = regionAt vm p v := by
  unfold regionAt regionSearch
  simp only [setSlot_place]
  rfl

/-- The other pages are found as before. -/
theorem Blocks.alike (blocks : Blocks vm) {p : Fin np} {v : VirBytes} {r : Ptr} {i : Nat}
    {pr : PhysRegion} (there : At vm p v.toNat r i pr) (pages : Nat) (short : pages < 2 ^ 20)
    (slot : Option PhysRegion) (same : vm'.vmproc = vm.vmproc)
    (changed : vm'.virRegion = (vm.setSlot r i slot).virRegion) :
    Alike vm vm' p pages (v + BitVec.ofNat 32 vmPageSize) := by
  have region : ∀ a, regionAt vm' p a = regionAt vm p a := by
    intro a
    rw [← regionAt_setSlot vm r i slot p a]
    unfold regionAt regionSearch
    rw [same, changed]
    rfl
  have start := blocks.aligned r there.region
  have place := there.address
  have aligned : v.toNat % vmPageSize = 0 := by
    unfold vmPageSize at *
    omega
  refine ⟨fun k _ => region _, fun k small => ?_, fun other => ?_⟩
  · rw [pageAddress_succ]
    have whole := pageAddress_aligned aligned (k + 1)
    have different := pageAddress_ne v (Nat.succ_pos k) (by omega)
    generalize (pageAddress v (k + 1)).toNat = a at whole different
    unfold pageAt
    rw [region]
    cases found : regionAt vm p a with
    | none => rfl
    | some other =>
        obtain ⟨-, where'⟩ := blocks.slotAt found whole
        rw [Option.bind_some, Option.bind_some, changed]
        by_cases isRegion : other = r
        · subst isRegion
          have distinct : (a - (vm.virRegion other).vaddr) / vmPageSize ≠ i := by
            intro equal
            rw [equal] at where'
            omega
          simp [State.setSlot, Function.update_of_ne distinct]
        · simp [State.setSlot, isRegion]
  · rw [changed]
    by_cases isRegion : other = r
    · subst isRegion
      simp [State.setSlot]
    · simp [State.setSlot, isRegion]

/-- The pages of a request, up to the first one that is not got: `stopped` is to hold if a page may
not be touched, and `missing` if there is none or no memory to copy it. The blocks `cloned` have
lost references to earlier pages of the request. -/
def Walk (answers : Answers) (vm : State np) (p : Fin np) (stopped missing : Prop) :
    Nat → VirBytes → List Ptr → Nat → Finset Nat → Prop
  | 0, _, _, _, _ => True
  | pages + 1, v, cloned, call, free =>
      if regionAt vm p v.toNat ≠ none ∧ v.toNat % vmPageSize ≠ 0 then stopped
      else
        let v' := v + BitVec.ofNat 32 vmPageSize
        match pageAt vm p v.toNat with
        | none => missing
        | some (r, pr) =>
            if 1 < (vm.physBlock pr.ph).refcount - cloned.count pr.ph then
              if ¬ (vm.virRegion r).Clonable pr.offset then stopped
              else if ¬ Granted answers call free then missing
              else Walk answers vm p stopped missing pages v' (pr.ph :: cloned) (call + 6) free
            else
              let click := abs2click (vm.physBlock pr.ph).phys
              Walk answers vm p stopped missing pages v' cloned (call + 1)
                (free ∪ Finset.Ico click (click + 1))

instance Walk.decidable (answers : Answers) (vm : State np) (p : Fin np) (stopped missing : Prop)
    [Decidable stopped] [Decidable missing] : (pages : Nat) → (v : VirBytes) → (cloned : List Ptr) →
    (call : Nat) → (free : Finset Nat) →
    Decidable (Walk answers vm p stopped missing pages v cloned call free)
  | 0, _, _, _, _ => .isTrue trivial
  | pages + 1, v, cloned, call, free =>
      have ih := Walk.decidable answers vm p stopped missing pages
      match found : pageAt vm p v.toNat with
      | none => decidable_of_iff
          (if regionAt vm p v.toNat ≠ none ∧ v.toNat % vmPageSize ≠ 0 then stopped else missing)
          (by rw [Walk, found])
      | some (r, pr) =>
          let v' := v + BitVec.ofNat 32 vmPageSize
          let click := abs2click (vm.physBlock pr.ph).phys
          decidable_of_iff
            (if regionAt vm p v.toNat ≠ none ∧ v.toNat % vmPageSize ≠ 0 then stopped
            else if 1 < (vm.physBlock pr.ph).refcount - cloned.count pr.ph then
              if ¬ (vm.virRegion r).Clonable pr.offset then stopped
              else if ¬ Granted answers call free then missing
              else Walk answers vm p stopped missing pages v' (pr.ph :: cloned) (call + 6) free
            else Walk answers vm p stopped missing pages v' cloned (call + 1)
              (free ∪ Finset.Ico click (click + 1)))
            (by rw [Walk, found])

theorem walk_congr {p : Fin np} {stopped missing : Prop} {pages : Nat} {v : VirBytes}
    {cloned cloned' : List Ptr} {call : Nat} {free : Finset Nat} (alike : Alike vm vm' p pages v)
    (same : ∀ k < pages, ∀ r pr, pageAt vm p (pageAddress v k).toNat = some (r, pr) →
      (vm'.physBlock pr.ph).refcount - cloned'.count pr.ph =
          (vm.physBlock pr.ph).refcount - cloned.count pr.ph ∧
        (vm'.physBlock pr.ph).phys = (vm.physBlock pr.ph).phys) :
    Walk answers vm' p stopped missing pages v cloned' call free ↔
      Walk answers vm p stopped missing pages v cloned call free := by
  induction pages generalizing v cloned cloned' call free with
  | zero => exact Iff.rfl
  | succ pages ih =>
      obtain ⟨region, page⟩ := alike.head
      have later : ∀ k < pages, ∀ r pr,
          pageAt vm p (pageAddress (v + BitVec.ofNat 32 vmPageSize) k).toNat = some (r, pr) →
          (vm'.physBlock pr.ph).refcount - cloned'.count pr.ph =
              (vm.physBlock pr.ph).refcount - cloned.count pr.ph ∧
            (vm'.physBlock pr.ph).phys = (vm.physBlock pr.ph).phys := by
        intro k small r pr found
        rw [pageAddress_succ] at found
        exact same (k + 1) (Nat.succ_lt_succ small) r pr found
      rw [Walk, Walk, region, page]
      cases found : pageAt vm p v.toNat with
      | none => exact Iff.rfl
      | some place =>
          obtain ⟨r, pr⟩ := place
          obtain ⟨counts, phys⟩ :=
            same 0 (Nat.succ_pos pages) r pr (by rw [pageAddress_zero]; exact found)
          have clonable : (vm'.virRegion r).Clonable pr.offset ↔
              (vm.virRegion r).Clonable pr.offset := by
            unfold VirRegion.Clonable
            rw [(alike.flags r).1, (alike.flags r).2]
          dsimp only
          simp only [counts, phys, clonable]
          split_ifs with unaligned shared clonable' granted
          · exact Iff.rfl
          · refine ih alike.tail fun k small r' pr' found' => ?_
            obtain ⟨same, phys'⟩ := later k small r' pr' found'
            refine ⟨?_, phys'⟩
            rw [List.count_cons, List.count_cons]
            omega
          · exact Iff.rfl
          · exact Iff.rfl
          · exact ih alike.tail later

/-- The blocks of a page that is there are in use. -/
theorem Blocks.known (blocks : Blocks vm) {p : Fin np} {v : Nat} {r : Ptr} {pr : PhysRegion}
    (found : pageAt vm p v = some (r, pr)) (aligned : v % vmPageSize = 0) : pr.ph ≠ vm.newBlock := by
  obtain ⟨i, there⟩ := blocks.locate found aligned
  have counted := blocks.referenced there.toSlot there.resident
  intro same
  rw [same, blocks.fresh _ (Nat.le_refl _)] at counted
  exact Nat.lt_irrefl 0 counted

theorem At.aligned {p : Fin np} {v : Nat} {r : Ptr} {i : Nat} {pr : PhysRegion}
    (there : At vm p v r i pr) (blocks : Blocks vm) : v % vmPageSize = 0 := by
  have start := blocks.aligned r there.region
  have place := there.address
  unfold vmPageSize at *
  omega

theorem At.found {p : Fin np} {v : Nat} {r : Ptr} {i : Nat} {pr : PhysRegion}
    (there : At vm p v r i pr) (blocks : Blocks vm) : pageAt vm p v = some (r, pr) := by
  have lookup := there.lookup
  cases inRegion : regionAt vm p v with
  | none =>
      rw [mapLookup_outside inRegion] at lookup
      cases lookup
  | some other =>
      rw [mapLookup_inside blocks inRegion (there.aligned blocks)] at lookup
      obtain ⟨rfl, resident⟩ := Prod.mk.inj (Option.some.inj (Except.ok.inj lookup))
      rw [pageAt, inRegion, Option.bind_some, resident]
      rfl

/-- A page that is the only one of its block is not that of another slot. -/
theorem Blocks.alone (blocks : Blocks vm) {p : Fin np} {v v' : Nat} {r r' : Ptr} {i i' : Nat}
    {pr pr' : PhysRegion} (there : At vm p v r i pr) (one : (vm.physBlock pr.ph).refcount = 1)
    (other : At vm p v' r' i' pr') (different : v' ≠ v) : pr'.ph ≠ pr.ph := by
  intro same
  have slots : ((vm.parted r i pr.ph).virRegion r').physblocks i' = some pr' := by
    by_cases isRegion : r' = r
    · subst isRegion
      have distinct : i' ≠ i := by
        rintro rfl
        exact different (other.address.trans there.address.symm)
      rw [parted_region]
      exact (Function.update_of_ne distinct _ _).trans other.resident
    · have kept : (vm.parted r i pr.ph).virRegion r' = vm.virRegion r' :=
        Function.update_of_ne isRegion _ _
      rw [kept]
      exact other.resident
  have lengths : ((vm.parted r i pr.ph).virRegion r').length = (vm.virRegion r').length := by
    by_cases isRegion : r' = r
    · subst isRegion
      rw [parted_region]
    · exact congrArg VirRegion.length (Function.update_of_ne isRegion _ _)
  have counted := (blocks.parted there.toSlot there.resident).referenced
    ⟨other.region, lengths ▸ other.small⟩ slots
  have none : ((vm.parted r i pr.ph).physBlock pr'.ph).refcount = 0 := by
    rw [same]
    simp [State.parted, State.setBlock, State.setSlot, one]
  omega

/-- The pages after one that was the only one of its block. -/
theorem swapped_walk (blocks : Blocks vm) {p : Fin np} {v : VirBytes} {r : Ptr} {i : Nat}
    {pr : PhysRegion} (there : At vm p v.toNat r i pr) (one : (vm.physBlock pr.ph).refcount = 1)
    (phaddr : Nat) {pages : Nat} (short : pages < 2 ^ 20) {stopped missing : Prop} {call : Nat}
    {free : Finset Nat} :
    Walk answers (vm.swapped pr.ph phaddr) p stopped missing pages
        (v + BitVec.ofNat 32 vmPageSize) [] call free ↔
      Walk answers vm p stopped missing pages (v + BitVec.ofNat 32 vmPageSize) [] call free := by
  have slot : update (vm.virRegion r).physblocks i (some pr) = (vm.virRegion r).physblocks := by
    rw [← there.resident, Function.update_eq_self]
  refine walk_congr (blocks.alike there pages (by omega) (some pr) rfl ?_) fun k small r' pr' found => ?_
  · simp [State.swapped, State.setBlock, State.freeMem, State.setSlot, slot]
  · rw [pageAddress_succ] at found
    obtain ⟨i', other⟩ := blocks.locate found (pageAddress_aligned (there.aligned blocks) (k + 1))
    have different := blocks.alone there one other (pageAddress_ne v (Nat.succ_pos k) (by omega))
    simp [State.swapped, State.setBlock, State.freeMem, different]

/-- The pages after one that has been copied. -/
theorem cloned_walk (blocks : Blocks vm) {p : Fin np} {v : VirBytes} {r : Ptr} {i : Nat}
    {pr : PhysRegion} (there : At vm p v.toNat r i pr) (click phaddr : Nat) {pages : Nat}
    (short : pages < 2 ^ 20) {stopped missing : Prop} {call : Nat} {free : Finset Nat} :
    Walk answers ((vm.cloned r i pr.ph click).swapped vm.newBlock phaddr) p stopped missing pages
        (v + BitVec.ofNat 32 vmPageSize) [] call free ↔
      Walk answers vm p stopped missing pages (v + BitVec.ofNat 32 vmPageSize) [pr.ph] call free := by
  refine walk_congr (blocks.alike there pages (by omega) (some ⟨vm.newBlock, i * vmPageSize⟩) rfl ?_)
    fun k small r' pr' found => ?_
  · simp [State.swapped, State.cloned, State.filled, State.parted, State.setBlock, State.freeMem,
      State.setSlot]
  · rw [pageAddress_succ] at found
    have known := blocks.known found (pageAddress_aligned (there.aligned blocks) (k + 1))
    have kept : ((vm.cloned r i pr.ph click).swapped vm.newBlock phaddr).physBlock pr'.ph =
        (vm.parted r i pr.ph).physBlock pr'.ph := by
      simp [State.swapped, State.cloned, State.filled, State.setBlock, State.freeMem, known,
        State.parted, State.setSlot]
    rw [kept]
    by_cases same : pr'.ph = pr.ph
    · rw [same]
      simp [State.parted, State.setBlock, State.setSlot]
    · simp [State.parted, State.setBlock, State.setSlot, same, Ne.symm same]

theorem abs2click_click2abs (click : Nat) : abs2click (click2abs click) = click :=
  Nat.mul_div_cancel click (by decide)

/-- A page that was free and has been swapped is free again. -/
theorem cloned_free {r : Ptr} {i : Nat} {pb : Ptr} {click : Nat} (phaddr : Nat)
    (memory : answers.allocMem (vm.calls + 2) 1 vm.free = some click) :
    ((vm.cloned r i pb click).swapped vm.newBlock phaddr).free = vm.free := by
  have inFree := answers.allocMem_free _ _ _ _ memory 0 Nat.one_pos
  have page : ((vm.cloned r i pb click).physBlock vm.newBlock).phys = click2abs click := by
    simp [State.cloned, State.filled, State.parted, State.setSlot, State.setBlock]
  show vm.free.erase click ∪ Finset.Ico (abs2click _) (abs2click _ + 1) = vm.free
  rw [page, abs2click_click2abs]
  ext other
  simp only [Finset.mem_union, Finset.mem_erase, Finset.mem_Ico]
  constructor
  · rintro (⟨-, before⟩ | bounds)
    · exact before
    · have isClick : other = click + 0 := by omega
      rwa [isClick]
  · intro before
    by_cases isClick : other = click
    · exact Or.inr (by omega)
    · exact Or.inl ⟨isClick, before⟩

/-- How far a request comes. -/
theorem getPages_walk (header : Header np) (answers : Answers) (p : Fin np) (stopped missing : Prop)
    (pages : Nat) (v : VirBytes) {phaddr : Nat} (blocks : Blocks vm)
    (aligned : phaddr % vmPageSize = 0) (short : pages < 2 ^ 20) :
    Ends (fun _ => Writes answers →
        (Walk answers vm p stopped missing pages v [] vm.calls vm.free ↔ stopped))
      (fun result => Blocks result.2 ∧ (result.1 = .ok ∨ result.1 = .einval) ∧
        (Walk answers vm p stopped missing pages v [] vm.calls vm.free ↔
          result.1 = .ok ∨ missing))
      (getPages header answers p pages v phaddr vm) := by
  induction pages generalizing v phaddr vm with
  | zero => exact ⟨blocks, Or.inl rfl, iff_of_true trivial (Or.inl rfl)⟩
  | succ pages ih =>
      have step := getPages_succ header answers blocks p pages v phaddr
      have next : (phaddr + vmPageSize) % vmPageSize = 0 := by rw [Nat.add_mod_right, aligned]
      revert step
      generalize getPages header answers p (pages + 1) v phaddr vm = outcome
      intro step
      rw [Walk]
      cases step with
      | stopped stop reason =>
          intro writes
          by_cases whole : regionAt vm p v.toNat ≠ none → v.toNat % vmPageSize = 0
          · have bad : ¬ ∀ r pr, pageAt vm p v.toNat = some (r, pr) →
                1 < (vm.physBlock pr.ph).refcount → (vm.virRegion r).Clonable pr.offset :=
              fun all => reason ⟨⟨whole, all⟩, writes⟩
            push Not at bad
            obtain ⟨r, pr, found, shared, unclonable⟩ := bad
            rw [if_neg fun both => both.2 (whole both.1), found]
            dsimp only
            rw [if_pos (by simpa using shared), if_pos unclonable]
          · rw [if_pos (Classical.not_imp.mp whole)]
      | absent whole reason =>
          rw [if_neg fun both => both.2 (whole both.1), reason]
          exact ⟨blocks, Or.inr rfl, by simp⟩
      | @refused r i pr there shared clonable refused vm1 blocks1 =>
          rw [if_neg fun both => both.2 (there.aligned blocks), there.found blocks]
          dsimp only
          rw [if_pos (by simpa using shared), if_neg (not_not.mpr clonable), if_pos refused]
          exact ⟨blocks1, Or.inr rfl, by simp⟩
      | @alone r i pr there one =>
          rw [if_neg fun both => both.2 (there.aligned blocks), there.found blocks]
          dsimp only
          rw [if_neg (by simp [one])]
          have later := ih (v + BitVec.ofNat 32 vmPageSize) (blocks.swapped pr.ph aligned) next
            (by omega)
          rw [swapped_walk blocks there one phaddr (by omega)] at later
          exact later
      | @cloned r i pr there shared clonable granted click memory =>
          rw [if_neg fun both => both.2 (there.aligned blocks), there.found blocks]
          dsimp only
          rw [if_pos (by simpa using shared), if_neg (not_not.mpr clonable),
            if_neg (not_not.mpr granted)]
          have blocks1 := blocks.cloned there.toSlot there.resident click
          have later := ih (v + BitVec.ofNat 32 vmPageSize) (blocks1.swapped vm.newBlock aligned) next
            (by omega)
          rw [cloned_walk blocks there click phaddr (by omega), cloned_free phaddr memory] at later
          exact later

end Ve482.Vm
