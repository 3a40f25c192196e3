import Mathlib.Data.List.TakeWhile
import Ve482.Vm.Bookkeeping
import Ve482.Vm.Slots

set_option autoImplicit false

namespace Ve482.Vm

open Function (update)

variable {np : Nat} {header : Header np} {answers : Answers} {vm vm' : State np}

namespace State

/-- The blocks have got references, as many as they occur in a list. -/
def shared (vm : State np) (refs : List Ptr) : State np :=
  { vm with physBlock := fun pb =>
      { vm.physBlock pb with refcount := (vm.physBlock pb).refcount + refs.count pb } }

def unshared (vm : State np) (refs : List Ptr) : State np :=
  { vm with physBlock := fun pb =>
      { vm.physBlock pb with refcount := (vm.physBlock pb).refcount - refs.count pb } }

end State

theorem unshared_nil (vm : State np) : vm.unshared [] = vm := rfl

theorem shared_cons (vm : State np) (pb : Ptr) (refs : List Ptr) :
    (vm.setBlock pb { vm.physBlock pb with refcount := (vm.physBlock pb).refcount + 1 }).shared refs =
      vm.shared (pb :: refs) := by
  simp only [State.shared, State.setBlock, State.mk.injEq, true_and, and_true]
  funext other
  by_cases same : other = pb
  · subst same
    simp only [Function.update_self, List.count_cons_self]
    congr 1
    omega
  · rw [Function.update_of_ne same, List.count_cons_of_ne (Ne.symm same)]

theorem unshared_cons (vm : State np) (pb : Ptr) (refs : List Ptr) :
    (vm.setBlock pb { vm.physBlock pb with refcount := (vm.physBlock pb).refcount - 1 }).unshared
      refs = vm.unshared (pb :: refs) := by
  simp only [State.unshared, State.setBlock, State.mk.injEq, true_and, and_true]
  funext other
  by_cases same : other = pb
  · subst same
    simp only [Function.update_self, List.count_cons_self]
    congr 1
    omega
  · rw [Function.update_of_ne same, List.count_cons_of_ne (Ne.symm same)]

/-- The slots from `first` on are empty. -/
def VirRegion.cleared (region : VirRegion np) (first count : Nat) : VirRegion np :=
  { region with physblocks := fun i =>
      if first ≤ i ∧ i < first + count then none else region.physblocks i }

/-- The pages of a region are freed while their blocks have other references. -/
theorem mapSubfreeLoop_shared {r : Ptr} (count first : Nat) (sound : (vm.virRegion r).Sound)
    (inside : first + count = (vm.virRegion r).length / vmPageSize)
    (others : ∀ pb, 0 < ((vm.virRegion r).refs first count).count pb →
      ((vm.virRegion r).refs first count).count pb < (vm.physBlock pb).refcount) :
    mapSubfreeLoop r 0 (vm.virRegion r).length count (first * vmPageSize) vm =
      .ok { vm.unshared ((vm.virRegion r).refs first count) with
        virRegion := update vm.virRegion r ((vm.virRegion r).cleared first count) } := by
  induction count generalizing first vm with
  | zero =>
      have same : (vm.virRegion r).cleared first 0 = vm.virRegion r := by
        simp only [VirRegion.cleared]
        congr 1
        funext i
        exact if_neg (by omega)
      rw [same, Function.update_eq_self]
      rfl
  | succ count ih =>
      have small : first < (vm.virRegion r).length / vmPageSize := by omega
      have next : first * vmPageSize + vmPageSize = (first + 1) * vmPageSize :=
        (Nat.succ_mul first vmPageSize).symm
      rw [mapSubfreeLoop, sound.get small]
      cases resident : (vm.virRegion r).physblocks first with
      | none =>
          rw [VirRegion.refs_none count resident] at others ⊢
          have done := ih (first + 1) sound (by omega) others
          have same : (vm.virRegion r).cleared (first + 1) count =
              (vm.virRegion r).cleared first (count + 1) := by
            simp only [VirRegion.cleared]
            congr 1
            funext i
            by_cases isFirst : i = first
            · subst isFirst
              rw [if_neg (by omega), if_pos (by omega), resident]
            · by_cases within : first + 1 ≤ i ∧ i < first + 1 + count
              · rw [if_pos within, if_pos (by omega)]
              · rw [if_neg within, if_neg (by omega)]
          rw [← same, ← done, ← next]
          rfl
      | some pr =>
          have offset := sound.offsets first pr small resident
          have last : first * vmPageSize < (vm.virRegion r).length := slot_lt small
          rw [VirRegion.refs_some count resident] at others ⊢
          have shared : 1 < (vm.physBlock pr.ph).refcount := by
            have here := others pr.ph (by simp)
            rw [List.count_cons_self] at here
            omega
          rw [ok_bind]
          dsimp only
          rw [assert_true _ (Nat.zero_le _), assert_true _ (offset ▸ last),
            pbUnreferenced_shared sound small resident shared, ok_bind]
          generalize after : (vm.setBlock pr.ph { vm.physBlock pr.ph with
            refcount := (vm.physBlock pr.ph).refcount - 1 }).setSlot r first none = vm1
          have region : vm1.virRegion r = { vm.virRegion r with
              physblocks := update (vm.virRegion r).physblocks first none } := by
            rw [← after]
            exact Function.update_self _ _ _
          have kept : ∀ i, i ≠ first →
              (vm1.virRegion r).physblocks i = (vm.virRegion r).physblocks i := by
            intro i different
            rw [region]
            exact Function.update_of_ne different _ _
          have length : (vm1.virRegion r).length = (vm.virRegion r).length := by rw [region]
          have sound1 : (vm1.virRegion r).Sound := by
            refine ⟨length ▸ sound.aligned, fun i other inside found => ?_⟩
            have different : i ≠ first := by
              rintro rfl
              rw [region] at found
              simp at found
            rw [kept i different] at found
            exact sound.offsets i other (length ▸ inside) found
          have refs : (vm1.virRegion r).refs (first + 1) count =
              (vm.virRegion r).refs (first + 1) count :=
            VirRegion.refs_congr fun i low _ => kept i (by omega)
          have others1 : ∀ pb, 0 < ((vm1.virRegion r).refs (first + 1) count).count pb →
              ((vm1.virRegion r).refs (first + 1) count).count pb < (vm1.physBlock pb).refcount := by
            intro pb positive
            rw [refs] at positive ⊢
            have before := others pb
            rw [← after]
            show _ < (update vm.physBlock pr.ph _ pb).refcount
            by_cases same : pb = pr.ph
            · subst same
              rw [List.count_cons_self] at before
              rw [Function.update_self]
              have := before (by omega)
              show _ < (vm.physBlock pr.ph).refcount - 1
              omega
            · rw [List.count_cons_of_ne (Ne.symm same)] at before
              rw [Function.update_of_ne same]
              exact before positive
          have done := ih (first + 1) sound1 (by rw [length]; omega) others1
          rw [length, refs] at done
          rw [next, done, ← unshared_cons]
          have cleared : (vm1.virRegion r).cleared (first + 1) count =
              (vm.virRegion r).cleared first (count + 1) := by
            rw [region]
            simp only [VirRegion.cleared]
            congr 1
            funext i
            by_cases isFirst : i = first
            · subst isFirst
              rw [if_neg (by omega), if_pos (by omega), Function.update_self]
            · rw [Function.update_of_ne isFirst]
              by_cases within : first + 1 ≤ i ∧ i < first + 1 + count
              · rw [if_pos within, if_pos (by omega)]
              · rw [if_neg within, if_neg (by omega)]
          rw [cleared, ← after]
          simp only [State.unshared, State.setSlot, State.setBlock, Function.update_idem]

def VirRegion.freed (region : VirRegion np) : VirRegion np :=
  { region with physblocks := fun _ => none }

theorem mapFree_shared (vm : State np) {r : Ptr} (sound : (vm.virRegion r).Sound)
    (others : ∀ pb, 0 < (vm.virRegion r).allRefs.count pb →
      (vm.virRegion r).allRefs.count pb < (vm.physBlock pb).refcount) :
    mapFree vm r = .ok { vm.unshared (vm.virRegion r).allRefs with
      virRegion := update vm.virRegion r (vm.virRegion r).freed } := by
  have pages : ((vm.virRegion r).length + vmPageSize - 1) / vmPageSize =
      (vm.virRegion r).length / vmPageSize := by
    have aligned := sound.aligned
    unfold vmPageSize at aligned ⊢
    omega
  have done := mapSubfreeLoop_shared _ 0 sound (Nat.zero_add _) others
  rw [Nat.zero_mul] at done
  unfold mapFree mapSubfree
  rw [Nat.zero_add, pages, done, ok_bind]
  dsimp only
  rw [Function.update_idem, Function.update_self]
  rfl

theorem unshared_append (vm : State np) (first second : List Ptr) :
    (vm.unshared first).unshared second = vm.unshared (first ++ second) := by
  simp only [State.unshared, List.count_append, Nat.sub_sub]

/-- The regions of a process are freed while their blocks have other references. -/
theorem mapFreeRegions_shared {regions : List Ptr} (p : Fin np) (nodup : regions.Nodup)
    (sound : ∀ r ∈ regions, (vm.virRegion r).Sound)
    (others : ∀ pb, 0 < (procRefs vm regions).count pb →
      (procRefs vm regions).count pb < (vm.physBlock pb).refcount) :
    ∃ virRegion vmRegionsAvl, mapFreeRegions p regions vm =
        .ok { (vm.unshared (procRefs vm regions)).setProc p { vm.vmproc p with vmRegionsAvl } with
          virRegion } ∧
      ∀ r, r ∉ regions → virRegion r = vm.virRegion r := by
  induction regions generalizing vm with
  | nil =>
      refine ⟨vm.virRegion, (vm.vmproc p).vmRegionsAvl, ?_, fun _ _ => rfl⟩
      simp [mapFreeRegions, procRefs, unshared_nil, State.setProc]
  | cons r regions ih =>
      have later : r ∉ regions := (List.nodup_cons.mp nodup).1
      have split : procRefs vm (r :: regions) = (vm.virRegion r).allRefs ++ procRefs vm regions :=
        List.flatMap_cons
      have first : ∀ pb, 0 < (vm.virRegion r).allRefs.count pb →
          (vm.virRegion r).allRefs.count pb < (vm.physBlock pb).refcount := by
        intro pb positive
        have all := others pb
        rw [split, List.count_append] at all
        omega
      rw [mapFreeRegions]
      dsimp only
      generalize listed : vm.setProc p { vm.vmproc p with
        vmRegionsAvl := (vm.vmproc p).vmRegionsAvl.erase r } = vm1
      have regionOf : vm1.virRegion = vm.virRegion := by rw [← listed]; rfl
      have blocks : vm1.physBlock = vm.physBlock := by rw [← listed]; rfl
      have freed := mapFree_shared vm1 (r := r)
        (by rw [regionOf]; exact sound r List.mem_cons_self)
        (by rw [regionOf, blocks]; exact first)
      rw [regionOf] at freed
      rw [freed, ok_bind]
      generalize emptied : ({ vm1.unshared (vm.virRegion r).allRefs with
        virRegion := update vm.virRegion r (vm.virRegion r).freed } : State np) = vm2
      have kept : ∀ other ∈ regions, vm2.virRegion other = vm.virRegion other := by
        intro other member
        have different : other ≠ r := by
          rintro rfl
          exact later member
        rw [← emptied]
        exact Function.update_of_ne different _ _
      have refs := procRefs_congr kept
      obtain ⟨virRegion, vmRegionsAvl, result, outside⟩ := @ih vm2 (List.nodup_cons.mp nodup).2
        (fun other member => by
          rw [kept other member]
          exact sound other (List.mem_cons_of_mem r member))
        (fun pb positive => by
          rw [refs] at positive ⊢
          have all := others pb
          rw [split, List.count_append] at all
          rw [← emptied]
          show _ < (vm1.physBlock pb).refcount - (vm.virRegion r).allRefs.count pb
          rw [blocks]
          omega)
      refine ⟨virRegion, vmRegionsAvl, ?_, fun other outOf => ?_⟩
      · rw [result, refs, split, ← unshared_append, ← emptied, ← listed]
        simp only [State.setProc, State.unshared, Function.update_idem, Function.update_self]
      · rw [List.mem_cons, not_or] at outOf
        rw [outside other outOf.2, ← emptied]
        exact Function.update_of_ne outOf.1 _ _

theorem freeYieldedProc_none {p : Fin np} (none : (vm.vmproc p).vmYielded = 0) :
    freeYieldedProc header vm p = .ok vm := by
  rw [freeYieldedProc, yieldHashsize, freeYieldedProcLoop, if_neg (by omega)]

theorem mapFreeProc_shared (header : Header np) (vm : State np) {p : Fin np}
    (nodup : (vm.vmproc p).vmRegionsAvl.Nodup)
    (none : (vm.vmproc p).vmYielded = 0)
    (sound : ∀ r ∈ (vm.vmproc p).vmRegionsAvl, (vm.virRegion r).Sound)
    (others : ∀ pb, 0 < (procRefs vm (vm.vmproc p).vmRegionsAvl).count pb →
      (procRefs vm (vm.vmproc p).vmRegionsAvl).count pb < (vm.physBlock pb).refcount) :
    ∃ virRegion, mapFreeProc header vm p =
        .ok { (vm.unshared (procRefs vm (vm.vmproc p).vmRegionsAvl)).setProc p
          { vm.vmproc p with vmRegionsAvl := [] } with virRegion } ∧
      ∀ r, r ∉ (vm.vmproc p).vmRegionsAvl → virRegion r = vm.virRegion r := by
  obtain ⟨virRegion, vmRegionsAvl, result, outside⟩ :=
    mapFreeRegions_shared p nodup sound others
  refine ⟨virRegion, ?_, outside⟩
  unfold mapFreeProc
  rw [result, ok_bind]
  dsimp only
  rw [freeYieldedProc_none]
  · simp only [State.setProc, State.unshared, Function.update_idem, Function.update_self]
  · simpa [State.setProc] using none

/-- The slots from `first` on are those of another region. -/
def VirRegion.filled (region other : VirRegion np) (first count : Nat) : VirRegion np :=
  { region with physblocks := fun i =>
      if first ≤ i ∧ i < first + count then other.physblocks i else region.physblocks i }

theorem VirRegion.filled_zero (region other : VirRegion np) (first : Nat) :
    region.filled other first 0 = region := by
  simp only [filled]
  congr 1
  funext i
  exact if_neg (by omega)

/-- One more slot has been filled. -/
theorem VirRegion.filled_succ (region : VirRegion np) {other : VirRegion np} {first : Nat}
    (count : Nat)
    {slot : Option PhysRegion} (same : other.physblocks first = slot) :
    ({ region with physblocks := update region.physblocks first slot } : VirRegion np).filled other
      (first + 1) count = region.filled other first (count + 1) := by
  simp only [filled]
  congr 1
  funext i
  by_cases isFirst : i = first
  · subst isFirst
    rw [if_neg (by omega), if_pos (by omega), Function.update_self, same]
  · rw [Function.update_of_ne isFirst]
    by_cases within : first + 1 ≤ i ∧ i < first + 1 + count
    · rw [if_pos within, if_pos (by omega)]
    · rw [if_neg within, if_neg (by omega)]

theorem memory_cons {calls count : Nat} :
    (∀ k < count + 1, answers.slaballoc (calls + k) = true) ↔
      answers.slaballoc calls = true ∧ ∀ k < count, answers.slaballoc (calls + 1 + k) = true := by
  constructor
  · intro all
    refine ⟨all 0 (Nat.succ_pos _), fun k small => ?_⟩
    have later := all (k + 1) (Nat.succ_lt_succ small)
    rwa [Nat.add_comm k, ← Nat.add_assoc] at later
  · rintro ⟨first, rest⟩ k small
    cases k with
    | zero => exact first
    | succ k =>
        have later := rest k (Nat.lt_of_succ_lt_succ small)
        rwa [Nat.add_assoc, Nat.add_comm 1] at later

/-- The slots are copied up to the first one for which there is no memory. -/
theorem mapCopyRegionLoop_ok (answers : Answers) (vm : State np) {vr newvr : Ptr}
    (different : newvr ≠ vr) (count first : Nat)
    (sound : (vm.virRegion vr).Sound)
    (inside : first + count = (vm.virRegion vr).length / vmPageSize)
    (lengths : (vm.virRegion newvr).length = (vm.virRegion vr).length)
    (empty : ∀ i, first ≤ i → (vm.virRegion newvr).physblocks i = none) :
    ∃ done copied calls, copied ≤ count ∧
      mapCopyRegionLoop answers vr newvr count first vm = .ok (done,
        { vm.shared ((vm.virRegion vr).refs first copied) with
          virRegion := update vm.virRegion newvr
            ((vm.virRegion newvr).filled (vm.virRegion vr) first copied)
          calls }) ∧
      (done = true → copied = count ∧
        calls = vm.calls + ((vm.virRegion vr).refs first count).length) ∧
      (done = true ↔ ∀ k < ((vm.virRegion vr).refs first count).length,
        answers.slaballoc (vm.calls + k) = true) := by
  induction count generalizing first vm with
  | zero =>
      refine ⟨true, 0, vm.calls, Nat.le_refl _, ?_, fun _ => ⟨rfl, rfl⟩, ?_⟩
      · rw [VirRegion.filled_zero, Function.update_eq_self]
        rfl
      · exact ⟨fun _ k small => absurd small (Nat.not_lt_zero k), fun _ => rfl⟩
  | succ count ih =>
      have small : first < (vm.virRegion vr).length / vmPageSize := by omega
      rw [mapCopyRegionLoop, sound.get small, ok_bind]
      cases resident : (vm.virRegion vr).physblocks first with
      | none =>
          obtain ⟨done, copied, calls, bound, result, all, granted⟩ := ih vm (first + 1) sound
            (by omega) lengths (fun i low => empty i (by omega))
          have slot : update (vm.virRegion newvr).physblocks first none =
              (vm.virRegion newvr).physblocks := by
            rw [← empty first (Nat.le_refl _), Function.update_eq_self]
          have filled := VirRegion.filled_succ (vm.virRegion newvr) copied resident
          rw [slot] at filled
          refine ⟨done, copied + 1, calls, Nat.succ_le_succ bound, ?_, ?_, ?_⟩
          · dsimp only
            rw [result, VirRegion.refs_none copied resident, ← filled]
          · rw [VirRegion.refs_none count resident]
            exact fun yes => ⟨by rw [(all yes).1], (all yes).2⟩
          · rw [VirRegion.refs_none count resident]
            exact granted
      | some pr =>
          dsimp only
          rw [VirRegion.refs_some count resident, List.length_cons, memory_cons]
          by_cases memory : answers.slaballoc vm.calls = true
          · rw [pbReference_ok pr memory (lengths ▸ small) (empty first (Nat.le_refl _))
              (sound.offsets first pr small resident), ok_bind]
            generalize after : (vm.called.setBlock pr.ph { vm.physBlock pr.ph with
              refcount := (vm.physBlock pr.ph).refcount + 1 }).setSlot newvr first (some pr) = vm1
            have old : vm1.virRegion vr = vm.virRegion vr := by
              rw [← after]
              exact Function.update_of_ne (Ne.symm different) _ _
            have new : vm1.virRegion newvr = { vm.virRegion newvr with
                physblocks := update (vm.virRegion newvr).physblocks first (some pr) } := by
              rw [← after]
              exact Function.update_self _ _ _
            obtain ⟨done, copied, calls, bound, result, all, granted⟩ := ih vm1 (first + 1)
              (old ▸ sound) (by rw [old]; omega) (by rw [new, old]; exact lengths) (by
                intro i low
                rw [new]
                have other : i ≠ first := by omega
                show update (vm.virRegion newvr).physblocks first (some pr) i = none
                rw [Function.update_of_ne other]
                exact empty i (by omega))
            have counted : vm1.calls = vm.calls + 1 := by rw [← after]; rfl
            rw [old] at result all granted
            rw [counted] at all granted
            refine ⟨done, copied + 1, calls, Nat.succ_le_succ bound, ?_, ?_, ?_⟩
            · dsimp only
              rw [result, new, VirRegion.filled_succ _ copied resident,
                VirRegion.refs_some copied resident, ← shared_cons, ← after]
              simp only [State.shared, State.setSlot, State.setBlock, State.called,
                Function.update_idem]
            · intro yes
              obtain ⟨full, total⟩ := all yes
              exact ⟨by rw [full], by rw [total]; omega⟩
            · rw [granted]
              exact ⟨fun rest => ⟨memory, rest⟩, fun both => both.2⟩
          · unfold pbReference
            rw [if_neg memory, ok_bind]
            refine ⟨false, 0, vm.calls + 1, Nat.zero_le _, ?_, nofun, ?_⟩
            · rw [VirRegion.filled_zero, Function.update_eq_self]
              rfl
            · exact ⟨nofun, fun granted => absurd granted.1 memory⟩

theorem VirRegion.refs_empty {region : VirRegion np} {first count : Nat}
    (empty : ∀ i, first ≤ i → i < first + count → region.physblocks i = none) :
    region.refs first count = [] := by
  apply List.filterMap_eq_nil_iff.mpr
  intro i member
  rw [List.mem_range'_1] at member
  rw [empty i member.1 member.2]
  rfl

/-- The copy of the first slots of a region. -/
def VirRegion.copied (region : VirRegion np) (count : Nat) : VirRegion np :=
  region.freed.filled region 0 count

theorem VirRegion.copied_slot (region : VirRegion np) {count i : Nat} (small : i < count) :
    (region.copied count).physblocks i = region.physblocks i :=
  if_pos ⟨Nat.zero_le i, by rwa [Nat.zero_add]⟩

theorem VirRegion.Sound.copied {region : VirRegion np} (sound : region.Sound) (count : Nat) :
    (region.copied count).Sound := by
  refine ⟨sound.aligned, fun i pr small resident => ?_⟩
  by_cases within : i < count
  · rw [region.copied_slot within] at resident
    exact sound.offsets i pr small resident
  · have empty : (region.copied count).physblocks i = none := if_neg (by omega)
    rw [empty] at resident
    cases resident

theorem VirRegion.copied_refs (region : VirRegion np) {count : Nat}
    (within : count ≤ region.length / vmPageSize) :
    (region.copied count).allRefs = region.refs 0 count := by
  show (region.copied count).refs 0 (region.length / vmPageSize) = _
  obtain ⟨rest, total⟩ := Nat.exists_eq_add_of_le within
  rw [total, refs_append]
  have first : (region.copied count).refs 0 count = region.refs 0 count :=
    refs_congr fun i _ small => region.copied_slot (by omega)
  have others : (region.copied count).refs (0 + count) rest = [] :=
    refs_empty fun i low _ => if_neg (by omega)
  rw [first, others, List.append_nil]

/-- The memory for a copy of a region. -/
def VirRegion.copyCalls (region : VirRegion np) : Nat := 2 + region.allRefs.length

/-- A copy that is given up leaves the counts as they were. -/
theorem mapFree_copied (vm : State np) {r : Ptr} {region : VirRegion np} {count : Nat}
    (virRegion : Ptr → VirRegion np) (sound : region.Sound)
    (within : count ≤ region.length / vmPageSize) (calls : Nat)
    (isCopy : virRegion r = region.copied count)
    (counted : ∀ pb ∈ region.allRefs, 0 < (vm.physBlock pb).refcount) :
    ∃ virRegion', mapFree { vm.shared (region.refs 0 count) with virRegion, calls } r =
        .ok { vm with virRegion := virRegion', calls } ∧
      ∀ other, other ≠ r → virRegion' other = virRegion other := by
  have refs := region.copied_refs within
  have free := mapFree_shared { vm.shared (region.refs 0 count) with virRegion, calls } (r := r)
  dsimp only at free
  rw [isCopy, refs] at free
  have others : ∀ pb, 0 < (region.refs 0 count).count pb →
      (region.refs 0 count).count pb < ((vm.shared (region.refs 0 count)).physBlock pb).refcount := by
    intro pb positive
    obtain ⟨i, pr, low, high, resident, same⟩ :=
      VirRegion.mem_refs.mp (List.count_pos_iff.mp positive)
    have shared := counted pb (VirRegion.mem_refs.mpr ⟨i, pr, low, by omega, resident, same⟩)
    show _ < (vm.physBlock pb).refcount + (region.refs 0 count).count pb
    omega
  refine ⟨update virRegion r (region.copied count).freed,
    (free (sound.copied count) others).trans ?_, fun other different =>
      Function.update_of_ne different _ _⟩
  simp only [State.unshared, State.shared, Nat.add_sub_cancel]

/-- Either the region is copied, or there is not enough memory and nothing has changed in the
regions that there were. -/
theorem mapCopyRegion_ok (answers : Answers) (vm : State np) {vr : Ptr}
    (sound : (vm.virRegion vr).Sound) (known : vr < vm.newRegion)
    (counted : ∀ pb ∈ (vm.virRegion vr).allRefs, 0 < (vm.physBlock pb).refcount) :
    ∃ virRegion newRegion calls, (∀ r < vm.newRegion, virRegion r = vm.virRegion r) ∧
      vm.newRegion ≤ newRegion ∧
      ((∀ k < (vm.virRegion vr).copyCalls, answers.slaballoc (vm.calls + k) = true) ∧
          calls = vm.calls + (vm.virRegion vr).copyCalls ∧ newRegion = vm.newRegion + 1 ∧
          virRegion vm.newRegion =
            (vm.virRegion vr).copied ((vm.virRegion vr).length / vmPageSize) ∧
          mapCopyRegion answers vm vr = .ok (some vm.newRegion,
            { vm.shared (vm.virRegion vr).allRefs with virRegion, newRegion, calls }) ∨
        (¬ ∀ k < (vm.virRegion vr).copyCalls, answers.slaballoc (vm.calls + k) = true) ∧
          mapCopyRegion answers vm vr = .ok (none, { vm with virRegion, newRegion, calls })) := by
  have grants : (∀ k < (vm.virRegion vr).copyCalls, answers.slaballoc (vm.calls + k) = true) ↔
      answers.slaballoc vm.calls = true ∧ answers.slaballoc (vm.calls + 1) = true ∧
        ∀ k < (vm.virRegion vr).allRefs.length,
          answers.slaballoc (vm.calls + 1 + 1 + k) = true := by
    rw [VirRegion.copyCalls, Nat.add_comm 2, memory_cons, memory_cons]
  rw [grants]
  unfold mapCopyRegion
  dsimp only
  obtain ⟨first, second, new⟩ | ⟨refused, calls, new⟩ := regionNew_ok answers
    sound.aligned vm (vm.virRegion vr).parent (vm.virRegion vr).vaddr (vm.virRegion vr).flags
    (vm.virRegion vr).memtype
  · rw [new, ok_bind]
    dsimp only
    rw [physSlot_ok sound.aligned, ok_bind]
    generalize after : ({ vm with
      virRegion := update vm.virRegion vm.newRegion ⟨(vm.virRegion vr).vaddr,
        (vm.virRegion vr).length, (vm.virRegion vr).flags, (vm.virRegion vr).memtype,
        (vm.virRegion vr).parent, fun _ => none⟩
      newRegion := vm.newRegion + 1
      calls := vm.calls + 2 } : State np) = vm1
    have different : vm.newRegion ≠ vr := fun same => Nat.lt_irrefl vr (same ▸ known)
    have old : ∀ r, r ≠ vm.newRegion → vm1.virRegion r = vm.virRegion r := by
      intro r other
      rw [← after]
      exact Function.update_of_ne other _ _
    have source := old vr (Ne.symm different)
    have copy : vm1.virRegion vm.newRegion = (vm.virRegion vr).freed := by
      rw [← after]
      exact Function.update_self _ _ _
    have called : vm1.calls = vm.calls + 1 + 1 := by rw [← after]
    obtain ⟨done, copied, calls, bound, result, all, granted⟩ := mapCopyRegionLoop_ok answers vm1
      different ((vm.virRegion vr).length / vmPageSize) 0 (source ▸ sound)
      (by rw [source, Nat.zero_add]) (by rw [copy, source]; rfl) (by rw [copy]; exact fun _ _ => rfl)
    rw [source, called] at all granted
    rw [source, copy] at result
    rw [result, ok_bind]
    cases done with
    | true =>
        obtain ⟨full, total⟩ := all rfl
        refine ⟨update vm1.virRegion vm.newRegion ((vm.virRegion vr).copied copied),
          vm.newRegion + 1, calls, fun r low => ?_, Nat.le_succ _, Or.inl
          ⟨⟨first, second, granted.mp rfl⟩, ?_, rfl, ?_, ?_⟩⟩
        · rw [Function.update_of_ne (Nat.ne_of_lt low), old r (Nat.ne_of_lt low)]
        · rw [total, VirRegion.copyCalls]
          show _ = _ + (2 + ((vm.virRegion vr).refs 0 _).length)
          omega
        · rw [Function.update_self, full]
        · rw [full, ← after]
          rfl
    | false =>
        have blocks : vm1.physBlock = vm.physBlock := by rw [← after]
        obtain ⟨virRegion, freed, others⟩ := mapFree_copied vm1
          (update vm1.virRegion vm.newRegion ((vm.virRegion vr).copied copied)) sound bound calls
          (Function.update_self vm.newRegion _ _) (blocks ▸ counted)
        refine ⟨virRegion, vm.newRegion + 1, calls, fun r low => ?_, Nat.le_succ _,
          Or.inr ⟨fun all => Bool.false_ne_true (granted.mpr all.2.2), ?_⟩⟩
        · have other := Nat.ne_of_lt low
          rw [others r other, Function.update_of_ne other, old r other]
        · show (mapFree _ vm.newRegion >>= _) = _
          rw [VirRegion.copied] at freed
          rw [freed, ← after]
          rfl
  · rw [new, ok_bind]
    exact ⟨vm.virRegion, vm.newRegion, calls, fun _ _ => rfl, Nat.le_refl _,
      Or.inr ⟨fun all => refused ⟨all.1, all.2.1⟩, rfl⟩⟩

/-- What is known of a region of a process. -/
structure Mapped (vm : State np) (p : Fin np) (r : Ptr) : Prop where
  parent : (vm.virRegion r).parent = p
  known : r < vm.newRegion
  aligned : (vm.virRegion r).vaddr % vmPageSize = 0
  positive : 0 < (vm.virRegion r).length
  sound : (vm.virRegion r).Sound
  counted : ∀ pb ∈ (vm.virRegion r).allRefs, 0 < (vm.physBlock pb).refcount

/-- The copy of a whole region for a process. -/
def VirRegion.copy (region : VirRegion np) (dst : Fin np) : VirRegion np :=
  { region.copied (region.length / vmPageSize) with parent := dst }

theorem VirRegion.copy_refs (region : VirRegion np) (dst : Fin np) :
    (region.copy dst).allRefs = region.allRefs :=
  region.copied_refs (Nat.le_refl _)

theorem VirRegion.Sound.copy {region : VirRegion np} (sound : region.Sound) (dst : Fin np) :
    (region.copy dst).Sound :=
  have copied := sound.copied (region.length / vmPageSize)
  ⟨copied.aligned, copied.offsets⟩

/-- The regions `done` of another process have been copied, and `copies` are their copies. -/
structure Copying (vm vm' : State np) (dst : Fin np) (done copies : List Ptr) : Prop where
  own : vm'.vmproc dst = { vm.vmproc dst with vmRegionsAvl := copies }
  others : ∀ q, q ≠ dst → vm'.vmproc q = vm.vmproc q
  regions : ∀ r < vm.newRegion, vm'.virRegion r = vm.virRegion r
  copied : List.Forall₂ (fun r new => vm'.virRegion new = (vm.virRegion r).copy dst) done copies
  fresh : ∀ new ∈ copies, vm.newRegion ≤ new ∧ new < vm'.newRegion
  newRegion : vm.newRegion ≤ vm'.newRegion
  nodup : copies.Nodup
  physBlock : vm'.physBlock = (vm.shared (procRefs vm done)).physBlock
  free : vm'.free = vm.free

/-- Nothing but unused regions and the number of calls has changed. -/
structure Undone (vm vm' : State np) : Prop where
  vmproc : vm'.vmproc = vm.vmproc
  regions : ∀ r < vm.newRegion, vm'.virRegion r = vm.virRegion r
  physBlock : vm'.physBlock = vm.physBlock
  free : vm'.free = vm.free

theorem Copying.refs {dst : Fin np} {done copies : List Ptr}
    (copying : Copying vm vm' dst done copies) : procRefs vm' copies = procRefs vm done := by
  have copied := copying.copied
  clear copying
  unfold procRefs
  induction copied with
  | nil => rfl
  | cons copy _ ih => rw [List.flatMap_cons, List.flatMap_cons, ih, copy, VirRegion.copy_refs]

theorem exists_left {α β : Type} {related : α → β → Prop} {lefts : List α} {rights : List β}
    (all : List.Forall₂ related lefts rights) {right : β} (member : right ∈ rights) :
    ∃ left ∈ lefts, related left right := by
  induction all with
  | nil => cases member
  | cons first _ ih =>
      cases member with
      | head => exact ⟨_, List.mem_cons_self, first⟩
      | tail _ later =>
          obtain ⟨left, inLefts, holds⟩ := ih later
          exact ⟨left, List.mem_cons_of_mem _ inLefts, holds⟩

/-- The end of the destination takes all copies back. -/
theorem Copying.undo (header : Header np) {dst src : Fin np} {done copies : List Ptr}
    (copying : Copying vm vm' dst done copies) (clear : (vm.vmproc dst).vmRegionsAvl = [])
    (none : (vm.vmproc dst).vmYielded = 0) (mapped : ∀ r ∈ done, Mapped vm src r) :
    ∃ vm'', mapFreeProc header vm' dst = .ok vm'' ∧ Undone vm vm'' := by
  have list : (vm'.vmproc dst).vmRegionsAvl = copies := by rw [copying.own]
  have sound : ∀ new ∈ copies, (vm'.virRegion new).Sound := by
    intro new member
    obtain ⟨r, inDone, copy⟩ := exists_left copying.copied member
    rw [copy]
    exact (mapped r inDone).sound.copy dst
  obtain ⟨virRegion, freed, outside⟩ := mapFreeProc_shared header vm' (p := dst)
    (by rw [list]; exact copying.nodup) (by rw [copying.own]; exact none)
    (by rw [list]; exact sound) (by
      rw [list, copying.refs, copying.physBlock]
      intro pb positive
      obtain ⟨r, inDone, resident⟩ := List.mem_flatMap.mp (List.count_pos_iff.mp positive)
      have counted := (mapped r inDone).counted pb resident
      show _ < (vm.physBlock pb).refcount + (procRefs vm done).count pb
      omega)
  rw [list, copying.refs] at freed
  rw [list] at outside
  refine ⟨_, freed, ?_, ?_, ?_, copying.free⟩
  · funext q
    by_cases same : q = dst
    · subst same
      simp only [State.setProc, Function.update_self, copying.own]
      rw [← clear]
    · simp only [State.setProc, Function.update_of_ne same, State.unshared]
      exact copying.others q same
  · intro r low
    have other : r ∉ copies := fun member => Nat.not_lt.mpr (copying.fresh r member).1 low
    show virRegion r = _
    rw [outside r other, copying.regions r low]
  · show (vm'.unshared (procRefs vm done)).physBlock = _
    simp only [State.unshared, copying.physBlock, State.shared, Nat.add_sub_cancel]

theorem memory_add {calls first second : Nat} :
    (∀ k < first + second, answers.slaballoc (calls + k) = true) ↔
      (∀ k < first, answers.slaballoc (calls + k) = true) ∧
        ∀ k < second, answers.slaballoc (calls + first + k) = true := by
  constructor
  · intro all
    refine ⟨fun k small => all k (by omega), fun k small => ?_⟩
    rw [Nat.add_assoc]
    exact all (first + k) (by omega)
  · rintro ⟨before, after⟩ k small
    by_cases early : k < first
    · exact before k early
    · have later := after (k - first) (by omega)
      rwa [Nat.add_assoc, Nat.add_sub_cancel' (by omega)] at later

/-- The memory for copies of some regions. -/
def copyCalls (vm : State np) (regions : List Ptr) : Nat :=
  (regions.map fun r => (vm.virRegion r).copyCalls).sum

/-- A region that is above those in the tree comes after them. -/
theorem regionInsert_last {p : Fin np} {r : Ptr}
    (above : ∀ other ∈ (vm.vmproc p).vmRegionsAvl,
      (vm.virRegion other).vaddr < (vm.virRegion r).vaddr) :
    regionInsert vm p r = vm.setProc p { vm.vmproc p with
      vmRegionsAvl := (vm.vmproc p).vmRegionsAvl ++ [r] } := by
  have before : ∀ other ∈ (vm.vmproc p).vmRegionsAvl,
      decide ((vm.virRegion other).vaddr < (vm.virRegion r).vaddr) = true :=
    fun other member => decide_eq_true (above other member)
  have new : ¬ ∃ other ∈ (vm.vmproc p).vmRegionsAvl,
      (vm.virRegion other).vaddr = (vm.virRegion r).vaddr := by
    rintro ⟨other, member, same⟩
    exact Nat.ne_of_lt (above other member) same
  unfold regionInsert treeInsert
  dsimp only
  rw [if_neg new, List.takeWhile_eq_self_iff.mpr before, List.dropWhile_eq_nil_iff.mpr before]

theorem Copying.kept {dst : Fin np} {done copies : List Ptr}
    (copying : Copying vm vm' dst done copies) {virRegion : Ptr → VirRegion np}
    (kept : ∀ other < vm'.newRegion, virRegion other = vm'.virRegion other) :
    List.Forall₂ (fun old new => virRegion new = (vm.virRegion old).copy dst) done copies := by
  have fresh := copying.fresh
  have copied := copying.copied
  clear copying
  induction copied with
  | nil => exact .nil
  | cons first _ ih =>
      refine .cons ?_ (ih fun new member => fresh new (List.mem_cons_of_mem _ member))
      rw [kept _ (fresh _ List.mem_cons_self).2, first]

/-- One more region has been copied. -/
theorem Copying.next {dst : Fin np} {done copies : List Ptr} {r : Ptr}
    (copying : Copying vm vm' dst done copies)
    (above : ∀ other ∈ done, (vm.virRegion other).vaddr < (vm.virRegion r).vaddr)
    {virRegion : Ptr → VirRegion np} (calls : Nat)
    (kept : ∀ other < vm'.newRegion, virRegion other = vm'.virRegion other)
    (isCopy : virRegion vm'.newRegion = (vm.virRegion r).copy dst) :
    Copying vm (regionInsert { vm'.shared (vm.virRegion r).allRefs with
      virRegion, newRegion := vm'.newRegion + 1, calls } dst vm'.newRegion) dst (done ++ [r])
      (copies ++ [vm'.newRegion]) := by
  have list : (vm'.vmproc dst).vmRegionsAvl = copies := by rw [copying.own]
  have copied := copying.kept kept
  rw [regionInsert_last]
  · refine
      { own := ?_, others := ?_, regions := ?_, copied := ?_, fresh := ?_, newRegion := ?_,
        nodup := ?_, physBlock := ?_, free := copying.free }
    · simp [State.setProc, State.shared, copying.own]
    · intro q different
      simp only [State.setProc, State.shared, Function.update_of_ne different]
      exact copying.others q different
    · intro other low
      exact (kept other (Nat.lt_of_lt_of_le low copying.newRegion)).trans (copying.regions other low)
    · exact List.rel_append copied (.cons isCopy .nil)
    · intro new member
      rcases List.mem_append.mp member with earlier | last
      · exact ⟨(copying.fresh new earlier).1, Nat.lt_succ_of_lt (copying.fresh new earlier).2⟩
      · rw [List.mem_singleton.mp last]
        exact ⟨copying.newRegion, Nat.lt_succ_self _⟩
    · exact Nat.le_succ_of_le copying.newRegion
    · refine List.nodup_append.mpr ⟨copying.nodup, List.nodup_singleton _, ?_⟩
      intro new earlier last isLast same
      rw [List.mem_singleton.mp isLast] at same
      exact Nat.lt_irrefl _ (same ▸ (copying.fresh new earlier).2)
    · funext pb
      have split : procRefs vm (done ++ [r]) = procRefs vm done ++ (vm.virRegion r).allRefs := by
        rw [procRefs, List.flatMap_append, List.flatMap_singleton]
        rfl
      simp only [State.setProc, State.shared, copying.physBlock, split, List.count_append,
        Nat.add_assoc]
  · intro other member
    have earlier : other ∈ copies := list ▸ member
    obtain ⟨old, inDone, copy⟩ := exists_left copied earlier
    show (virRegion other).vaddr < (virRegion vm'.newRegion).vaddr
    rw [copy, isCopy]
    exact above old inDone

/-- The regions of a process, in the order of their addresses. -/
structure Layout (vm : State np) (p : Fin np) (regions : List Ptr) : Prop where
  apart : regions.Pairwise fun left right =>
    (vm.virRegion left).vaddr + (vm.virRegion left).length ≤ (vm.virRegion right).vaddr
  mapped : ∀ r ∈ regions, Mapped vm p r

/-- Either all regions are copied, or there is not enough memory and everything is undone. -/
theorem mapProcCopyLoop_ok (header : Header np) (answers : Answers) {dst src : Fin np}
    {done copies : List Ptr} (regions : List Ptr)
    {vm1 : State np} (clear : (vm.vmproc dst).vmRegionsAvl = [])
    (none : (vm.vmproc dst).vmYielded = 0) (layout : Layout vm src (done ++ regions))
    (copying : Copying vm vm1 dst done copies) :
    ((∀ k < copyCalls vm regions, answers.slaballoc (vm1.calls + k) = true) ∧
        ∃ vm' copies', mapProcCopyLoop header answers dst regions vm1 = .ok (.ok, vm') ∧
          Copying vm vm' dst (done ++ regions) copies') ∨
      (¬ ∀ k < copyCalls vm regions, answers.slaballoc (vm1.calls + k) = true) ∧
        ∃ vm', mapProcCopyLoop header answers dst regions vm1 = .ok (.enomem, vm') ∧
          Undone vm vm' := by
  induction regions generalizing done copies vm1 with
  | nil =>
      refine Or.inl ⟨fun k small => absurd small (Nat.not_lt_zero k), vm1, copies, rfl, ?_⟩
      rw [List.append_nil]
      exact copying
  | cons r regions ih =>
      have mapped := layout.mapped r (by simp)
      have same : vm1.virRegion r = vm.virRegion r := copying.regions r mapped.known
      have total : copyCalls vm (r :: regions) =
          (vm.virRegion r).copyCalls + copyCalls vm regions := List.sum_cons
      rw [total, memory_add, mapProcCopyLoop]
      obtain ⟨virRegion, newRegion, calls, kept, later, outcome⟩ :=
        mapCopyRegion_ok answers vm1 (same ▸ mapped.sound)
          (Nat.lt_of_lt_of_le mapped.known copying.newRegion) (by
            rw [same, copying.physBlock]
            intro pb resident
            exact Nat.lt_of_lt_of_le (mapped.counted pb resident) (Nat.le_add_right _ _))
      rw [same] at outcome
      rcases outcome with ⟨granted, called, next, isCopy, result⟩ | ⟨refused, result⟩
      · rw [result, ok_bind]
        have copied : update virRegion vm1.newRegion { virRegion vm1.newRegion with parent := dst }
            vm1.newRegion = (vm.virRegion r).copy dst := by
          rw [Function.update_self, isCopy]
          rfl
        have above : ∀ other ∈ done, (vm.virRegion other).vaddr < (vm.virRegion r).vaddr := by
          intro other member
          have below := (List.pairwise_append.mp layout.apart).2.2 other member r List.mem_cons_self
          have positive := (layout.mapped other (List.mem_append_left _ member)).positive
          omega
        have advanced := copying.next above calls (fun other low => by
          rw [Function.update_of_ne (Nat.ne_of_lt low), kept other low]) copied
        subst next
        generalize inserted : regionInsert { vm1.shared (vm.virRegion r).allRefs with
          virRegion := update virRegion vm1.newRegion
            { virRegion vm1.newRegion with parent := dst }
          newRegion := vm1.newRegion + 1
          calls } dst vm1.newRegion = vm2 at advanced
        have lengths : (vm2.virRegion r).length = (vm2.virRegion vm1.newRegion).length := by
          obtain ⟨old, new⟩ : vm2.virRegion r = vm.virRegion r ∧
              vm2.virRegion vm1.newRegion = (vm.virRegion r).copy dst := by
            refine ⟨advanced.regions r mapped.known, ?_⟩
            rw [← inserted]
            exact copied
          rw [old, new]
          rfl
        have step : (do
            assert ((vm2.virRegion r).length = (vm2.virRegion vm1.newRegion).length)
              .mapProcCopyFrom
            mapProcCopyLoop header answers dst regions vm2) =
            mapProcCopyLoop header answers dst regions vm2 :=
          assert_true _ lengths
        rw [← inserted] at step
        have called2 : vm2.calls = vm1.calls + (vm.virRegion r).copyCalls := by
          rw [← inserted]
          exact called
        rw [List.append_cons] at layout ⊢
        have rest := ih layout advanced
        rw [called2, ← inserted, ← step] at rest
        refine rest.imp ?_ ?_
        · rintro ⟨memory, found⟩
          exact ⟨⟨granted, memory⟩, found⟩
        · rintro ⟨refused, found⟩
          exact ⟨fun all => refused all.2, found⟩
      · refine Or.inr ⟨fun all => refused all.1, ?_⟩
        have given : Copying vm { vm1 with virRegion, newRegion, calls } dst done copies := by
          refine ⟨copying.own, copying.others, fun other low => ?_, ?_, fun new member => ?_,
            Nat.le_trans copying.newRegion later, copying.nodup, copying.physBlock, copying.free⟩
          · exact (kept other (Nat.lt_of_lt_of_le low copying.newRegion)).trans
              (copying.regions other low)
          · exact copying.kept kept
          · exact ⟨(copying.fresh new member).1,
              Nat.lt_of_lt_of_le (copying.fresh new member).2 later⟩
        obtain ⟨vm', freed, undone⟩ := given.undo header clear none
          fun old member => layout.mapped old (List.mem_append_left _ member)
        refine ⟨vm', ?_, undone⟩
        rw [result, ok_bind]
        dsimp only
        rw [freed]
        rfl

theorem mapWriteptRegion_ok (answers : Answers) {r : Ptr} (count first : Nat)
    (sound : (vm.virRegion r).Sound)
    (aligned : (vm.virRegion r).vaddr % vmPageSize = 0)
    (counted : ∀ pb ∈ (vm.virRegion r).allRefs, 0 < (vm.physBlock pb).refcount)
    (inside : first + count = (vm.virRegion r).length / vmPageSize) :
    ∃ done calls, mapWriteptRegion answers r count (first * vmPageSize) vm =
      .ok (done, { vm with calls }) := by
  induction count generalizing first vm with
  | zero => exact ⟨true, vm.calls, rfl⟩
  | succ count ih =>
      have small : first < (vm.virRegion r).length / vmPageSize := by omega
      have later : first + 1 + count = (vm.virRegion r).length / vmPageSize := by omega
      rw [mapWriteptRegion, sound.get small, ok_bind, ← Nat.succ_mul]
      cases resident : (vm.virRegion r).physblocks first with
      | none => exact ih (first + 1) sound aligned counted later
      | some pr =>
          have written : mapPhWritept answers vm r pr =
              .ok (answers.ptWritemap vm.calls, vm.called) := by
            have offset := sound.offsets first pr small resident
            exact mapPhWritept_ok answers vm aligned (by rw [offset]; exact (offset_slot first).2)
              (counted pr.ph (VirRegion.mem_refs.mpr
                ⟨first, pr, Nat.zero_le _, by omega, resident, rfl⟩))
          dsimp only
          rw [written, ok_bind]
          cases answers.ptWritemap vm.calls with
          | false => exact ⟨false, vm.calls + 1, rfl⟩
          | true => exact @ih vm.called (first + 1) sound aligned counted later

theorem mapWriteptLoop_ok (answers : Answers) (vm : State np) (regions : List Ptr)
    (sound : ∀ r ∈ regions, (vm.virRegion r).Sound)
    (aligned : ∀ r ∈ regions, (vm.virRegion r).vaddr % vmPageSize = 0)
    (counted : ∀ r ∈ regions, ∀ pb ∈ (vm.virRegion r).allRefs, 0 < (vm.physBlock pb).refcount) :
    ∃ done calls, mapWriteptLoop answers regions vm = .ok (done, { vm with calls }) := by
  induction regions generalizing vm with
  | nil => exact ⟨true, vm.calls, rfl⟩
  | cons r regions ih =>
      have pages : ((vm.virRegion r).length + vmPageSize - 1) / vmPageSize =
          (vm.virRegion r).length / vmPageSize := by
        have whole := (sound r List.mem_cons_self).aligned
        unfold vmPageSize at whole ⊢
        omega
      obtain ⟨done, calls, written⟩ := mapWriteptRegion_ok answers _ 0
        (sound r List.mem_cons_self) (aligned r List.mem_cons_self) (counted r List.mem_cons_self)
        (Nat.zero_add _)
      rw [Nat.zero_mul] at written
      rw [mapWriteptLoop, pages, written, ok_bind]
      cases done with
      | false => exact ⟨false, calls, rfl⟩
      | true =>
          exact @ih { vm with calls } (fun other member => sound other (.tail r member))
            (fun other member => aligned other (.tail r member))
            fun other member => counted other (.tail r member)

/-- What the copy of a process has made. -/
structure Forked (vm vm' : State np) (dst src : Fin np) : Prop where
  regions : List.Forall₂ (fun old new =>
      (vm'.virRegion new).vaddr = (vm.virRegion old).vaddr ∧
      (vm'.virRegion new).length = (vm.virRegion old).length ∧
      (vm'.virRegion new).flags = (vm.virRegion old).flags ∧
      (vm'.virRegion new).memtype = (vm.virRegion old).memtype ∧
      (vm'.virRegion new).parent = dst ∧
      ∀ i < (vm.virRegion old).length / vmPageSize,
        (vm'.virRegion new).physblocks i = (vm.virRegion old).physblocks i)
    (vm.vmproc src).vmRegionsAvl (vm'.vmproc dst).vmRegionsAvl
  nodup : (vm'.vmproc dst).vmRegionsAvl.Nodup
  source : vm'.vmproc src = vm.vmproc src
  slots : ∀ r ∈ (vm.vmproc src).vmRegionsAvl, vm'.virRegion r = vm.virRegion r
  phys : ∀ pb, (vm'.physBlock pb).phys = (vm.physBlock pb).phys
  refcount : ∀ pb, (vm'.physBlock pb).refcount = (vm.physBlock pb).refcount +
    (procRefs vm (vm.vmproc src).vmRegionsAvl).count pb
  free : vm'.free = vm.free

theorem Copying.forked {dst src : Fin np} {copies : List Ptr} (different : src ≠ dst)
    (layout : Layout vm src (vm.vmproc src).vmRegionsAvl)
    (copying : Copying vm vm' dst (vm.vmproc src).vmRegionsAvl copies) : Forked vm vm' dst src := by
  have list : (vm'.vmproc dst).vmRegionsAvl = copies := by rw [copying.own]
  refine
    { regions := ?_, nodup := list ▸ copying.nodup, source := copying.others src different
      slots := fun r member => copying.regions r (layout.mapped r member).known
      phys := fun pb => by rw [copying.physBlock]; rfl
      refcount := fun pb => by rw [copying.physBlock]; rfl
      free := copying.free }
  rw [list]
  refine copying.copied.imp fun old new copy => ?_
  rw [copy]
  exact ⟨rfl, rfl, rfl, rfl, rfl, fun i small => (vm.virRegion old).copied_slot small⟩

/-- The page tables of both processes are written. -/
theorem Copying.written (answers : Answers) {dst src : Fin np} {regions copies : List Ptr}
    (different : src ≠ dst)
    (list : (vm.vmproc src).vmRegionsAvl = regions) (layout : Layout vm src regions)
    (copying : Copying vm vm' dst regions copies) :
    ∃ calls, (do
      let (_, vm) ← mapWritept answers vm' src
      let (_, vm) ← mapWritept answers vm dst
      return (Code.ok, vm)) = Except.ok (ε := Stop) (Code.ok, { vm' with calls }) := by
  have copied : ∀ new ∈ copies, ∃ old ∈ regions, vm'.virRegion new = (vm.virRegion old).copy dst :=
    fun new member => exists_left copying.copied member
  have counts : ∀ pb, (vm.physBlock pb).refcount ≤ (vm'.physBlock pb).refcount := by
    intro pb
    rw [copying.physBlock]
    exact Nat.le_add_right _ _
  obtain ⟨done, calls, first⟩ := mapWriteptLoop_ok answers vm' regions
    (fun r member => by
      rw [copying.regions r (layout.mapped r member).known]
      exact (layout.mapped r member).sound)
    (fun r member => by
      rw [copying.regions r (layout.mapped r member).known]
      exact (layout.mapped r member).aligned)
    (fun r member => by
      rw [copying.regions r (layout.mapped r member).known]
      exact fun pb resident =>
        Nat.lt_of_lt_of_le ((layout.mapped r member).counted pb resident) (counts pb))
  obtain ⟨done', calls', second⟩ := mapWriteptLoop_ok answers
    { vm' with calls } copies
    (fun new member => by
      obtain ⟨old, inRegions, copy⟩ := copied new member
      show (vm'.virRegion new).Sound
      rw [copy]
      exact (layout.mapped old inRegions).sound.copy dst)
    (fun new member => by
      obtain ⟨old, inRegions, copy⟩ := copied new member
      show (vm'.virRegion new).vaddr % vmPageSize = 0
      rw [copy]
      exact (layout.mapped old inRegions).aligned)
    (fun new member => by
      obtain ⟨old, inRegions, copy⟩ := copied new member
      show ∀ pb ∈ (vm'.virRegion new).allRefs, 0 < (vm'.physBlock pb).refcount
      rw [copy, VirRegion.copy_refs]
      exact fun pb resident =>
        Nat.lt_of_lt_of_le ((layout.mapped old inRegions).counted pb resident) (counts pb))
  refine ⟨calls', ?_⟩
  unfold mapWritept
  rw [copying.others src different, list, first, ok_bind]
  dsimp only
  rw [copying.own]
  dsimp only
  rw [second]
  rfl

/-- A fork that succeeds shares every block, and the exit of the copy undoes that. A fork that
lacks memory for one of its structures has undone everything itself. -/
theorem fork_exit (header : Header np) (answers : Answers) {dst src : Fin np}
    (layout : Layout vm src (vm.vmproc src).vmRegionsAvl)
    (nonempty : (vm.vmproc src).vmRegionsAvl ≠ []) (clear : (vm.vmproc dst).vmRegionsAvl = [])
    (unyielded : (vm.vmproc dst).vmYielded = 0) :
    ∃ code vm', mapProcCopy header answers vm dst src = .ok (code, vm') ∧
      ((∀ k < copyCalls vm (vm.vmproc src).vmRegionsAvl,
          answers.slaballoc (vm.calls + k) = true) ∧ code = .ok ∧ Forked vm vm' dst src ∧
          (∃ vm'', mapFreeProc header vm' dst = .ok vm'' ∧ Undone vm vm'') ∨
        (¬ ∀ k < copyCalls vm (vm.vmproc src).vmRegionsAvl,
          answers.slaballoc (vm.calls + k) = true) ∧ code = .enomem ∧ Undone vm vm') := by
  have start : vm.setProc dst { vm.vmproc dst with vmRegionsAvl := [] } = vm := by
    rw [← clear]
    simp only [State.setProc, Function.update_eq_self]
  have different : src ≠ dst := by
    rintro rfl
    exact nonempty clear
  unfold mapProcCopy mapProcCopyFrom
  dsimp only
  rw [start]
  have layout' := layout
  generalize listed : (vm.vmproc src).vmRegionsAvl = regions at layout' nonempty
  have initial : Copying vm vm dst [] [] := by
    refine ⟨?_, fun _ _ => rfl, fun _ _ => rfl, .nil, fun r copied => ?_, Nat.le_refl _, .nil, rfl,
      rfl⟩
    · rw [← clear]
    · cases copied
  have outcome := mapProcCopyLoop_ok header answers regions clear unyielded
    layout' initial
  cases regions with
  | nil => exact absurd rfl nonempty
  | cons first rest =>
      have iter : (first :: rest).dropWhile (fun r =>
          decide ((vm.virRegion r).vaddr ≠ (vm.virRegion first).vaddr)) = first :: rest :=
        List.dropWhile_cons_of_neg (by simp)
      dsimp only [List.head?_cons, Option.none_or]
      rw [assert_true _ (layout'.mapped first List.mem_cons_self).parent, iter,
        assert_true _ (by rfl)]
      rcases outcome with ⟨granted, vm1, copies, result, copying⟩ | ⟨refused, vm1, result, undone⟩
      · rw [result, ok_bind]
        dsimp only
        obtain ⟨calls, written⟩ := copying.written answers different listed layout'
        have whole : Copying vm { vm1 with calls } dst (vm.vmproc src).vmRegionsAvl copies := by
          rw [listed]
          exact ⟨copying.own, copying.others, copying.regions, copying.copied, copying.fresh,
            copying.newRegion, copying.nodup, copying.physBlock, copying.free⟩
        refine ⟨.ok, { vm1 with calls }, written, Or.inl ⟨granted, rfl, whole.forked different layout,
          whole.undo header clear unyielded layout.mapped⟩⟩
      · rw [result, ok_bind]
        exact ⟨.enomem, vm1, rfl, Or.inr ⟨refused, rfl, undone⟩⟩

theorem smallStart_layout : Layout smallStart 0 [0] where
  apart := List.pairwise_singleton _ _
  mapped := by
    intro r member
    rw [List.mem_singleton.mp member]
    refine ⟨rfl, by decide, by decide, by decide, ⟨by decide, ?_⟩, by decide⟩
    intro i pr small resident
    by_cases there : i < 3
    · have found : (smallStart.virRegion 0).physblocks i = some ⟨i, i * vmPageSize⟩ := if_pos there
      rw [found] at resident
      rw [← Option.some.inj resident]
    · have found : (smallStart.virRegion 0).physblocks i = none := if_neg there
      rw [found] at resident
      cases resident

/-- There is memory for the copy of one region, but for one of its pages only. -/
theorem fork_exit_small : ∃ vm',
    mapProcCopy smallHeader { firstFit 16 with slaballoc := fun call => call < 3 } smallStart 1 0 =
      .ok (.enomem, vm') ∧ Undone smallStart vm' := by
  obtain ⟨code, vm', result, ⟨granted, -⟩ | ⟨-, rfl, undone⟩⟩ := fork_exit smallHeader
    { firstFit 16 with slaballoc := fun call => call < 3 } smallStart_layout (by decide)
    (show (smallStart.vmproc 1).vmRegionsAvl = [] from rfl) rfl
  · exact absurd granted (by decide)
  · exact ⟨vm', result, undone⟩

end Ve482.Vm
