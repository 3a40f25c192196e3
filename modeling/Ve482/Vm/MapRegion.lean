import Ve482.Vm.FaultsKept
import Ve482.Vm.FindSlot

set_option autoImplicit false

namespace Ve482.Vm

open Function (update)
open Fallible (Ends returns_of_map)

variable {np : Nat} {Page : Type}

namespace Server

/-- `if(newregion->memtype->ev_new)`: whether it goes on. -/
def invokeNew (memtype : MemType np Page) (s : Server np Page) (newregion : Ptr) :
    Bool × Server np Page :=
  match memtype.evNew with
  | none => (true, s)
  | some evNew => evNew s newregion

/-- `USE(newregion, newregion->flags &= ~VR_UNINITIALIZED;)` and `region_insert` -/
def linkRegion (s : Server np Page) (p : Fin np) (newregion : Ptr) : Server np Page :=
  let region := s.vm.virRegion newregion
  let vm := { s.vm with
    virRegion := update s.vm.virRegion newregion
      { region with flags := { region.flags with uninitialized := false } } }
  { s with vm := regionInsert vm p newregion }

def mapPageRegion (vmDatatop : Nat) (memtype : MemType np Page) (answers : Answers)
    (answersAt : Nat → PageAnswers) (s : Server np Page) (p : Fin np) (minv maxv length : Nat)
    (flags : Flags) (prealloc : Bool) : Except Stop (Option Ptr × Server np Page) := do
  assert (length % vmPageSize = 0) .mapPageRegion
  let (startv, top) ← regionFindSlot vmDatatop s.vm p (s.vmRegionTop p) minv maxv length
  let s := { s with vmRegionTop := update s.vmRegionTop p top }
  if startv = slotFail then return (none, s)
  else
    match ← regionNew answers s.vm p startv length flags memtype.id with
    | (none, vm) => return (none, { s with vm })
    | (some newregion, vm) =>
        match invokeNew memtype { s with vm } newregion with
        | (false, s) => return (none, s)
        | (true, s) =>
            if prealloc then
              match ← s.mapHandleMemory memtype answersAt newregion 0 length true with
              | (false, s) =>
                  return (none, { s with vm := s.vm.clearSlots newregion 0 (length / vmPageSize) })
              | (true, s) => return (some newregion, s.linkRegion p newregion)
            else return (some newregion, s.linkRegion p newregion)

variable {s s' : Server np Page} {memtype : MemType np Page} {answers : Answers}
  {answersAt : Nat → PageAnswers} {r : Ptr} {i : Nat}

/-- The regions of each process, the free pages, the blocks that there were and the allocated
`phys_region`s are as before. -/
structure Unchanged (s s' : Server np Page) : Prop where
  tree : ∀ p, (s'.vm.vmproc p).vmRegionsAvl = (s.vm.vmproc p).vmRegionsAvl
  virRegion : ∀ r < s.vm.newRegion, s'.vm.virRegion r = s.vm.virRegion r
  free : s'.vm.free = s.vm.free
  physBlock : ∀ pb < s.vm.newBlock, s'.vm.physBlock pb = s.vm.physBlock pb
  physRegions : s'.physRegions = s.physRegions

theorem Faulted.physRegions {pages : PageAnswers} {pr : PhysRegion} {write : Bool}
    {result : Bool × Server np Page} (faulted : s.Faulted memtype pages r i pr write result) :
    result.2.physRegions = s.physRegions := by
  rcases faulted with ⟨-, rfl⟩ | ⟨-, -, rfl⟩ | ⟨-, -, -, dropped⟩
  · rfl
  · exact memtype.evPagefault_physRegions s r pr write
  · exact dropped.physRegions

/-- A fault allocates `phys_region`s and frees none. -/
theorem mapPf_grows (memtype : MemType np Page) (pages : PageAnswers) (s : Server np Page) (r : Ptr)
    (i : Nat) (write : Bool) :
    Ends (fun _ => True) (fun result => s.physRegions ⊆ result.2.physRegions)
      (s.mapPf memtype pages r (i * vmPageSize) write) := by
  refine (mapPf_ends memtype pages s r i write).imp fun result ends => ?_
  obtain ⟨-, ⟨-, -, idle, -⟩ | ⟨pr, middle, got, faulted⟩⟩ := ends
  · rw [idle.physRegions]
  · rw [faulted.physRegions]
    rcases got with ⟨-, rfl⟩ | ⟨-, filled, -⟩
    · exact Finset.Subset.refl _
    · rw [filled.physRegions]
      exact Finset.subset_insert _ _

theorem mapHandleLoop_grows (memtype : MemType np Page) (answersAt : Nat → PageAnswers) (r : Ptr)
    (write : Bool) (count first : Nat) (s : Server np Page) :
    Ends (fun _ => True) (fun result => s.physRegions ⊆ result.2.physRegions)
      (mapHandleLoop memtype answersAt r write count (first * vmPageSize) s) := by
  induction count generalizing first s with
  | zero => exact Finset.Subset.refl _
  | succ count ih =>
      rw [mapHandleLoop]
      refine (mapPf_grows memtype _ s.restart r first write).bind fun result grows => ?_
      obtain ⟨ok, next⟩ := result
      cases ok with
      | false => exact grows
      | true =>
          dsimp only
          rw [← Nat.succ_mul]
          exact (ih (first + 1) next).imp fun _ later => grows.trans later

/-- In a region with no page, a fault that has memory for a `phys_region` leaves it allocated, and
one that has none leaves nothing. -/
theorem mapPf_first (memtype : MemType np Page) (pages : PageAnswers) {s : Server np Page}
    (start : s.vm.calls = 0) (absent : (s.vm.virRegion r).physblocks i = none) (write : Bool) :
    Ends (fun _ => True) (fun result =>
        pages.slaballoc 0 ∧ pages.slaballoc 1 ∧ s.newPhysRegion ∈ result.2.physRegions ∨
          ¬ (pages.slaballoc 0 ∧ pages.slaballoc 1) ∧ result.1 = false ∧ s.Idle result.2)
      (s.mapPf memtype pages r (i * vmPageSize) write) := by
  refine (mapPf_ends memtype pages s r i write).imp fun result ends => ?_
  obtain ⟨-, ⟨failed, -, idle, memory⟩ | ⟨pr, middle, got, faulted⟩⟩ := ends
  · rw [start] at memory
    exact Or.inr ⟨memory, failed, idle⟩
  · rcases got with ⟨there, -⟩ | ⟨-, filled, memory⟩
    · rw [absent] at there
      cases there
    · rw [start] at memory
      rw [faulted.physRegions, filled.physRegions]
      exact Or.inl ⟨memory.1, memory.2, Finset.mem_insert_self _ _⟩

/-- The same of all pages of such a region. -/
theorem mapHandleMemory_first (memtype : MemType np Page) (answersAt : Nat → PageAnswers)
    {s : Server np Page} (absent : (s.vm.virRegion r).physblocks 0 = none) (length : Nat)
    (write : Bool) :
    Ends (fun _ => True) (fun result => result.1 = false →
        (answersAt 0).slaballoc 0 ∧ (answersAt 0).slaballoc 1 ∧
            s.newPhysRegion ∈ result.2.physRegions ∨
          ¬ ((answersAt 0).slaballoc 0 ∧ (answersAt 0).slaballoc 1) ∧ s.restart.Idle result.2)
      (s.mapHandleMemory memtype answersAt r 0 length write) := by
  unfold mapHandleMemory
  refine assert_ends (fun _ => trivial) fun _ => assert_ends (fun _ => trivial) fun order => ?_
  generalize count : (vbAdd 0 length - 0 + vmPageSize - 1) / vmPageSize = pages
  cases pages with
  | zero => exact nofun
  | succ pages =>
      rw [mapHandleLoop]
      have fault := mapPf_first memtype (answersAt 0) (s := s.restart) rfl absent write
      rw [Nat.zero_mul] at fault
      refine fault.bind fun result first => ?_
      obtain ⟨ok, next⟩ := result
      rcases first with ⟨memory, memory', allocated⟩ | ⟨memory, failed, idle⟩
      · cases ok with
        | false => exact fun _ => Or.inl ⟨memory, memory', allocated⟩
        | true =>
            have later := mapHandleLoop_grows memtype answersAt r write pages 1 next
            rw [Nat.one_mul] at later
            dsimp only
            rw [Nat.zero_add]
            exact later.imp fun _ grows _ => Or.inl ⟨memory, memory', grows allocated⟩
      · dsimp only at failed
        subst failed
        exact fun _ => Or.inr ⟨memory, idle⟩

/-- A call that fails changes nothing just when it does not get past the first page's
`pb_reference`. -/
theorem mapPageRegion_unchanged (vmDatatop : Nat)
    (new : ∀ evNew ∈ memtype.evNew, ∀ s r, evNew s r = (true, s))
    (answers : Answers) (answersAt : Nat → PageAnswers) (s : Server np Page) (p : Fin np)
    (minv maxv length : Nat) (flags : Flags) (prealloc : Bool) :
    Ends (fun _ => True) (fun result => result.1 = none → (s.Unchanged result.2 ↔
        (∃ top, regionFindSlot vmDatatop s.vm p (s.vmRegionTop p) minv maxv length =
            .ok (slotFail, top)) ∨
          ¬ (answers.slaballoc s.vm.calls ∧ answers.slaballoc (s.vm.calls + 1)) ∨
          ¬ ((answersAt 0).slaballoc 0 ∧ (answersAt 0).slaballoc 1)))
      (s.mapPageRegion vmDatatop memtype answers answersAt p minv maxv length flags prealloc) := by
  unfold mapPageRegion
  refine assert_ends (fun _ => trivial) fun aligned => ?_
  cases search : regionFindSlot vmDatatop s.vm p (s.vmRegionTop p) minv maxv length with
  | error stop => trivial
  | ok found =>
      obtain ⟨startv, top⟩ := found
      rw [ok_bind]
      dsimp only
      by_cases full : startv = slotFail
      · rw [if_pos full]
        subst full
        refine fun _ => iff_of_true ⟨fun _ => rfl, fun _ _ => rfl, rfl, fun _ _ => rfl, rfl⟩ ?_
        exact Or.inl ⟨top, rfl⟩
      · rw [if_neg full]
        rcases regionNew_ok answers aligned s.vm p startv flags memtype.id with
          ⟨node, slots, made⟩ | ⟨memory, calls, failed⟩
        · rw [made, ok_bind]
          have goes (s : Server np Page) (r : Ptr) : invokeNew memtype s r = (true, s) := by
            unfold invokeNew
            cases event : memtype.evNew with
            | none => rfl
            | some evNew => exact new evNew event s r
          dsimp only
          rw [goes]
          dsimp only
          cases prealloc with
          | false => exact nofun
          | true =>
              rw [if_pos rfl]
              have absent : (update s.vm.virRegion s.vm.newRegion
                  ⟨startv, length, flags, memtype.id, p, fun _ => none⟩
                  s.vm.newRegion).physblocks 0 = none := by
                rw [Function.update_self]
              refine (mapHandleMemory_first memtype answersAt absent length true).bind
                fun result first => ?_
              obtain ⟨ok, next⟩ := result
              cases ok with
              | true => exact nofun
              | false =>
                  intro _
                  rcases first rfl with ⟨pbNew, pbReference, allocated⟩ | ⟨noMemory, idle⟩
                  · apply iff_of_false
                    · intro unchanged
                      exact Nat.lt_irrefl _ (s.known _ (unchanged.physRegions ▸ allocated))
                    · rintro (⟨top', same⟩ | noRegion | noMemory)
                      · exact full (congrArg Prod.fst (Except.ok.inj same))
                      · exact noRegion ⟨node, slots⟩
                      · exact noMemory ⟨pbNew, pbReference⟩
                  · refine iff_of_true ?_ (Or.inr (Or.inr noMemory))
                    refine ⟨fun p => ?_, fun r older => ?_, idle.free, idle.physBlock,
                      idle.physRegions⟩
                    · exact congrArg (fun vmproc => (vmproc p).vmRegionsAvl) idle.vmproc
                    · have other := Nat.ne_of_lt older
                      show update next.vm.virRegion s.vm.newRegion _ r = s.vm.virRegion r
                      rw [Function.update_of_ne other, idle.virRegion]
                      exact Function.update_of_ne other _ _
        · rw [failed, ok_bind]
          refine fun _ => iff_of_true ?_ (Or.inr (Or.inl memory))
          exact ⟨fun _ => rfl, fun _ _ => rfl, rfl, fun _ _ => rfl, rfl⟩

end Server

/-- A mapping that fails leaks nothing just when the slot search, `region_new`, or `pb_new` or
`pb_reference` at the first page fails. -/
theorem failed_map_iff (vmDatatop : Nat) {memtype : MemType np Page}
    (new : ∀ evNew ∈ memtype.evNew, ∀ s r, evNew s r = (true, s)) (answers : Answers)
    (answersAt : Nat → PageAnswers) (s : Server np Page) (p : Fin np) (minv maxv length : Nat)
    (flags : Flags) (prealloc : Bool) {s' : Server np Page}
    (failed : s.mapPageRegion vmDatatop memtype answers answersAt p minv maxv length flags prealloc =
      .ok (none, s')) :
    s.Unchanged s' ↔
      (∃ top, regionFindSlot vmDatatop s.vm p (s.vmRegionTop p) minv maxv length =
          .ok (slotFail, top)) ∨
        ¬ (answers.slaballoc s.vm.calls ∧ answers.slaballoc (s.vm.calls + 1)) ∨
        ¬ ((answersAt 0).slaballoc 0 ∧ (answersAt 0).slaballoc 1) :=
  (Server.mapPageRegion_unchanged vmDatatop new answers answersAt s p minv maxv length flags
    prealloc).of_eq failed rfl

/-- There is memory for a region of two pages and for the first of them. -/
def smallMap (pages : Nat) : Except Stop (Option Ptr × Server 2 Nat) :=
  smallServer.mapPageRegion 0xF0000000 (.anon 2 (firstFit 16) 0) (firstFit 16)
    (fun offset => smallAnswers (fun _ => offset < pages * vmPageSize) false true) firstProcess
    4096 0x100000 8192 smallRegion.flags true

theorem failed_map_iff_small : ∃ s', smallMap 0 = .ok (none, s') ∧ (smallServer.Unchanged s' ↔
    (∃ top, regionFindSlot 0xF0000000 smallServer.vm 0 0 4096 0x100000 8192 =
        .ok (slotFail, top)) ∨
      ¬ ((firstFit 16).slaballoc 0 ∧ (firstFit 16).slaballoc 1) ∨
      ¬ ((smallAnswers (fun _ => 0 < 0 * vmPageSize) false true).slaballoc 0 ∧
        (smallAnswers (fun _ => 0 < 0 * vmPageSize) false true).slaballoc 1)) := by
  obtain ⟨⟨_, s'⟩, failed, rfl⟩ :=
    returns_of_map (show (smallMap 0).map Prod.fst = .ok none by rfl)
  have noEvent : ∀ evNew ∈ (MemType.anon 2 (firstFit 16) 0).evNew, ∀ s r, evNew s r = (true, s) :=
    fun evNew event => absurd event (Option.not_mem_none evNew)
  exact ⟨s', failed, failed_map_iff 0xF0000000 noEvent _ _ smallServer 0 4096 0x100000 8192 _ true
    failed⟩

/-- There is no memory for the block of the second page. The first page is not freed, nor is its
`phys_region`. -/
theorem first_page_leaked :
    (smallMap 1).map (fun result => (result.1, result.2.vm.free, result.2.physRegions)) =
        .ok (none, {9, 10, 11, 12, 13, 14, 15}, {3, 0, 1, 2}) ∧
      ∀ s', smallMap 1 = .ok (none, s') → ¬ smallServer.Unchanged s' := by
  have leaked : (smallMap 1).map (fun result => (result.1, result.2.vm.free,
      result.2.physRegions)) = .ok (none, {9, 10, 11, 12, 13, 14, 15}, {3, 0, 1, 2}) := by
    rfl
  refine ⟨leaked, fun s' failed unchanged => ?_⟩
  rw [failed] at leaked
  have allocated : s'.physRegions = {3, 0, 1, 2} :=
    congrArg (fun result => result.2.2) (Except.ok.inj leaked)
  have more : s'.physRegions ≠ smallServer.physRegions := by
    rw [allocated]
    decide
  exact more unchanged.physRegions

end Ve482.Vm
