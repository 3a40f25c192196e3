import Ve482.Vm.Clean

set_option autoImplicit false

namespace Ve482.Vm

open Function (update)
open Fallible (Ends)

variable {np : Nat} {header : Header np} {answers : Answers} {vm vm' : State np}

theorem mapLookup_congr (lists : ∀ p, (vm'.vmproc p).vmRegionsAvl = (vm.vmproc p).vmRegionsAvl)
    (regions : vm'.virRegion = vm.virRegion) (p : Fin np) (v : Nat) :
    mapLookup vm' p v = mapLookup vm p v := by
  unfold mapLookup regionSearch
  rw [lists, regions]

theorem At.congr {p : Fin np} {v : Nat} {r : Ptr} {i : Nat} {pr : PhysRegion}
    (there : At vm p v r i pr) (lists : ∀ p, (vm'.vmproc p).vmRegionsAvl = (vm.vmproc p).vmRegionsAvl)
    (regions : vm'.virRegion = vm.virRegion) : At vm' p v r i pr where
  region := by
    have member := there.region
    unfold allRegions at member ⊢
    simpa only [lists] using member
  small := by rw [regions]; exact there.small
  own := by rw [lists]; exact there.own
  resident := by rw [regions]; exact there.resident
  address := by rw [regions]; exact there.address
  lookup := by rw [mapLookup_congr lists regions]; exact there.lookup

/-- The pages from an address on, none of them shared. -/
def Found (vm : State np) (p : Fin np) : VirBytes → List PhysRegion → Prop
  | _, [] => True
  | v, pr :: prs => (∃ r i, At vm p v.toNat r i pr) ∧ (vm.physBlock pr.ph).refcount = 1 ∧
      Found vm p (v + BitVec.ofNat 32 vmPageSize) prs

theorem Found.congr {p : Fin np} {v : VirBytes} {prs : List PhysRegion} (found : Found vm p v prs)
    (lists : ∀ p, (vm'.vmproc p).vmRegionsAvl = (vm.vmproc p).vmRegionsAvl)
    (regions : vm'.virRegion = vm.virRegion)
    (counts : ∀ pb, (vm'.physBlock pb).refcount = (vm.physBlock pb).refcount) :
    Found vm' p v prs := by
  induction prs generalizing v with
  | nil => trivial
  | cons pr prs ih =>
      obtain ⟨⟨r, i, there⟩, alone, later⟩ := found
      exact ⟨⟨r, i, there.congr lists regions⟩, (counts _).trans alone, ih later⟩

theorem Found.alone {p : Fin np} {v : VirBytes} {prs : List PhysRegion} (found : Found vm p v prs)
    {pr : PhysRegion} (member : pr ∈ prs) : (vm.physBlock pr.ph).refcount = 1 := by
  induction prs generalizing v with
  | nil => cases member
  | cons first prs ih =>
      obtain ⟨-, alone, later⟩ := found
      cases member with
      | head => exact alone
      | tail _ inRest => exact ih later inRest

/-- Each page is right after the one before it. -/
def Contiguous (vm : State np) : Option PhysRegion → List PhysRegion → Prop
  | _, [] => True
  | prev, pr :: prs =>
      (∀ before, prev = some before →
        (vm.physBlock pr.ph).phys = (vm.physBlock before.ph).phys + vmPageSize) ∧
      Contiguous vm (some pr) prs

theorem aligned_next {v : VirBytes} (aligned : v.toNat % vmPageSize = 0) :
    (v + BitVec.ofNat 32 vmPageSize).toNat % vmPageSize = 0 := by
  rw [BitVec.toNat_add, BitVec.toNat_ofNat]
  unfold vmPageSize at *
  omega

/-- What the first loop of `yieldblock` has checked. -/
theorem yieldCheck_found (blocks : Blocks vm) (p : Fin np) (pages : Nat) {v : VirBytes}
    (aligned : v.toNat % vmPageSize = 0) (prev first : Option PhysRegion) :
    Ends (fun _ => False) (fun result => result.1 = .ok → ∃ prs : List PhysRegion,
        prs.length = pages ∧ Found vm p v prs ∧ Contiguous vm prev prs ∧
        result.2.1 = prs.getLast?.or prev ∧ result.2.2 = first.or prs.head?)
      (yieldCheck vm p pages v prev first) := by
  induction pages generalizing v prev first with
  | zero => exact fun _ => ⟨[], rfl, trivial, trivial, rfl, by simp⟩
  | succ pages ih =>
      rw [yieldCheck]
      have lookup : mapLookup vm p v.toNat = .ok none ∨
          (∃ r, mapLookup vm p v.toNat = .ok (some (r, none))) ∨
          ∃ r i pr, At vm p v.toNat r i pr := by
        cases inRegion : regionAt vm p v.toNat with
        | none => exact Or.inl (mapLookup_outside inRegion)
        | some r =>
            have inside := mapLookup_inside blocks inRegion aligned
            cases resident : (vm.virRegion r).physblocks
                ((v.toNat - (vm.virRegion r).vaddr) / vmPageSize) with
            | none => exact Or.inr (Or.inl ⟨r, resident ▸ inside⟩)
            | some pr =>
                have found : pageAt vm p v.toNat = some (r, pr) := by
                  rw [pageAt, inRegion, Option.bind_some, resident]
                  rfl
                obtain ⟨i, there⟩ := blocks.locate found aligned
                exact Or.inr (Or.inr ⟨r, i, pr, there⟩)
      rcases lookup with outside | ⟨r, empty⟩ | ⟨r, i, pr, there⟩
      · rw [outside]
        exact nofun
      · rw [empty]
        exact nofun
      · rw [there.lookup, ok_bind]
        dsimp only
        split
        · exact nofun
        · split
          · exact nofun
          · rename_i alone
            split
            · exact nofun
            · rename_i contiguous
              refine (ih (aligned_next aligned) (some pr) (first.or (some pr))).imp
                fun result after isOk => ?_
              obtain ⟨prs, length, found, rest, last, head⟩ := after isOk
              refine ⟨pr :: prs, by simp [length], ⟨⟨r, i, there⟩, not_not.mp alone, found⟩,
                ⟨fun before same => ?_, rest⟩, ?_, ?_⟩
              · subst same
                simpa [discontiguous] using contiguous
              · rw [last, List.getLast?_cons]
                cases prs.getLast? <;> rfl
              · rw [head]
                cases first <;> rfl

/-- The blocks have got new pages, one after the other. -/
def State.given (vm : State np) : List PhysRegion → Nat → State np
  | [], _ => vm
  | pr :: prs, newPhaddr =>
      ((vm.setBlock pr.ph { vm.physBlock pr.ph with phys := newPhaddr }).called).given prs
        (newPhaddr + vmPageSize)

theorem yieldPages_given (answers : Answers) (vm : State np) (blocks : Blocks vm) (p : Fin np)
    {v : VirBytes}
    {prs : List PhysRegion} (found : Found vm p v prs) {newPhaddr : Nat}
    (aligned : newPhaddr % vmPageSize = 0) :
    Ends (fun _ => ¬ Writes answers) (fun vm' => vm' = vm.given prs newPhaddr ∧ Blocks vm')
      (yieldPages answers p prs.length v newPhaddr vm) := by
  induction prs generalizing v newPhaddr vm with
  | nil => exact ⟨rfl, blocks⟩
  | cons pr prs ih =>
      obtain ⟨⟨r, i, there⟩, alone, later⟩ := found
      have start := blocks.aligned r there.region
      have offset : pr.offset % vmPageSize = 0 := by
        rw [(blocks.sound r there.region).offsets i pr there.small there.resident]
        exact (offset_slot i).2
      have counts : ∀ pb, ((vm.setBlock pr.ph { vm.physBlock pr.ph with phys := newPhaddr }).physBlock
          pb).refcount = (vm.physBlock pb).refcount := by
        intro pb
        by_cases same : pb = pr.ph
        · subst same
          simp [State.setBlock]
        · simp [State.setBlock, same]
      rw [List.length_cons, yieldPages, there.lookup, ok_bind]
      dsimp only
      rw [assert_true _ alone, mapPhWritept_ok answers _ (by exact start) offset
        (by rw [counts, alone]; exact Nat.one_pos), ok_bind]
      cases written : answers.ptWritemap vm.calls with
      | false =>
          have failed : answers.ptWritemap (vm.setBlock pr.ph
              { vm.physBlock pr.ph with phys := newPhaddr }).calls = false := written
          rw [failed]
          exact fun writes => Bool.false_ne_true (written.symm.trans (writes _).1)
      | true =>
          have done : answers.ptWritemap (vm.setBlock pr.ph
              { vm.physBlock pr.ph with phys := newPhaddr }).calls = true := written
          rw [done]
          exact ih _ (blocks.rephys pr.ph aligned).called (later.congr (fun _ => rfl) rfl counts)
            (by rw [Nat.add_mod_right, aligned])

/-- The state in which the pages of a new yielded block are taken from the caller. -/
def State.taken (vm : State np) (block : Yielded) (click : Nat) : State np :=
  { vm with
    free := vm.free \ Finset.Ico click (click + block.pages)
    yielded := update vm.yielded vm.newYielded block
    newYielded := vm.newYielded + 1
    calls := vm.calls + 2 }

/-- What becomes of a request to yield a block. -/
inductive YieldedBlock (header : Header np) (answers : Answers) (vm : State np) (p : Fin np)
    (id : BitVec 64) (vaddr : VirBytes) (pages : Nat) : Except Stop (Code × State np) → Prop where
  | stopped (stop : Stop) (reason : ¬ Writes answers) :
      YieldedBlock header answers vm p id vaddr pages (.error stop)
  | failed (code : Code) (bad : code ≠ .ok) (newYielded calls : Nat)
      (later : vm.newYielded ≤ newYielded)
      (early : calls = vm.calls ∨ ∃ prs : List PhysRegion, prs.length = pages ∧
        Found vm p vaddr prs) :
      YieldedBlock header answers vm p id vaddr pages (.ok (code, { vm with newYielded, calls }))
  | yielded (block : Yielded) (pr : PhysRegion) (prs : List PhysRegion) (click : Nat)
      (search : yieldedSearch vm (vm.vmYieldedBlocks (getYieldedAvl header block.id)) block.id = none)
      (isId : block.id = ⟨(vm.vmproc p).vmEndpoint, id⟩) (size : block.pages = prs.length + 1)
      (wanted : pages = prs.length + 1) (first : block.younger = none)
      (place : block.physaddr = (vm.physBlock pr.ph).phys) (found : Found vm p vaddr (pr :: prs))
      (contiguous : Contiguous vm none (pr :: prs))
      (memory : answers.allocMem (vm.calls + 1) pages vm.free = some click)
      (blocks : Blocks ((vm.taken block click).given (pr :: prs) (click2abs click))) :
      YieldedBlock header answers vm p id vaddr pages (.ok (.ok, rememberNode header
        ((vm.taken block click).given (pr :: prs) (click2abs click)) p vm.newYielded))

/-- What `yieldblock` can do. -/
theorem yieldblock_cases (header : Header np) (answers : Answers) (blocks : Blocks vm) (p : Fin np)
    (id : BitVec 64) (vaddr : VirBytes) (pages : Nat) :
    YieldedBlock header answers vm p id vaddr pages
      (yieldblock header answers vm p id vaddr pages) := by
  have unchanged (code : Code) (bad : code ≠ .ok) :
      YieldedBlock header answers vm p id vaddr pages (.ok (code, vm)) :=
    .failed code bad vm.newYielded vm.calls (Nat.le_refl _) (Or.inl rfl)
  unfold yieldblock
  dsimp only
  cases search : yieldedSearch vm (vm.vmYieldedBlocks
      (getYieldedAvl header { owner := (vm.vmproc p).vmEndpoint, id }))
      { owner := (vm.vmproc p).vmEndpoint, id } with
  | some node => exact unchanged .einval nofun
  | none =>
      dsimp only
      by_cases wrong : vaddr.toNat % vmPageSize ≠ 0 ∨ pages < 1
      · rw [if_pos wrong]
        exact unchanged .efault nofun
      rw [if_neg wrong]
      have aligned : vaddr.toNat % vmPageSize = 0 := by omega
      have check := yieldCheck_found blocks p pages aligned none none
      revert check
      generalize yieldCheck vm p pages vaddr none none = outcome
      intro check
      cases outcome with
      | error stop => exact check.elim
      | ok result =>
          obtain ⟨code, last, first⟩ := result
          cases code with
          | ok =>
              obtain ⟨prs, length, found, contiguous, isLast, isFirst⟩ := check rfl
              cases prs with
              | nil => simp at length; omega
              | cons pr prs =>
                  obtain ⟨end', isEnd⟩ : ∃ end', (pr :: prs).getLast? = some end' :=
                    ⟨_, List.getLast?_eq_some_getLast (List.cons_ne_nil pr prs)⟩
                  obtain rfl : last = some end' := isLast.trans (by rw [isEnd]; rfl)
                  obtain rfl : first = some pr := isFirst
                  have paged : (vm.physBlock end'.ph).phys % vmPageSize = 0 := by
                    refine blocks.pages _ ?_
                    rw [found.alone (List.mem_of_getLast? isEnd)]
                    exact Nat.one_pos
                  rw [ok_bind]
                  dsimp only
                  by_cases memory : answers.slaballoc vm.calls
                  · rw [if_neg (not_not.mpr memory), assert_true _ (by exact paged)]
                    have calls : vm.called.calls = vm.calls + 1 := rfl
                    rw [calls]
                    cases given : answers.allocMem (vm.calls + 1) pages vm.called.free with
                    | none => exact .failed .enomem nofun _ _ (Nat.le_succ _) (Or.inr ⟨_, length, found⟩)
                    | some click =>
                        subst length
                        let block : Yielded :=
                          { id := ⟨(vm.vmproc p).vmEndpoint, id⟩
                            physaddr := (vm.physBlock pr.ph).phys
                            pages := (pr :: prs).length
                            younger := none
                            older := (vm.yielded vm.newYielded).older }
                        have ends := yieldPages_given answers (vm.taken block click)
                          (blocks.congr (fun _ => rfl) rfl rfl rfl) p
                          (found.congr (fun _ => rfl) rfl fun _ => rfl) (click2abs_aligned click)
                        revert ends
                        show Ends _ _ (yieldPages answers p (prs.length + 1) vaddr (click2abs click)
                          (vm.taken block click)) → YieldedBlock header answers vm p id vaddr
                          (prs.length + 1) (yieldPages answers p (prs.length + 1) vaddr
                            (click2abs click) (vm.taken block click) >>= fun vm' =>
                              pure (Code.ok, rememberNode header vm' p vm.newYielded))
                        generalize yieldPages answers p (prs.length + 1) vaddr (click2abs click)
                          (vm.taken block click) = outcome
                        intro ends
                        cases outcome with
                        | error stop => exact .stopped stop ends
                        | ok vm' =>
                            obtain ⟨rfl, blocks'⟩ := ends
                            exact .yielded block pr prs click search rfl rfl rfl rfl rfl found
                              contiguous given blocks'
                  · rw [if_pos memory]
                    exact .failed .enomem nofun vm.newYielded (vm.calls + 1) (Nat.le_refl _)
                      (Or.inr ⟨_, length, found⟩)
          | esrch => exact unchanged .esrch nofun
          | efault => exact unchanged .efault nofun
          | einval => exact unchanged .einval nofun
          | enomem => exact unchanged .enomem nofun

end Ve482.Vm
