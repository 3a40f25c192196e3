import Ve482.Vm.Faults

set_option autoImplicit false

namespace Ve482.Vm

open Function (update)
open Fallible (Ends returns_of_map map_bind)

variable {np : Nat} {Page : Type}

namespace Server

variable {answers : Answers} {s s' : Server np Page} {r : Ptr} {i : Nat} {pr : PhysRegion}

theorem mem_occupied {slot : Σ _ : Ptr, Nat} :
    slot ∈ s.occupied ↔ ∃ pr, s.At slot.1 slot.2 pr := by
  have pages (length : Nat) : slot.2 < (length + vmPageSize - 1) / vmPageSize ↔
      slot.2 * vmPageSize < length := by
    unfold vmPageSize
    omega
  simp only [occupied, Finset.mem_filter, Finset.mem_sigma, Finset.mem_range, pages,
    Option.isSome_iff_exists]
  constructor
  · rintro ⟨⟨region, small⟩, pr, there⟩
    exact ⟨pr, region, small, there⟩
  · rintro ⟨pr, region, small, there⟩
    exact ⟨⟨region, small⟩, pr, there⟩

theorem Retains.refl (sound : s.Sound) : s.Retains s :=
  ⟨rfl, fun _ => rfl, sound, fun _ _ pr there => ⟨pr, there, fun _ holds => holds⟩⟩

theorem Retains.trans {first second third : Server np Page} (left : first.Retains second)
    (right : second.Retains third) : first.Retains third := by
  refine ⟨right.newRegion.trans left.newRegion,
    fun r => (right.length r).trans (left.length r), right.sound, fun r i pr there => ?_⟩
  obtain ⟨pr', there', holds⟩ := left.slots r i pr there
  obtain ⟨pr'', there'', holds'⟩ := right.slots r i pr' there'
  exact ⟨pr'', there'', fun page before => holds' page (holds page before)⟩

theorem Leaves.contents (leaves : s.Leaves s') (older : pr.ph < s.vm.newBlock) :
    s'.contents pr = s.contents pr := by
  unfold Server.contents
  rw [leaves.physBlock pr.ph older, leaves.memory]

theorem Idle.at_iff (idle : s.Idle s') {pr : PhysRegion} : s'.At r i pr ↔ s.At r i pr := by
  constructor
  · rintro ⟨region, small, there⟩
    rw [idle.newRegion] at region
    rw [idle.virRegion] at small there
    exact ⟨region, small, there⟩
  · rintro ⟨region, small, there⟩
    refine ⟨?_, ?_, ?_⟩
    · rw [idle.newRegion]
      exact region
    · rw [idle.virRegion]
      exact small
    · rw [idle.virRegion]
      exact there

theorem Idle.retains (idle : s.Idle s') (sound : s.Sound) : s.Retains s' := by
  refine ⟨idle.newRegion, fun r => by rw [idle.virRegion], fun r i pr there => ?_,
    fun r i pr there => ⟨pr, idle.at_iff.mpr there, fun page holds => ?_⟩⟩
  · obtain ⟨older, apart⟩ := sound r i pr (idle.at_iff.mp there)
    rw [idle.physBlock pr.ph older, idle.free]
    exact ⟨Nat.lt_of_lt_of_le older idle.newBlock, apart⟩
  · rw [idle.contents (sound r i pr there).1]
    exact holds

theorem Idle.occupied (idle : s.Idle s') : s'.occupied = s.occupied := by
  ext slot
  simp only [mem_occupied, idle.at_iff]

theorem Filled.at_iff (filled : s.Filled s' r i pr) (region : r < s.vm.newRegion)
    (small : i * vmPageSize < (s.vm.virRegion r).length) {r' : Ptr} {i' : Nat} {pr' : PhysRegion} :
    s'.At r' i' pr' ↔ (r' = r ∧ i' = i) ∧ pr' = pr ∨ ¬ (r' = r ∧ i' = i) ∧ s.At r' i' pr' := by
  have slot := setSlot_slot s.vm r i (some pr) r' i'
  have length := (setSlot_place s.vm r i (some pr) r').2
  rw [← filled.virRegion] at slot length
  by_cases here : r' = r ∧ i' = i
  · rw [if_pos here] at slot
    obtain ⟨rfl, rfl⟩ := here
    constructor
    · intro there
      exact Or.inl ⟨⟨rfl, rfl⟩, Option.some.inj (there.slot.symm.trans slot)⟩
    · rintro (⟨-, rfl⟩ | ⟨other, -⟩)
      · refine ⟨?_, ?_, slot⟩
        · rw [filled.newRegion]
          exact region
        · rw [length]
          exact small
      · exact absurd ⟨rfl, rfl⟩ other
  · rw [if_neg here] at slot
    constructor
    · rintro ⟨region', small', there⟩
      rw [filled.newRegion] at region'
      rw [length] at small'
      rw [slot] at there
      exact Or.inr ⟨here, region', small', there⟩
    · rintro (⟨same, -⟩ | ⟨-, region', small', there⟩)
      · exact absurd same here
      · refine ⟨?_, ?_, slot.trans there⟩
        · rw [filled.newRegion]
          exact region'
        · rw [length]
          exact small'

theorem Filled.retains (filled : s.Filled s' r i pr) (sound : s.Sound)
    (region : r < s.vm.newRegion) (small : i * vmPageSize < (s.vm.virRegion r).length)
    (absent : (s.vm.virRegion r).physblocks i = none) : s.Retains s' := by
  refine ⟨filled.newRegion, fun r' => ?_, fun r' i' pr' there => ?_, fun r' i' pr' there => ?_⟩
  · rw [filled.virRegion]
    exact (setSlot_place _ _ _ _ _).2
  · rcases (filled.at_iff region small).mp there with ⟨-, rfl⟩ | ⟨-, before⟩
    · exact ⟨filled.block.2, fun page => absurd filled.phys page⟩
    · obtain ⟨older, apart⟩ := sound r' i' pr' before
      rw [filled.physBlock pr'.ph older, filled.free]
      exact ⟨Nat.lt_of_lt_of_le older filled.newBlock, apart⟩
  · refine ⟨pr', (filled.at_iff region small).mpr (Or.inr ⟨?_, there⟩), fun page holds => ?_⟩
    · rintro ⟨rfl, rfl⟩
      rw [there.slot] at absent
      cases absent
    · rw [filled.contents (sound r' i' pr' there).1]
      exact holds

theorem Filled.occupied (filled : s.Filled s' r i pr) (region : r < s.vm.newRegion)
    (small : i * vmPageSize < (s.vm.virRegion r).length) :
    s'.occupied = insert ⟨r, i⟩ s.occupied := by
  ext ⟨r', i'⟩
  simp only [Finset.mem_insert, mem_occupied, filled.at_iff region small, Sigma.mk.injEq,
    heq_eq_eq]
  by_cases here : r' = r ∧ i' = i
  · simp [here]
  · simp [here]

theorem absent_occupied (absent : (s.vm.virRegion r).physblocks i = none) :
    (⟨r, i⟩ : Σ _ : Ptr, Nat) ∉ s.occupied := by
  intro member
  obtain ⟨pr, there⟩ := mem_occupied.mp member
  have slot := there.slot
  rw [absent] at slot
  cases slot

theorem Filled.card (filled : s.Filled s' r i pr) :
    s'.physRegions.card = s.physRegions.card + 1 := by
  rw [filled.physRegions]
  exact Finset.card_insert_of_notMem fun member => Nat.lt_irrefl _ (s.known _ member)

theorem Dropped.slot (dropped : s.Dropped s' r i) : (s'.vm.virRegion r).physblocks i = none := by
  rw [dropped.virRegion, setSlot_slot, if_pos ⟨rfl, rfl⟩]

theorem Dropped.occupied (dropped : s.Dropped s' r i) :
    s'.occupied = s.occupied.erase ⟨r, i⟩ := by
  ext ⟨r', i'⟩
  rw [Finset.mem_erase, ne_eq, Sigma.mk.injEq, heq_eq_eq, mem_occupied, mem_occupied]
  have slot := setSlot_slot s.vm r i none r' i'
  have length := (setSlot_place s.vm r i none r').2
  rw [← dropped.virRegion] at slot length
  constructor
  · rintro ⟨pr, region, small, there⟩
    rw [dropped.newRegion] at region
    rw [length] at small
    rw [slot] at there
    by_cases here : r' = r ∧ i' = i
    · rw [if_pos here] at there
      cases there
    · rw [if_neg here] at there
      exact ⟨here, pr, region, small, there⟩
  · rintro ⟨other, pr, region, small, there⟩
    rw [if_neg other] at slot
    refine ⟨pr, ?_, ?_, slot.trans there⟩
    · rw [dropped.newRegion]
      exact region
    · rw [length]
      exact small

/-- The page is there, or there is memory for its structures. -/
def Made (answers : PageAnswers) (s : Server np Page) (r : Ptr) (i : Nat) : Prop :=
  (∃ pr, s.At r i pr) ∨ answers.slaballoc 0 ∧ answers.slaballoc 1

/-- The memory type is asked to handle the fault. -/
def Asked (answers : PageAnswers) (write : Bool) : Prop :=
  ¬ (write ∧ answers.writable)

/-- No call fails. -/
def Passes (answers : PageAnswers) (s : Server np Page) (r : Ptr) (i : Nat) (write : Bool) : Prop :=
  Made answers s r i ∧ (Asked answers write → answers.evPagefault)

/-- A page that was there is gone, or a `phys_region` is in no slot. -/
def Lost (s s' : Server np Page) (r : Ptr) (i : Nat) : Prop :=
  (∃ pr, s.At r i pr) ∧ (s'.vm.virRegion r).physblocks i = none ∨ ¬ s'.Counted

/-- Pages other than one are there as before. -/
def Beside (s s' : Server np Page) (r : Ptr) (i : Nat) : Prop :=
  ∀ j, j ≠ i → ((∃ pr, s'.At r j pr) ↔ ∃ pr, s.At r j pr)

theorem Got.counted (got : Got answers s s' r i pr) (sound : s.Sound) (counted : s.Counted)
    (region : r < s.vm.newRegion) (small : i * vmPageSize < (s.vm.virRegion r).length) :
    s.Retains s' ∧ s'.At r i pr ∧ s'.Counted ∧ Beside s s' r i := by
  rcases got with ⟨there, rfl⟩ | ⟨absent, filled, -⟩
  · exact ⟨.refl sound, ⟨region, small, there⟩, counted, fun _ _ => Iff.rfl⟩
  · refine ⟨filled.retains sound region small absent,
      (filled.at_iff region small).mpr (Or.inl ⟨⟨rfl, rfl⟩, rfl⟩), ?_, fun j other => ?_⟩
    · unfold Counted at counted ⊢
      rw [filled.card, filled.occupied region small,
        Finset.card_insert_of_notMem (absent_occupied absent), counted]
    · simp only [filled.at_iff region small, other, and_false, false_and, not_false_eq_true,
        true_and, false_or]

/-- Where a fault fails: a page that was there is dropped, and a new `phys_region` is not freed. -/
theorem Got.dropped {s1 : Server np Page} (got : Got answers s s1 r i pr) (counted : s.Counted)
    (region : r < s.vm.newRegion) (small : i * vmPageSize < (s.vm.virRegion r).length)
    (dropped : s1.Dropped s' r i) : Lost s s' r i := by
  rcases got with ⟨there, rfl⟩ | ⟨absent, filled, -⟩
  · exact Or.inl ⟨⟨pr, region, small, there⟩, dropped.slot⟩
  · refine Or.inr fun counted' => ?_
    unfold Counted at counted counted'
    rw [dropped.physRegions, filled.card, dropped.occupied, filled.occupied region small,
      Finset.erase_insert (absent_occupied absent)] at counted'
    omega

theorem idle_called (s : Server np Page) : s.Idle s.called :=
  ⟨⟨rfl, rfl, Nat.le_refl _, fun _ _ => rfl, rfl, rfl⟩, rfl, rfl⟩

theorem idle_restart (s : Server np Page) : s.Idle s.restart :=
  ⟨⟨rfl, rfl, Nat.le_refl _, fun _ _ => rfl, rfl, rfl⟩, rfl, rfl⟩

theorem Idle.counted (idle : s.Idle s') (counted : s.Counted) : s'.Counted := by
  unfold Counted at counted ⊢
  rw [idle.physRegions, idle.occupied, counted]

variable {memtype : MemType np Page} {pages : PageAnswers} {write : Bool}

theorem Faulted.counted {result : Bool × Server np Page}
    (faulted : s.Faulted memtype pages r i pr write result) (sound : s.Sound)
    (counted : s.Counted) (there : s.At r i pr) (writes : ∀ call, pages.ptWritemap call) :
    result.1 = true ∧ (Asked pages write → pages.evPagefault) ∧ s.Retains result.2 ∧
        result.2.Counted ∧ result.2.occupied = s.occupied ∨
      result.1 = false ∧ Asked pages write ∧ ¬ pages.evPagefault ∧ s.Dropped result.2 r i := by
  rcases faulted with ⟨direct, rfl⟩ | ⟨asked, handled, rfl⟩ | ⟨asked, failed, result, dropped⟩
  · have idle := idle_called s
    exact Or.inl ⟨writes _, fun asked => absurd direct asked, idle.retains sound,
      idle.counted counted, idle.occupied⟩
  · obtain ⟨retains, occupied⟩ := memtype.evPagefault_retains s r i pr write sound there
    have phys := memtype.evPagefault_physRegions s r pr write
    have idle := idle_called (memtype.evPagefault s r pr write)
    refine Or.inl ⟨writes _, fun _ => handled, retains.trans (idle.retains retains.sound),
      idle.counted ?_, idle.occupied.trans occupied⟩
    unfold Counted at counted ⊢
    rw [phys, occupied, counted]
  · exact Or.inr ⟨result, asked, failed, dropped⟩

theorem mapPf_page (sound : s.Sound) (counted : s.Counted) (region : r < s.vm.newRegion)
    (start : s.vm.calls = 0) (writes : ∀ call, pages.ptWritemap call) (i : Nat) :
    Ends (fun _ => True) (fun result =>
        result.1 = true ∧ Passes pages s r i write ∧ s.Retains result.2 ∧ result.2.Counted ∧
            Beside s result.2 r i ∨
          result.1 = false ∧ ¬ Made pages s r i ∧ s.Retains result.2 ∧ result.2.Counted ∨
          result.1 = false ∧ Made pages s r i ∧ Asked pages write ∧ ¬ pages.evPagefault ∧
            Lost s result.2 r i)
      (s.mapPf memtype pages r (i * vmPageSize) write) := by
  refine (mapPf_ends memtype pages s r i write).imp fun result ends => ?_
  obtain ⟨small, ⟨failed, absent, idle, memory⟩ | ⟨pr, middle, got, faulted⟩⟩ := ends
  · rw [start] at memory
    refine Or.inr (Or.inl ⟨failed, ?_, idle.retains sound, idle.counted counted⟩)
    rintro (⟨pr, there⟩ | both)
    · exact absent_occupied absent (mem_occupied.mpr ⟨pr, there⟩)
    · exact memory both
  · have made : Made pages s r i := by
      rcases got with ⟨there, -⟩ | ⟨-, -, both⟩
      · exact Or.inl ⟨pr, region, small, there⟩
      · rw [start] at both
        exact Or.inr both
    obtain ⟨retains, there, counted', beside⟩ := got.counted sound counted region small
    rcases faulted.counted retains.sound counted' there writes with
      ⟨ok, handled, later, counted'', occupied⟩ | ⟨failed, asked, unhandled, dropped⟩
    · refine Or.inl ⟨ok, ⟨made, handled⟩, retains.trans later, counted'', fun j other => ?_⟩
      have listed (s : Server np Page) : (⟨r, j⟩ : Σ _ : Ptr, Nat) ∈ s.occupied ↔
          ∃ pr, s.At r j pr := mem_occupied
      rw [← beside j other, ← listed, ← listed, occupied]
    · exact Or.inr (Or.inr ⟨failed, made, asked, unhandled,
        got.dropped counted region small dropped⟩)

variable {answersAt : Nat → PageAnswers}

/-- At the first page at which a call fails, that is not the one of `ev_pagefault`. -/
def Spared (answersAt : Nat → PageAnswers) (s : Server np Page) (r : Ptr) (write : Bool)
    (first count : Nat) : Prop :=
  ∀ k < count, (∀ j < k, Passes (answersAt ((first + j) * vmPageSize)) s r (first + j) write) →
    Made (answersAt ((first + k) * vmPageSize)) s r (first + k) →
    Asked (answersAt ((first + k) * vmPageSize)) write →
    (answersAt ((first + k) * vmPageSize)).evPagefault

theorem Made.congr {k : Nat} (same : (∃ pr, s'.At r k pr) ↔ ∃ pr, s.At r k pr) :
    Made pages s' r k ↔ Made pages s r k := by
  unfold Made
  rw [same]

/-- After a page that passes, the others decide. -/
theorem spared_succ {first count : Nat} (beside : Beside s s' r first)
    (passes : Passes (answersAt (first * vmPageSize)) s r first write) :
    Spared answersAt s r write first (count + 1) ↔
      Spared answersAt s' r write (first + 1) count := by
  have place (k : Nat) : first + 1 + k = first + (k + 1) := by omega
  have made (pages : PageAnswers) (k : Nat) : Made pages s' r (first + (k + 1)) ↔
      Made pages s r (first + (k + 1)) := Made.congr (beside _ (by omega))
  unfold Spared Passes
  simp only [place, made]
  constructor
  · intro spared k small earlier
    apply spared (k + 1) (by omega)
    intro j less
    cases j with
    | zero => exact passes
    | succ j => exact earlier j (by omega)
  · intro spared k small earlier
    cases k with
    | zero => exact fun _ asked => passes.2 asked
    | succ k => exact spared k (by omega) fun j less => earlier (j + 1) (by omega)

theorem spared_restart {first count : Nat} : Spared answersAt s.restart r write first count ↔
    Spared answersAt s r write first count := by
  have made (pages : PageAnswers) (k : Nat) : Made pages s.restart r k ↔ Made pages s r k := by
    apply Made.congr
    simp only [(idle_restart s).at_iff]
  unfold Spared Passes
  simp only [made]

/-- A loop that fails keeps all that there was, unless it stops at an `ev_pagefault`. -/
theorem mapHandleLoop_ends (memtype : MemType np Page) (write : Bool)
    (writes : ∀ offset call, (answersAt offset).ptWritemap call) (count first : Nat)
    (sound : s.Sound) (counted : s.Counted) (region : r < s.vm.newRegion) :
    Ends (fun _ => True) (fun result => result.1 = false →
        Spared answersAt s r write first count ∧ s.Retains result.2 ∧ result.2.Counted ∨
          ¬ Spared answersAt s r write first count ∧ ∃ i, first ≤ i ∧ Lost s result.2 r i)
      (mapHandleLoop memtype answersAt r write count (first * vmPageSize) s) := by
  induction count generalizing first s with
  | zero => exact nofun
  | succ count ih =>
      have idle := idle_restart s
      have retained := idle.retains sound
      rw [mapHandleLoop]
      refine (mapPf_page retained.sound (idle.counted counted) region rfl (writes _) first).bind
        fun result page => ?_
      obtain ⟨ok, middle⟩ := result
      rcases page with ⟨passed, passes, retains, counted', beside⟩ |
        ⟨failed, unmade, retains, counted'⟩ | ⟨failed, made, asked, unhandled, lost⟩
      · dsimp only at passed
        subst passed
        dsimp only
        rw [← Nat.succ_mul]
        refine (ih (first + 1) retains.sound counted' (retains.newRegion ▸ region)).imp
          fun result ends failed => ?_
        rw [← spared_restart, spared_succ beside passes]
        rcases ends failed with ⟨spared, kept, counted''⟩ | ⟨unspared, i, low, lost⟩
        · exact Or.inl ⟨spared, retained.trans (retains.trans kept), counted''⟩
        · refine Or.inr ⟨unspared, i, by omega, lost.imp_left fun ⟨there, gone⟩ => ⟨?_, gone⟩⟩
          obtain ⟨pr, there⟩ := (beside i (by omega)).mp there
          exact ⟨pr, idle.at_iff.mp there⟩
      · dsimp only at failed
        subst failed
        refine fun _ => Or.inl ⟨?_, retained.trans retains, counted'⟩
        rw [← spared_restart]
        intro k _ earlier made
        cases k with
        | zero => exact absurd made unmade
        | succ k => exact absurd (earlier 0 (Nat.succ_pos k)).1 unmade
      · dsimp only at failed
        subst failed
        refine fun _ => Or.inr ⟨?_, first, Nat.le_refl _, lost.imp_left fun ⟨⟨pr, there⟩, gone⟩ =>
          ⟨⟨pr, idle.at_iff.mp there⟩, gone⟩⟩
        rw [← spared_restart]
        intro spared
        exact unhandled (spared 0 (Nat.succ_pos count) nofun made asked)

/-- Each slot of the region that had a block has one that holds the same. -/
def Kept (s s' : Server np Page) (r : Ptr) : Prop :=
  ∀ i pr, s.At r i pr → ∃ pr', s'.At r i pr' ∧
    ∀ page, s.contents pr = some page → s'.contents pr' = some page

theorem Kept.lost {i : Nat} (kept : Kept s s' r) (counted : s'.Counted) : ¬ Lost s s' r i := by
  rintro (⟨⟨pr, there⟩, gone⟩ | uncounted)
  · obtain ⟨pr', there', -⟩ := kept i pr there
    have slot := there'.slot
    rw [gone] at slot
    cases slot
  · exact uncounted counted

theorem mapHandleMemory_kept (sound : s.Sound) (counted : s.Counted) (region : r < s.vm.newRegion)
    (writes : ∀ offset call, (answersAt offset).ptWritemap call) {startOffset length : Nat}
    (aligned : startOffset % vmPageSize = 0 ∧ length % vmPageSize = 0)
    (bounds : startOffset < 2 ^ 32 ∧ length < 2 ^ 32) :
    Ends (fun _ => True) (fun result => result.1 = false → (Kept s result.2 r ∧ result.2.Counted ↔
        Spared answersAt s r write (startOffset / vmPageSize) (length / vmPageSize)))
      (s.mapHandleMemory memtype answersAt r startOffset length write) := by
  unfold mapHandleMemory
  refine assert_ends (fun _ => trivial) fun positive => ?_
  refine assert_ends (fun _ => trivial) fun order => ?_
  have count : (vbAdd startOffset length - startOffset + vmPageSize - 1) / vmPageSize =
      length / vmPageSize := by
    unfold vbAdd at order ⊢
    unfold vmPageSize at aligned ⊢
    omega
  have first : startOffset = startOffset / vmPageSize * vmPageSize := by
    unfold vmPageSize at aligned ⊢
    omega
  rw [count]
  have loop := mapHandleLoop_ends memtype write writes (length / vmPageSize)
    (startOffset / vmPageSize) sound counted region
  rw [← first] at loop
  refine loop.imp fun result ends failed => ?_
  rcases ends failed with ⟨spared, retains, counted'⟩ | ⟨unspared, i, -, lost⟩
  · exact iff_of_true ⟨retains.slots r, counted'⟩ spared
  · exact iff_of_false (fun ⟨kept, counted'⟩ => kept.lost counted' lost) unspared

/-- A page that is not there is not there after a fault that fails. -/
theorem mapPf_absent (absent : (s.vm.virRegion r).physblocks i = none)
    (writes : ∀ call, pages.ptWritemap call) :
    Ends (fun _ => True)
      (fun result => result.1 = false → (result.2.vm.virRegion r).physblocks i = none)
      (s.mapPf memtype pages r (i * vmPageSize) write) := by
  refine (mapPf_ends memtype pages s r i write).imp fun result ends failed => ?_
  obtain ⟨-, ⟨-, -, idle, -⟩ | ⟨pr, middle, -, faulted⟩⟩ := ends
  · rw [idle.virRegion]
    exact absent
  · rcases faulted with ⟨-, rfl⟩ | ⟨-, -, rfl⟩ | ⟨-, -, -, dropped⟩
    · rw [writes] at failed
      cases failed
    · rw [writes] at failed
      cases failed
    · exact dropped.slot

/-- A clone that fails has dropped the page. -/
theorem mapClonePhBlock_lost (there : s.At r i pr) (offset : pr.offset = i * vmPageSize)
    (writes : ∀ call, pages.ptWritemap call) :
    Ends (fun _ => True) (fun result => result.1 = none → Lost s result.2 r i)
      (s.mapClonePhBlock memtype pages r pr) := by
  unfold mapClonePhBlock
  refine assert_ends (fun _ => trivial) fun _ => ?_
  refine (pbUnreferenced_drops s r offset).bind fun vm' dropped => ?_
  refine assert_ends (fun _ => trivial) fun _ => assert_ends (fun _ => trivial) fun _ => ?_
  rw [offset]
  have gone : (({ s with vm := vm' }.slabfree
      (s.physRegionAt r (i * vmPageSize / vmPageSize))).vm.virRegion r).physblocks i = none :=
    dropped.slot
  refine (mapPf_absent gone writes).bind fun result gone => ?_
  obtain ⟨ok, s'⟩ := result
  cases ok with
  | false => exact fun _ => Or.inl ⟨⟨pr, there⟩, gone rfl⟩
  | true =>
      dsimp only
      cases s'.copyAbs2region pages.toAnswers (s.vm.physBlock pr.ph).phys r (i * vmPageSize) with
      | error stop => trivial
      | ok copied =>
          obtain ⟨ok, s''⟩ := copied
          cases ok with
          | false => trivial
          | true =>
              refine (physblockGet_ends _ _).bind fun found _ => ?_
              cases found with
              | none => trivial
              | some newpr => exact assert_ends (fun _ => trivial) fun _ => nofun

/-! A memory type whose page faults allocate a page for a block that has none. -/

/-- A block has got a new page, which holds `zero`. -/
def paged (s : Server np Page) (pb : Ptr) (click : Nat) (zero : Page) : Server np Page :=
  { s with
    vm := { s.vm.called.setBlock pb { s.vm.physBlock pb with phys := click2abs click } with
      free := s.vm.free.erase click }
    memory := update s.memory (click2abs click) zero }

def anonPagefault (answers : Answers) (zero : Page) (s : Server np Page) (pr : PhysRegion) :
    Server np Page :=
  if (s.vm.physBlock pr.ph).phys = mapNone then
    match answers.allocMem s.vm.calls 1 s.vm.free with
    | none => s
    | some click => s.paged pr.ph click zero
  else s

theorem abs2click_click2abs (click : Nat) : abs2click (click2abs click) = click :=
  Nat.mul_div_cancel click (by decide)

theorem paged_at (pb click : Nat) (zero : Page) {r' : Ptr} {i' : Nat} {pr' : PhysRegion} :
    (s.paged pb click zero).At r' i' pr' ↔ s.At r' i' pr' :=
  ⟨fun there => ⟨there.region, there.small, there.slot⟩,
    fun there => ⟨there.region, there.small, there.slot⟩⟩

theorem paged_retains (sound : s.Sound) {pb click : Nat} (zero : Page)
    (page : (s.vm.physBlock pb).phys = mapNone) (isFree : click ∈ s.vm.free) :
    s.Retains (s.paged pb click zero) := by
  have own : (s.paged pb click zero).vm.physBlock pb =
      { s.vm.physBlock pb with phys := click2abs click } := Function.update_self _ _ _
  have other {pb' : Ptr} (different : pb' ≠ pb) :
      (s.paged pb click zero).vm.physBlock pb' = s.vm.physBlock pb' :=
    Function.update_of_ne different _ _
  refine ⟨rfl, fun _ => rfl, fun r i pr there => ?_, fun r i pr there => ?_⟩
  · obtain ⟨older, apart⟩ := sound r i pr ((paged_at pb click zero).mp there)
    refine ⟨older, fun has => ?_⟩
    by_cases same : pr.ph = pb
    · rw [same, own, abs2click_click2abs]
      exact Finset.notMem_erase click s.vm.free
    · rw [other same] at has ⊢
      exact fun member => apart has (Finset.mem_of_mem_erase member)
  · refine ⟨pr, (paged_at pb click zero).mpr there, fun held holds => ?_⟩
    unfold Server.contents at holds ⊢
    by_cases same : pr.ph = pb
    · dsimp only at holds
      rw [same, if_pos page] at holds
      cases holds
    · dsimp only at holds ⊢
      rw [other same]
      by_cases none : (s.vm.physBlock pr.ph).phys = mapNone
      · rw [if_pos none] at holds
        cases holds
      · rw [if_neg none] at holds ⊢
        have elsewhere : (s.vm.physBlock pr.ph).phys ≠ click2abs click := by
          intro here
          apply (sound r i pr there).2 none
          rw [here, abs2click_click2abs]
          exact isFree
        rw [← holds]
        exact congrArg some (Function.update_of_ne elsewhere _ _)

theorem anonPagefault_retains (answers : Answers) (zero : Page) (sound : s.Sound) :
    s.Retains (anonPagefault answers zero s pr) ∧
      (anonPagefault answers zero s pr).occupied = s.occupied := by
  unfold anonPagefault
  by_cases page : (s.vm.physBlock pr.ph).phys = mapNone
  · rw [if_pos page]
    cases found : answers.allocMem s.vm.calls 1 s.vm.free with
    | none => exact ⟨.refl sound, rfl⟩
    | some click =>
        have isFree := answers.allocMem_free s.vm.calls 1 s.vm.free click found 0 Nat.one_pos
        refine ⟨paged_retains sound zero page isFree, ?_⟩
        ext slot
        simp only [mem_occupied, paged_at]
  · rw [if_neg page]
    exact ⟨.refl sound, rfl⟩

theorem anonPagefault_physRegions (answers : Answers) (zero : Page) :
    (anonPagefault answers zero s pr).physRegions = s.physRegions := by
  unfold anonPagefault
  split
  · cases answers.allocMem s.vm.calls 1 s.vm.free with
    | none => rfl
    | some click => rfl
  · rfl

end Server

def MemType.anon (np : Nat) (answers : Answers) (zero : Page) : MemType np Page where
  id := 0
  evNew := none
  evPagefault s _ pr _ := s.anonPagefault answers zero pr
  evPagefault_physRegions _ _ _ _ := Server.anonPagefault_physRegions answers zero
  evPagefault_retains _ _ _ _ _ sound _ := Server.anonPagefault_retains answers zero sound

namespace Server

variable {answers : Answers} {s : Server np Page} {r : Ptr} {i : Nat}

theorem pbNew_some {vm vm' : State np} {pb : Ptr} (made : pbNew answers vm = (some pb, vm')) :
    (vm'.physBlock pb).phys = mapNone ∧ vm'.calls = vm.calls + 1 ∧ vm'.free = vm.free := by
  unfold pbNew at made
  split at made
  · obtain ⟨rfl, rfl⟩ : vm.newBlock = pb ∧ _ = vm' := by simpa using made
    exact ⟨by simp [State.setBlock], rfl, rfl⟩
  · cases made

theorem pbReference_some (answers : Answers) (vm : State np) (pb offset : Nat) (r : Ptr) :
    Ends (fun _ => True) (fun result => ∀ ph ∈ result.1, ph = ⟨pb, offset⟩ ∧
        (result.2.physBlock pb).phys = (vm.physBlock pb).phys ∧
        result.2.calls = vm.calls + 1 ∧ result.2.free = vm.free ∧
        (result.2.virRegion r).physblocks (offset / vmPageSize) = some ph)
      (Vm.pbReference answers vm pb offset r) := by
  unfold Vm.pbReference
  split
  · refine (physblockSet_slot _ _ _ _).bind fun vm' set ph same => ?_
    obtain rfl : _ = ph := Option.some.inj same
    subst set
    exact ⟨rfl, by simp [State.setBlock, State.setSlot, State.called], rfl, rfl, by
      rw [setSlot_slot, if_pos ⟨rfl, rfl⟩]⟩
  · intro ph absent
    cases absent

theorem mapPfFault_anon (header : Header np) (answers : Answers) (zero : Page)
    (s : Server np Page) (r : Ptr) {pb : Ptr} (page : (s.vm.physBlock pb).phys = mapNone)
    (slot : (s.vm.virRegion r).physblocks i = some ⟨pb, i * vmPageSize⟩) (memtype : Nat) :
    (s.mapPfFault (.anon np answers zero) { answers with
        writable := false
        evPagefault := (answers.allocMem s.vm.calls 1 s.vm.free).isSome } r
      ⟨pb, i * vmPageSize⟩ true).map (fun result => (result.1, result.2.vm)) =
    if header.writable memtype (s.vm.physBlock pb) then
      Vm.mapPhWritept answers s.vm r ⟨pb, i * vmPageSize⟩
    else
      match evPagefault answers s.vm pb with
      | (false, vm) => do return (false, ← pbUnreferenced vm r ⟨pb, i * vmPageSize⟩)
      | (true, vm) => Vm.mapPhWritept answers vm r ⟨pb, i * vmPageSize⟩ := by
  have asked : header.writable memtype (s.vm.physBlock pb) = false := by
    have block : s.vm.physBlock pb = ⟨mapNone, (s.vm.physBlock pb).refcount⟩ := by rw [← page]
    rw [block, header.writable_none]
  have written (t : Server np Page) (pr : PhysRegion) : (t.mapPhWritept answers r pr).map
      (fun result => (result.1, result.2.vm)) = Vm.mapPhWritept answers t.vm r pr := by
    unfold mapPhWritept
    cases Vm.mapPhWritept answers t.vm r pr with
    | error stop => rfl
    | ok result => rfl
  rw [asked]
  unfold mapPfFault evPagefault
  cases found : answers.allocMem s.vm.calls 1 s.vm.free with
  | none =>
      simp only [Bool.false_eq_true, and_false, not_false_eq_true, if_true, Option.isSome_none,
        if_false]
      cases pbUnreferenced s.vm.called r ⟨pb, i * vmPageSize⟩ with
      | error stop => rfl
      | ok vm => rfl
  | some click =>
      have fault : (MemType.anon np answers zero).evPagefault s r ⟨pb, i * vmPageSize⟩ true =
          s.paged pb click zero := by
        show s.anonPagefault answers zero ⟨pb, i * vmPageSize⟩ = _
        unfold anonPagefault
        rw [if_pos page, found]
      have same : ((s.paged pb click zero).vm.virRegion r).physblocks i =
          some ⟨pb, i * vmPageSize⟩ := slot
      simp only [Bool.false_eq_true, and_false, not_false_eq_true, if_true, Option.isSome_some,
        if_false, fault, (offset_slot i).1, same, Option.getD_some, written]
      rfl

/-- With this memory type, a page that is not there is handled as by the fault of
`map_clone_ph_block`. -/
theorem mapPf_anon (header : Header np) (answers : Answers) (zero : Page) (s : Server np Page)
    (r : Ptr) (i : Nat) (absent : (s.vm.virRegion r).physblocks i = none) :
    (s.mapPf (.anon np answers zero) { answers with
        writable := false
        evPagefault := (answers.allocMem (s.vm.calls + 2) 1 s.vm.free).isSome } r (i * vmPageSize)
      true).map (fun result => (result.1, result.2.vm)) =
    Vm.mapPf header answers s.vm r (i * vmPageSize) := by
  unfold mapPf Vm.mapPf
  rw [(offset_slot i).2, Nat.sub_zero]
  dsimp only
  have writable (write : Bool) : (assert (¬ (true ∧ ¬ write)) .mapPf).map id =
      assert write .mapPf := by
    cases write <;> rfl
  refine map_bind (congrFun Except.map_id _) fun _ => ?_
  refine map_bind (congrFun Except.map_id _) fun _ => map_bind (writable _) fun _ => ?_
  unfold mapPfBlock
  cases got : physblockGet (s.vm.virRegion r) (i * vmPageSize) with
  | error stop => rfl
  | ok found =>
      obtain ⟨-, -, same, -⟩ := (physblockGet_slot _ _).of_eq got
      rw [(offset_slot i).1, absent] at same
      subst same
      rw [ok_bind, ok_bind]
      dsimp only
      cases made : pbNew answers s.vm with
      | mk new vm =>
          cases new with
          | none => rfl
          | some pb =>
              obtain ⟨page, calls, free⟩ := pbNew_some made
              have there := pbReference_some answers vm pb (i * vmPageSize) r
              unfold pbReference
              dsimp only
              cases referred : Vm.pbReference answers vm pb (i * vmPageSize) r with
              | error stop => rfl
              | ok result =>
                  obtain ⟨new, vm'⟩ := result
                  cases new with
                  | none => rfl
                  | some ph =>
                      obtain ⟨rfl, page', calls', free', slot⟩ := there.of_eq referred ph rfl
                      dsimp only at page' calls' free' slot
                      rw [(offset_slot i).1] at slot ⊢
                      rw [page] at page'
                      rw [calls] at calls'
                      rw [free] at free'
                      have fault := mapPfFault_anon header answers zero (s.newPhysr vm' r i) r page'
                        slot (s.vm.virRegion r).memtype
                      have call : (s.newPhysr vm' r i).vm.calls = s.vm.calls + 2 := calls'
                      have pages : (s.newPhysr vm' r i).vm.free = s.vm.free := free'
                      rw [call, pages] at fault
                      exact fault

theorem pbUnreferenced_idle (vm : State np) (r : Ptr) {pr : PhysRegion}
    (others : 1 < (vm.physBlock pr.ph).refcount) :
    Ends (fun _ => True) (fun vm' => vm'.free = vm.free ∧ vm'.calls = vm.calls)
      (pbUnreferenced vm r pr) := by
  unfold pbUnreferenced
  refine assert_ends (fun _ => trivial) fun _ => (physblockSet_slot _ _ _ _).imp fun vm' set => ?_
  subst set
  rw [if_neg (by omega)]
  exact ⟨rfl, rfl⟩

/-- The copy of a page does to the state what it does without the contents. -/
theorem copyAbs2region_vm (answers : Answers) (s : Server np Page) (abs : Nat) (destregion : Ptr)
    (offset : Nat) : (s.copyAbs2region answers abs destregion offset).map
      (fun result => (result.1, result.2.vm)) =
    Vm.copyAbs2region answers s.vm destregion offset := by
  unfold copyAbs2region
  cases Vm.copyAbs2region answers s.vm destregion offset with
  | error stop => rfl
  | ok result =>
      obtain ⟨ok, vm⟩ := result
      cases ok with
      | false => rfl
      | true =>
          rw [ok_bind]
          dsimp only
          cases (vm.virRegion destregion).physblocks (offset / vmPageSize) with
          | none => rfl
          | some ph => rfl

/-- The same of a clone, of which such a fault is a part. -/
theorem mapClonePhBlock_anon (header : Header np) (answers : Answers) (zero : Page)
    (s : Server np Page) (r : Ptr) {ph : PhysRegion} (offset : ph.offset = i * vmPageSize) :
    (s.mapClonePhBlock (.anon np answers zero) { answers with
        writable := false
        evPagefault := (answers.allocMem (s.vm.calls + 2) 1 s.vm.free).isSome } r ph).map
      (fun result => (result.1, result.2.vm)) =
    Vm.mapClonePhBlock header answers s.vm r ph := by
  unfold mapClonePhBlock Vm.mapClonePhBlock
  by_cases others : 1 < (s.vm.physBlock ph.ph).refcount
  · rw [assert_true _ others, assert_true _ others]
    have drops := pbUnreferenced_drops s r offset
    have idle := pbUnreferenced_idle s.vm r others
    cases dropped : pbUnreferenced s.vm r ph with
    | error stop => rfl
    | ok vm =>
        obtain ⟨free, calls⟩ := idle.of_eq dropped
        have gone := (drops.of_eq dropped).slot
        rw [ok_bind, ok_bind, offset]
        generalize middle : { s with vm := vm }.slabfree
          (s.physRegionAt r (i * vmPageSize / vmPageSize)) = t
        have same : t.vm = vm := by rw [← middle, slabfree]
        subst same
        have fault := mapPf_anon header answers zero t r i gone
        rw [calls, free] at fault
        rw [← fault]
        dsimp only
        refine map_bind (congrFun Except.map_id _) fun _ => ?_
        refine map_bind (congrFun Except.map_id _) fun _ => map_bind rfl fun result => ?_
        obtain ⟨ok, t'⟩ := result
        cases ok with
        | false => rfl
        | true =>
            refine map_bind (copyAbs2region_vm _ _ _ _ _) fun result => ?_
            obtain ⟨ok, t''⟩ := result
            cases ok with
            | false => rfl
            | true =>
                refine map_bind (congrFun Except.map_id _) fun found => ?_
                cases found with
                | none => rfl
                | some newpr => exact map_bind (congrFun Except.map_id _) fun _ => rfl
  · rw [assert_stops _ others, assert_stops _ others]
    rfl

end Server

/-- Its first block has a second reference. -/
def smallServer : Server 2 Nat where
  vm := smallStart.setBlock 0 ⟨vmPageSize, 2⟩
  physRegions := {0, 1, 2}
  newPhysRegion := 3
  known := by decide
  physRegionAt _ i := i
  memory address := address
  vmRegionTop _ := 0

theorem smallServer_at {r : Ptr} {i : Nat} {pr : PhysRegion} (there : smallServer.At r i pr) :
    i < 3 ∧ pr = ⟨i, i * vmPageSize⟩ := by
  have slot : (if i < 3 then some ⟨i, i * vmPageSize⟩ else none) = some pr := there.slot
  by_cases small : i < 3
  · rw [if_pos small] at slot
    exact ⟨small, (Option.some.inj slot).symm⟩
  · rw [if_neg small] at slot
    cases slot

theorem smallServer_sound : smallServer.Sound := by
  intro r i pr there
  obtain ⟨small, rfl⟩ := smallServer_at there
  rcases (by omega : i = 0 ∨ i = 1 ∨ i = 2) with rfl | rfl | rfl <;> decide

theorem smallServer_counted : smallServer.Counted := by
  unfold Server.Counted
  decide

/-- What is answered to a fault: by the slab allocator, by `writable` and by `ev_pagefault`. -/
def smallAnswers (slaballoc : Nat → Bool) (writable evPagefault : Bool) : PageAnswers where
  toAnswers := { firstFit 16 with slaballoc }
  writable := writable
  evPagefault := evPagefault

/-- A call that fails keeps what was resident just when it does not fail at an `ev_pagefault`. A
clone that fails never keeps it. -/
theorem resident_kept_iff {s : Server np Page} {r : Ptr} (memtype : MemType np Page)
    (sound : s.Sound) (counted : s.Counted) (region : r < s.vm.newRegion) :
    (∀ answersAt startOffset length write s',
      (∀ offset call, (answersAt offset).ptWritemap call) →
      startOffset % vmPageSize = 0 ∧ length % vmPageSize = 0 →
      startOffset < 2 ^ 32 ∧ length < 2 ^ 32 →
      s.mapHandleMemory memtype answersAt r startOffset length write = .ok (false, s') →
      (Server.Kept s s' r ∧ s'.Counted ↔
        Server.Spared answersAt s r write (startOffset / vmPageSize) (length / vmPageSize))) ∧
    ∀ (answers : PageAnswers) i ph s', (∀ call, answers.ptWritemap call) → s.At r i ph →
      ph.offset = i * vmPageSize →
      s.mapClonePhBlock memtype answers r ph = .ok (none, s') →
      ¬ (Server.Kept s s' r ∧ s'.Counted) := by
  constructor
  · intro answersAt startOffset length write s' writes aligned bounds failed
    exact (Server.mapHandleMemory_kept sound counted region writes aligned bounds).of_eq failed rfl
  · intro answers i ph s' writes there offset failed kept
    exact kept.1.lost kept.2 ((Server.mapClonePhBlock_lost there offset writes).of_eq failed rfl)

/-- There is no memory for a fault at the fourth page and a clone of the first. -/
theorem resident_kept_iff_small :
    (∃ s', smallServer.mapHandleMemory (.anon 2 (firstFit 16) 0)
        (fun _ => smallAnswers (fun _ => false) false true) 0 12288 4096 true = .ok (false, s') ∧
      (Server.Kept smallServer s' 0 ∧ s'.Counted ↔
        Server.Spared (fun _ => smallAnswers (fun _ => false) false true) smallServer 0 true
          (12288 / vmPageSize) (4096 / vmPageSize))) ∧
    ∃ s', smallServer.mapClonePhBlock (.anon 2 (firstFit 16) 0)
        (smallAnswers (fun _ => false) false true) 0 ⟨0, 0⟩ = .ok (none, s') ∧
      ¬ (Server.Kept smallServer s' 0 ∧ s'.Counted) := by
  have kept := resident_kept_iff (.anon 2 (firstFit 16) 0) smallServer_sound
    smallServer_counted (by decide : 0 < smallServer.vm.newRegion)
  obtain ⟨⟨_, s'⟩, handled, rfl⟩ := returns_of_map (show (smallServer.mapHandleMemory
    (.anon 2 (firstFit 16) 0) (fun _ => smallAnswers (fun _ => false) false true) 0 12288 4096
    true).map Prod.fst = .ok false by rfl)
  obtain ⟨⟨_, t'⟩, cloned, rfl⟩ := returns_of_map (show (smallServer.mapClonePhBlock
    (.anon 2 (firstFit 16) 0) (smallAnswers (fun _ => false) false true) 0 ⟨0, 0⟩).map Prod.fst =
    .ok none by rfl)
  refine ⟨⟨s', handled, ?_⟩, t', cloned, ?_⟩
  · exact kept.1 _ 12288 4096 true s' (fun _ _ => rfl) ⟨by decide, by decide⟩
      ⟨by decide, by decide⟩ handled
  · exact kept.2 _ 0 ⟨0, 0⟩ t' (fun _ => rfl) ⟨by decide, by decide, rfl⟩ rfl cloned

/-- The first page is there, and is gone when `ev_pagefault` fails to make it writable. -/
theorem resident_page_lost :
    (smallServer.mapHandleMemory (.anon 2 (firstFit 16) 0)
        (fun _ => smallAnswers (fun _ => true) false false) 0 0 4096 true).map
        (fun result => (result.1, (result.2.vm.virRegion 0).physblocks 0)) = .ok (false, none) ∧
      ∀ s', smallServer.mapHandleMemory (.anon 2 (firstFit 16) 0)
          (fun _ => smallAnswers (fun _ => true) false false) 0 0 4096 true = .ok (false, s') →
        ¬ (Server.Kept smallServer s' 0 ∧ s'.Counted) := by
  have failed : (smallServer.mapHandleMemory (.anon 2 (firstFit 16) 0)
      (fun _ => smallAnswers (fun _ => true) false false) 0 0 4096 true).map
      (fun result => (result.1, (result.2.vm.virRegion 0).physblocks 0)) = .ok (false, none) := by
    rfl
  refine ⟨failed, fun s' returned kept => ?_⟩
  rw [returned] at failed
  have gone : (s'.vm.virRegion 0).physblocks 0 = none :=
    congrArg Prod.snd (Except.ok.inj failed)
  have there : smallServer.At 0 0 ⟨0, 0⟩ := ⟨by decide, by decide, rfl⟩
  exact kept.1.lost kept.2 (Or.inl ⟨⟨⟨0, 0⟩, there⟩, gone⟩)

end Ve482.Vm
