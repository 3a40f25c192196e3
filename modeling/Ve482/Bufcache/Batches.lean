import Ve482.Bufcache.Gets

set_option autoImplicit false

namespace Ve482.Bufcache

open Function (update)
open TwoLevel (Coherent Slot State Step Steps)

variable {n : Nat} {α : Type} {header : Header} {env : Environment α}

/-- The marks when a batch of prefetched buffers has been handed over. -/
def Marks.handed (marks : Marks n) (bufq : List (Fin n)) : Marks n :=
  { marks with awaited := Cache.setAll bufq none marks.awaited }

namespace Cache

variable {marks : Marks n} {faults : Prop}

/-- What putting and naming buffers leaves alone. -/
structure SameBlocks (before after : Cache n α) : Prop where
  blocknr : after.lmfsBlocknr = before.lmfsBlocknr
  bytes : after.lmfsBytes = before.lmfsBytes
  dirt : after.lmfsDirt = before.lmfsDirt
  data : after.data = before.data
  disk : after.disk = before.disk
  vm : after.vm = before.vm
  vmcache : after.vmcache = before.vmcache

theorem SameBlocks.trans {first second third : Cache n α} (left : SameBlocks first second)
    (right : SameBlocks second third) : SameBlocks first third :=
  ⟨right.blocknr.trans left.blocknr, right.bytes.trans left.bytes, right.dirt.trans left.dirt,
    right.data.trans left.data, right.disk.trans left.disk, right.vm.trans left.vm,
    right.vmcache.trans left.vmcache⟩

theorem put_sameBlocks (header : Header) (cache : Cache n α) (bp : Fin n) (blockType : BitVec 32) :
    SameBlocks cache (cache.lmfsPutBlock header bp blockType) :=
  ⟨put_lmfsBlocknr .., rfl, rfl, rfl, rfl, rfl, rfl⟩

theorem putAll_sameBlocks (header : Header) (cache : Cache n α) (bufq : List (Fin n)) :
    SameBlocks cache (cache.putAll header bufq) := by
  induction bufq generalizing cache with
  | nil => exact ⟨rfl, rfl, rfl, rfl, rfl, rfl, rfl⟩
  | cons bp bufq ih => exact (put_sameBlocks header cache bp header.partialDataBlock).trans (ih _)

theorem settle_sameBlocks (header : Header) (dev : Dev) (bufs : List (Fin n)) (cache : Cache n α) :
    SameBlocks cache (bufs.foldl (settle header dev .reading) cache) := by
  induction bufs generalizing cache with
  | nil => exact ⟨rfl, rfl, rfl, rfl, rfl, rfl, rfl⟩
  | cons bp bufs ih =>
      have named : SameBlocks cache (cache.setDev bp dev) := ⟨rfl, rfl, rfl, rfl, rfl, rfl, rfl⟩
      exact (named.trans (put_sameBlocks header _ bp header.partialDataBlock)).trans (ih _)

theorem gatherBufs_other (answer : Answer α) (dev : Dev) (position i : Nat) {bufs : List (Fin n)}
    (cache : Cache n α) {bp : Fin n} (outside : bp ∉ bufs) :
    (gatherBufs header answer dev position i bufs cache).data bp = cache.data bp := by
  induction bufs generalizing i cache with
  | nil => rfl
  | cons first bufs ih =>
      rw [List.mem_cons, not_or] at outside
      rw [gatherBufs, ih (i + 1) _ outside.2]
      exact Function.update_of_ne outside.1 ..

/-- A buffer of a gather gets the block at its place. -/
theorem gatherBufs_data (header : Header) (answer : Answer α) (dev : Dev) (position i : Nat)
    {bufs : List (Fin n)}
    (distinct : bufs.Nodup) (cache : Cache n α) {j : Nat} {bp : Fin n} (at_j : bufs[j]? = some bp) :
    (gatherBufs header answer dev position i bufs cache).data bp =
      readBuffer header answer (i + j) (cache.disk dev (position + (i + j))) (cache.data bp) := by
  induction bufs generalizing i j cache with
  | nil => cases at_j
  | cons first bufs ih =>
      obtain ⟨outside, distinct⟩ := List.nodup_cons.mp distinct
      rw [gatherBufs]
      cases j with
      | zero =>
          have same : first = bp := Option.some.inj at_j
          subst same
          rw [gatherBufs_other answer dev position (i + 1) _ outside]
          exact Function.update_self ..
      | succ j =>
          have later : bufs[j]? = some bp := at_j
          have apart : bp ≠ first := by
            intro same
            rw [same] at later
            exact outside (List.mem_of_getElem? later)
          rw [ih (i + 1) distinct _ later, show i + 1 + j = i + (j + 1) by omega]
          congr 1
          exact Function.update_of_ne apart ..

/-- What a scattered read does to the blocks of the queue. -/
structure ReadsBlocks (header : Header) (dev : Dev) (bufq : List (Fin n))
    (before after : Cache n α) : Prop where
  blocknr : after.lmfsBlocknr = before.lmfsBlocknr
  bytes : after.lmfsBytes = before.lmfsBytes
  dirt : after.lmfsDirt = before.lmfsDirt
  disk : after.disk = before.disk
  keepsVm : KeepsVm before after
  others : ∀ bp, bp ∉ bufq →
    after.data bp = before.data bp ∧ after.lmfsDev bp = before.lmfsDev bp
  queued : ∀ bp ∈ bufq, after.lmfsDev bp = header.noDev ∨ after.lmfsDev bp = dev ∧
    after.data bp = some (before.disk dev (before.lmfsBlocknr bp).toNat)

theorem transferRun_reading_eq (header : Header) (env : Environment α) (cache : Cache n α)
    (dev : Dev) (bp : Fin n) (bufs : List (Fin n)) :
    transferRun header env dev .reading bp (bp :: bufs) cache =
      if ((cache.answerTo header env (bp :: bufs)).result / header.fsBlockSize).toNat = 0 then
        (0, ((cache.bdevGather header env dev (cache.lmfsBlocknr bp).toNat
          (bp :: bufs)).2.setDev bp header.noDev).vmForgetblocks)
      else
        (min (bp :: bufs).length
            ((cache.answerTo header env (bp :: bufs)).result / header.fsBlockSize).toNat,
          ((bp :: bufs).take
            ((cache.answerTo header env (bp :: bufs)).result / header.fsBlockSize).toNat).foldl
            (settle header dev .reading)
            (cache.bdevGather header env dev (cache.lmfsBlocknr bp).toNat (bp :: bufs)).2) :=
  harvest_first header dev .reading _ bp bufs _

theorem bdevGather_sameBlocks (header : Header) (env : Environment α) (cache : Cache n α)
    (dev : Dev) (position : Nat) (bufs : List (Fin n)) :
    ∃ data, (cache.bdevGather header env dev position bufs).2 = { cache with
      data := data, requests := cache.requests ++ [⟨.reading, dev, position, bufs⟩] } := by
  obtain ⟨data, same⟩ := gatherBufs_eq header (cache.answerTo header env bufs) dev
    position 0 bufs { cache with requests := cache.requests ++ [⟨.reading, dev, position, bufs⟩] }
  exact ⟨data, same⟩

theorem transferRun_readsBlocks {cache : Cache n α} {dev : Dev} {bp : Fin n} {bufs : List (Fin n)}
    (distinct : (bp :: bufs).Nodup)
    (unnamed : ∀ other ∈ bp :: bufs, cache.lmfsDev other = header.noDev)
    (placed : ∀ i other, (bp :: bufs)[i]? = some other →
      (cache.lmfsBlocknr other).toNat = (cache.lmfsBlocknr bp).toNat + i) :
    ReadsBlocks header dev (bp :: bufs) cache
      (transferRun header env dev .reading bp (bp :: bufs) cache).2 := by
  have gathered (other : Fin n) (outside : other ∉ bp :: bufs) :
      (cache.bdevGather header env dev (cache.lmfsBlocknr bp).toNat (bp :: bufs)).2.data other =
        cache.data other := gatherBufs_other _ dev _ 0 _ outside
  have read (i : Nat) (other : Fin n) (at_i : (bp :: bufs)[i]? = some other) :
      (cache.bdevGather header env dev (cache.lmfsBlocknr bp).toNat (bp :: bufs)).2.data other =
        readBuffer header (cache.answerTo header env (bp :: bufs)) i
          (cache.disk dev (cache.lmfsBlocknr other).toNat) (cache.data other) := by
    have got := gatherBufs_data header (cache.answerTo header env (bp :: bufs)) dev
      (cache.lmfsBlocknr bp).toNat 0 distinct { cache with
        requests := cache.requests ++
          [⟨.reading, dev, (cache.lmfsBlocknr bp).toNat, bp :: bufs⟩] } at_i
    rw [Nat.zero_add, ← placed i other at_i] at got
    exact got
  rw [transferRun_reading_eq]
  obtain ⟨data, same⟩ := bdevGather_sameBlocks header env cache dev (cache.lmfsBlocknr bp).toNat
    (bp :: bufs)
  rw [same] at gathered read ⊢
  by_cases none :
      ((cache.answerTo header env (bp :: bufs)).result / header.fsBlockSize).toNat = 0
  · rw [if_pos none]
    refine ⟨rfl, rfl, rfl, rfl, ⟨rfl, fun _ => Or.inl rfl⟩, fun other outside => ⟨gathered other outside,
      ?_⟩, fun other member => Or.inl ?_⟩
    · apply Function.update_of_ne
      intro same
      exact outside (same ▸ List.mem_cons_self)
    · by_cases first : other = bp
      · rw [first]
        exact Function.update_self ..
      · exact (Function.update_of_ne first ..).trans (unnamed other member)
  · rw [if_neg none]
    have kept := settle_sameBlocks header dev ((bp :: bufs).take
      ((cache.answerTo header env (bp :: bufs)).result / header.fsBlockSize).toNat)
      { cache with
        data := data
        requests := cache.requests ++ [⟨.reading, dev, (cache.lmfsBlocknr bp).toNat, bp :: bufs⟩] }
    refine ⟨kept.blocknr, kept.bytes, kept.dirt, kept.disk,
      ⟨kept.vmcache, fun id => Or.inr ?_⟩, fun other outside => ⟨?_, ?_⟩,
      fun other member => ?_⟩
    · rw [kept.vm]
    · rw [kept.data]
      exact gathered other outside
    · rw [settle_lmfsDev, if_neg fun early => outside (List.mem_of_mem_take early)]
    · rw [settle_lmfsDev, kept.data]
      by_cases early : other ∈ (bp :: bufs).take
          ((cache.answerTo header env (bp :: bufs)).result / header.fsBlockSize).toNat
      · refine Or.inr ⟨if_pos early, ?_⟩
        obtain ⟨i, at_i⟩ := List.mem_iff_getElem?.mp early
        rw [List.getElem?_take, Option.ite_none_right_eq_some] at at_i
        refine (read i other at_i.2).trans ?_
        rw [readBuffer, if_pos ((completed_iff _ i).mpr at_i.1)]
      · rw [if_neg early]
        exact Or.inl (unnamed other member)

theorem readScattered_readsBlocks (header : Header) (env : Environment α) {cache : Cache n α}
    (dev : Dev) {bufq : List (Fin n)} (distinct : bufq.Nodup)
    (unnamed : ∀ bp ∈ bufq, cache.lmfsDev bp = header.noDev) :
    ReadsBlocks header dev bufq cache (cache.lmfsRwScattered header env dev bufq .reading) := by
  have perm := ShellSort.sort_perm (fun bp => (cache.lmfsBlocknr bp).toNat) bufq
  have sorted := ShellSort.sort_sorted (fun bp => (cache.lmfsBlocknr bp).toNat) bufq
  unfold lmfsRwScattered
  rw [← perm.length_eq]
  have single := perm.nodup_iff.mpr distinct
  suffices queued : ReadsBlocks header dev
      (ShellSort.sort (fun bp => (cache.lmfsBlocknr bp).toNat) bufq) cache
      (transfers header env dev .reading
        (ShellSort.sort (fun bp => (cache.lmfsBlocknr bp).toNat) bufq).length
        (ShellSort.sort (fun bp => (cache.lmfsBlocknr bp).toNat) bufq) cache) by
    refine ⟨queued.blocknr, queued.bytes, queued.dirt, queued.disk, queued.keepsVm,
      fun bp outside => ?_, fun bp member => queued.queued bp (perm.mem_iff.mpr member)⟩
    exact queued.others bp fun member => outside (perm.mem_iff.mp member)
  have unnamed (bp : Fin n)
      (member : bp ∈ ShellSort.sort (fun bp => (cache.lmfsBlocknr bp).toNat) bufq) :
      cache.lmfsDev bp = header.noDev := unnamed bp (perm.mem_iff.mp member)
  revert sorted single unnamed
  generalize ShellSort.sort (fun bp => (cache.lmfsBlocknr bp).toNat) bufq = queue
  intro sorted single unnamed
  cases queue with
  | nil =>
      exact ⟨rfl, rfl, rfl, rfl, .refl cache, fun _ _ => ⟨rfl, rfl⟩, fun _ member => by cases member⟩
  | cons bp queue =>
      obtain ⟨bufs, run⟩ := nextRun_ne_nil header cache bp queue
      have sub := nextRun_sublist header cache bp queue
      have placed (i : Nat) (other : Fin n) (at_i : (bp :: bufs)[i]? = some other) :
          (cache.lmfsBlocknr other).toNat = (cache.lmfsBlocknr bp).toNat + i := by
        rw [← run] at at_i
        exact nextRun_position sorted at_i
      rw [run] at sub
      have reads : ReadsBlocks header dev (bp :: bufs) cache
          (transferRun header env dev .reading bp (bp :: bufs) cache).2 :=
        transferRun_readsBlocks (single.sublist sub)
          (fun other member => unnamed other (sub.subset member)) placed
      rw [List.length_cons, transfers, run]
      dsimp only
      have put := putAll_sameBlocks header
        (transferRun header env dev .reading bp (bp :: bufs) cache).2
        ((bp :: queue).drop (transferRun header env dev .reading bp (bp :: bufs) cache).1)
      refine ⟨put.blocknr.trans reads.blocknr, put.bytes.trans reads.bytes,
        put.dirt.trans reads.dirt, put.disk.trans reads.disk,
        reads.keepsVm.trans ⟨put.vmcache, fun id => Or.inr (congrFun put.vm id)⟩,
        fun other outside => ?_, fun other member => ?_⟩
      · rw [put.data, putAll_lmfsDev]
        exact reads.others other fun member => outside (sub.subset member)
      · rw [put.data, putAll_lmfsDev]
        by_cases early : other ∈ bp :: bufs
        · exact reads.queued other early
        · refine Or.inl ?_
          rw [(reads.others other early).2]
          exact unnamed other member

theorem ReadsBlocks.view {dev : Dev} {bufq : List (Fin n)} {before after : Cache n α}
    (reads : ReadsBlocks header dev bufq before after) (marks : Marks n) :
    after.view header (marks.handed bufq) =
      { before.view header marks with
        slot := fun bp => if bp ∈ bufq then after.slot header (marks.handed bufq).awaited bp
          else (before.view header marks).slot bp
        data := fun bp => if bp ∈ bufq then after.data bp else before.data bp
        second := fun key => after.vm (make64 key.1 key.2) } := by
  have slots : after.slot header (marks.handed bufq).awaited = fun bp =>
      if bp ∈ bufq then after.slot header (marks.handed bufq).awaited bp
      else (before.view header marks).slot bp := by
    funext bp
    by_cases member : bp ∈ bufq
    · rw [if_pos member]
    · rw [if_neg member]
      change after.slot header _ bp = before.slot header marks.awaited bp
      have still : (marks.handed bufq).awaited bp = marks.awaited bp := if_neg member
      unfold slot
      rw [(reads.others bp member).2, reads.blocknr, still]
  have contents : after.data = fun bp => if bp ∈ bufq then after.data bp else before.data bp := by
    funext bp
    by_cases member : bp ∈ bufq
    · rw [if_pos member]
    · rw [if_neg member]
      exact (reads.others bp member).1
  unfold Cache.view
  rw [TwoLevel.State.mk.injEq, reads.dirt, reads.disk]
  exact ⟨slots, rfl, rfl, contents, rfl, rfl⟩

/-- A batch of prefetched buffers is read: they come by their names, or are given up. -/
theorem readScattered_moves (env : Environment α) {cache : Cache n α}
    (wellformed : cache.Wellformed header) (marked : Marked header marks cache)
    (coherent : Coherent (Proper header) (cache.view header marks)) {dev : Dev}
    {bufq : List (Fin n)} (distinct : bufq.Nodup)
    (awaited : ∀ bp ∈ bufq, marks.awaited bp = some dev) :
    Moves header faults marks (marks.handed bufq) cache
      (cache.lmfsRwScattered header env dev bufq .reading) := by
  have waiting (bp : Fin n) (member : bp ∈ bufq) := marked.awaited bp dev (awaited bp member)
  have holds : cache.Holds bufq := by
    intro bp
    by_cases member : bp ∈ bufq
    · rw [List.count_eq_one_of_mem distinct member]
      exact (waiting bp member).2.2.2.2
    · rw [List.count_eq_zero_of_not_mem member]
      exact Nat.zero_le _
  have result : (cache.lmfsRwScattered header env dev bufq .reading).Wellformed header :=
    readScattered_wellformed wellformed dev holds
  have counts := ((lmfsRwScattered_exact header env cache dev bufq .reading distinct
    (fun _ bp member => (waiting bp member).2.2.2.2)
    fun _ bp member => (waiting bp member).2.1).reading rfl).count
  have reads := readScattered_readsBlocks header env dev distinct
    fun bp member => (waiting bp member).2.1
  revert result counts reads
  generalize cache.lmfsRwScattered header env dev bufq .reading = after
  intro result counts reads
  have kept {bp : Fin n} (outside : bp ∉ bufq) : after.lmfsCount bp = cache.lmfsCount bp := by
    have count := counts bp
    rw [if_neg outside, Nat.add_zero] at count
    exact count
  refine ⟨?_, result, ⟨fun bp waits still => ?_, fun bp pending => ?_⟩, fun quiet =>
    reads.keepsVm.quiet quiet⟩
  · have forgotten : Step (Proper header) faults (cache.view header marks)
        { cache.view header marks with second := fun key => after.vm (make64 key.1 key.2) } :=
      .forget fun key => reads.keepsVm.vm _
    rw [reads.view marks]
    refine .head forgotten (TwoLevel.Steps.fill (forgotten.coherent coherent) distinct _ _ ?_)
    intro bp member
    obtain ⟨device, unnamed, clean, -⟩ := waiting bp member
    refine ⟨(dev, cache.lmfsBlocknr bp), ?_, ?_, ?_⟩
    · change cache.slot header marks.awaited bp = _
      unfold slot
      rw [if_neg (not_not.mpr unnamed), awaited bp member]
    · simp [Cache.view, clean]
    · cases reads.queued bp member with
      | inl given =>
          refine Or.inl ?_
          have released : (marks.handed bufq).awaited bp = none := if_pos member
          unfold slot
          rw [if_neg (not_not.mpr given), released]
      | inr named =>
          refine Or.inr ⟨?_, named.2⟩
          rw [slot_of_named (named.1 ▸ device), named.1, reads.blocknr]
  · have before : (if bp ∈ bufq then none else marks.awaited bp) = some waits := still
    by_cases member : bp ∈ bufq
    · rw [if_pos member] at before
      cases before
    · rw [if_neg member] at before
      obtain ⟨device, unnamed, clean, written, used⟩ := marked.awaited bp waits before
      refine ⟨device, ?_, ?_, written, ?_⟩
      · rw [(reads.others bp member).2]
        exact unnamed
      · rw [reads.dirt]
        exact clean
      · rw [kept member]
        exact used
  · have outside : bp ∉ bufq := by
      intro member
      have written := (waiting bp member).2.2.2.1
      exact absurd (written.symm.trans pending) (by decide)
    rw [kept outside]
    exact marked.unwritten bp pending

end Cache

end Ve482.Bufcache
