import Ve482.Bufcache.Represented
import Ve482.Lib.TwoLevel

set_option autoImplicit false

namespace Ve482.Bufcache

open Function (update)
open TwoLevel (Slot Step Steps)

variable {n : Nat} {α : Type} {header : Header} {env : Environment α}

namespace Cache

theorem runLength_ge (blocknr : Fin n → BlockNr) (first : BlockNr) (j limit : Nat)
    (bufs : List (Fin n)) : j ≤ runLength blocknr first j limit bufs := by
  induction bufs generalizing j limit with
  | nil => cases limit <;> exact Nat.le_refl j
  | cons bp bufs ih =>
      cases limit with
      | zero => exact Nat.le_refl j
      | succ limit =>
          rw [runLength]
          by_cases differs : blocknr bp ≠ first + BitVec.ofNat 32 j
          · rw [if_pos differs]
          · rw [if_neg differs]
            exact Nat.le_of_succ_le (ih (j + 1) limit)

theorem runLength_blocknr (blocknr : Fin n → BlockNr) (first : BlockNr) {j limit i : Nat}
    {bufs : List (Fin n)} {bp : Fin n} (within : j + i < runLength blocknr first j limit bufs)
    (at_i : bufs[i]? = some bp) : blocknr bp = first + BitVec.ofNat 32 (j + i) := by
  induction bufs generalizing j limit i with
  | nil => cases at_i
  | cons next bufs ih =>
      cases limit with
      | zero =>
          have short : runLength blocknr first j 0 (next :: bufs) = j := rfl
          omega
      | succ limit =>
          rw [runLength] at within
          by_cases differs : blocknr next ≠ first + BitVec.ofNat 32 j
          · rw [if_pos differs] at within
            omega
          · rw [if_neg differs] at within
            cases i with
            | zero =>
                have same : next = bp := Option.some.inj at_i
                subst same
                exact not_not.mp differs
            | succ i =>
                have found := ih (by rw [show j + 1 + i = j + (i + 1) by omega]; exact within) at_i
                rw [found, show j + 1 + i = j + (i + 1) by omega]

theorem nextRun_ne_nil (header : Header) (cache : Cache n α) (bp : Fin n) (bufq : List (Fin n)) :
    ∃ rest, cache.nextRun header bp bufq = bp :: rest := by
  unfold nextRun
  have first : 1 ≤ runLength cache.lmfsBlocknr (cache.lmfsBlocknr bp) 0 header.nrIoreqs
      (bp :: bufq) := by
    obtain ⟨limit, enough⟩ : ∃ limit, header.nrIoreqs = limit + 1 :=
      ⟨header.nrIoreqs - 1, by have positive := header.nrIoreqs_pos; omega⟩
    rw [enough, runLength, if_neg (by simp)]
    exact runLength_ge _ _ 1 limit bufq
  obtain ⟨length, enough⟩ : ∃ length, runLength cache.lmfsBlocknr (cache.lmfsBlocknr bp) 0
      header.nrIoreqs (bp :: bufq) = length + 1 := ⟨_, (Nat.succ_pred_eq_of_pos first).symm⟩
  rw [enough]
  exact ⟨bufq.take length, rfl⟩

/-- In a sorted queue a run of consecutive 32-bit block numbers does not wrap around. -/
theorem nextRun_position {cache : Cache n α} {bp : Fin n} {bufq : List (Fin n)}
    (sorted : (bp :: bufq).Pairwise fun left right =>
      (cache.lmfsBlocknr left).toNat ≤ (cache.lmfsBlocknr right).toNat)
    {i : Nat} {other : Fin n} (at_i : (cache.nextRun header bp bufq)[i]? = some other) :
    (cache.lmfsBlocknr other).toNat = (cache.lmfsBlocknr bp).toNat + i := by
  unfold nextRun at at_i
  rw [List.getElem?_take] at at_i
  by_cases within : i < runLength cache.lmfsBlocknr (cache.lmfsBlocknr bp) 0 header.nrIoreqs
      (bp :: bufq)
  · rw [if_pos within] at at_i
    induction i generalizing other with
    | zero =>
        have same : bp = other := Option.some.inj at_i
        rw [same, Nat.add_zero]
    | succ i ih =>
        have inside : i + 1 < (bp :: bufq).length := (List.getElem?_eq_some_iff.mp at_i).1
        have before : (bp :: bufq)[i]? = some (bp :: bufq)[i] :=
          List.getElem?_eq_getElem (by omega)
        have previous := ih before (by omega)
        have order := List.pairwise_iff_getElem.mp sorted i (i + 1) (by omega) inside (by omega)
        rw [(List.getElem?_eq_some_iff.mp at_i).2] at order
        have here := runLength_blocknr cache.lmfsBlocknr (cache.lmfsBlocknr bp)
          (show 0 + (i + 1) < runLength cache.lmfsBlocknr (cache.lmfsBlocknr bp) 0
            header.nrIoreqs (bp :: bufq) by omega) at_i
        have there := runLength_blocknr cache.lmfsBlocknr (cache.lmfsBlocknr bp)
          (show 0 + i < runLength cache.lmfsBlocknr (cache.lmfsBlocknr bp) 0
            header.nrIoreqs (bp :: bufq) by omega) before
        -- the block number is one more than the one before it, modulo 2 ^ 32
        have next : cache.lmfsBlocknr other = cache.lmfsBlocknr (bp :: bufq)[i] + 1 := by
          rw [here, there]
          bv_omega
        rw [next] at order ⊢
        bv_omega
  · rw [if_neg within] at at_i
    cases at_i

theorem blocks_zero {r : Int} (failed : r < header.fsBlockSize) :
    (r / header.fsBlockSize).toNat = 0 := by
  have positive := header.fsBlockSize_pos
  have below := Int.ediv_lt_of_lt_mul (a := r) (b := 1) (c := header.fsBlockSize)
    (by omega) (by omega)
  omega

theorem blocks_succ {r : Int} (some_block : ¬ r < header.fsBlockSize) :
    (r / header.fsBlockSize).toNat =
      ((r - header.fsBlockSize) / header.fsBlockSize).toNat + 1 := by
  have positive := header.fsBlockSize_pos
  have less : (r - header.fsBlockSize) / header.fsBlockSize = r / header.fsBlockSize - 1 := by
    rw [Int.sub_ediv_of_dvd r (Int.dvd_refl _), Int.ediv_self (by omega)]
  have rest : 0 ≤ (r - header.fsBlockSize) / header.fsBlockSize :=
    Int.ediv_nonneg (by omega) (by omega)
  omega

theorem completed_iff (answer : Answer α) (i : Nat) :
    Completed header answer i ↔ i < (answer.result / header.fsBlockSize).toNat := by
  have positive := header.fsBlockSize_pos
  have bound := Int.le_ediv_iff_mul_le (a := i + 1) (b := answer.result)
    (c := header.fsBlockSize) (by omega)
  unfold Completed
  push_cast
  rw [← bound]
  omega

/-- What the harvest does with a buffer of the completed part. -/
def settle (header : Header) (dev : Dev) (rwFlag : RwFlag) (cache : Cache n α) (bp : Fin n) :
    Cache n α :=
  match rwFlag with
  | .reading => (cache.setDev bp dev).lmfsPutBlock header bp header.partialDataBlock
  | .writing => cache.lmfsMarkclean bp

theorem harvest_cons (dev : Dev) (rwFlag : RwFlag) (i : Nat) (r : Int) (bp : Fin n)
    (bufs : List (Fin n)) (cache : Cache n α) :
    harvest header dev rwFlag i r (bp :: bufs) cache =
      if r < header.fsBlockSize then
        (i, if i = 0 then (cache.setDev bp header.noDev).vmForgetblocks else cache)
      else
        harvest header dev rwFlag (i + 1) (r - header.fsBlockSize) bufs
          (settle header dev rwFlag cache bp) := by
  cases rwFlag <;> rfl

theorem harvest_later (dev : Dev) (rwFlag : RwFlag) (i : Nat) (r : Int) (bufs : List (Fin n))
    (cache : Cache n α) :
    harvest header dev rwFlag (i + 1) r bufs cache =
      (i + 1 + min bufs.length (r / header.fsBlockSize).toNat,
        (bufs.take (r / header.fsBlockSize).toNat).foldl (settle header dev rwFlag) cache) := by
  induction bufs generalizing i r cache with
  | nil =>
      rw [harvest, List.take_nil, List.foldl_nil, List.length_nil, Nat.zero_min, Nat.add_zero]
  | cons bp bufs ih =>
      rw [harvest_cons]
      by_cases failed : r < header.fsBlockSize
      · rw [if_pos failed, if_neg (Nat.succ_ne_zero i), blocks_zero failed, List.take_zero,
          List.foldl_nil, Nat.min_zero, Nat.add_zero]
      · rw [if_neg failed, ih, blocks_succ failed, List.take_succ_cons, List.foldl_cons,
          List.length_cons, Nat.succ_min_succ]
        congr 1
        omega

theorem harvest_first (header : Header) (dev : Dev) (rwFlag : RwFlag) (r : Int) (bp : Fin n)
    (bufs : List (Fin n)) (cache : Cache n α) :
    harvest header dev rwFlag 0 r (bp :: bufs) cache =
      if (r / header.fsBlockSize).toNat = 0 then
        (0, (cache.setDev bp header.noDev).vmForgetblocks)
      else
        (min (bp :: bufs).length (r / header.fsBlockSize).toNat,
          ((bp :: bufs).take (r / header.fsBlockSize).toNat).foldl (settle header dev rwFlag)
            cache) := by
  rw [harvest_cons]
  by_cases failed : r < header.fsBlockSize
  · rw [if_pos failed, if_pos rfl, blocks_zero failed, if_pos rfl]
  · rw [if_neg failed, harvest_later, blocks_succ failed, if_neg (Nat.succ_ne_zero _),
      List.take_succ_cons, List.foldl_cons, List.length_cons, Nat.succ_min_succ]
    congr 1
    omega

/-- The buffers of a list come to have one and the same value. -/
def setAll {β : Type} (bufs : List (Fin n)) (value : β) (values : Fin n → β) : Fin n → β :=
  fun bp => if bp ∈ bufs then value else values bp

def cleanAll (cache : Cache n α) (bufs : List (Fin n)) : Cache n α :=
  { cache with lmfsDirt := setAll bufs .clean cache.lmfsDirt }

theorem cleanAll_nil (cache : Cache n α) : cache.cleanAll [] = cache := by
  have kept : setAll [] .clean cache.lmfsDirt = cache.lmfsDirt :=
    funext fun bp => if_neg List.not_mem_nil
  rw [cleanAll, kept]

theorem cleanAll_cons (cache : Cache n α) (bp : Fin n) (bufs : List (Fin n)) :
    (cache.lmfsMarkclean bp).cleanAll bufs = cache.cleanAll (bp :: bufs) := by
  unfold cleanAll setAll lmfsMarkclean
  congr 1
  funext other
  by_cases same : other = bp
  · subst same
    simp
  · simp [same]

theorem foldl_settle_writing (dev : Dev) (bufs : List (Fin n)) (cache : Cache n α) :
    bufs.foldl (settle header dev .writing) cache = cache.cleanAll bufs := by
  induction bufs generalizing cache with
  | nil => exact (cleanAll_nil cache).symm
  | cons bp bufs ih => exact (ih _).trans (cleanAll_cons cache bp bufs)

end Cache

abbrev Key := Dev × BlockNr

/-- What the clients are up to: the buffers that they got to overwrite and have not written,
and those that a prefetch left unnamed, with the device that they wait for. -/
structure Marks (n : Nat) where
  unwritten : Fin n → Bool
  awaited : Fin n → Option Dev

namespace Cache

def slot (header : Header) (cache : Cache n α) (awaited : Fin n → Option Dev) (bp : Fin n) :
    Slot Key :=
  if cache.lmfsDev bp ≠ header.noDev then .named (cache.lmfsDev bp, cache.lmfsBlocknr bp)
  else
    match awaited bp with
    | some dev => .reserved (dev, cache.lmfsBlocknr bp)
    | none => .free

def view (header : Header) (marks : Marks n) (cache : Cache n α) :
    TwoLevel.State (Fin n) Key α where
  slot := cache.slot header marks.awaited
  dirty bp := cache.lmfsDirt bp = .dirty
  unwritten := marks.unwritten
  data := cache.data
  disk key := cache.disk key.1 key.2.toNat
  second key := cache.vm (make64 key.1 key.2)

/-- Names are of blocks of devices. -/
def Proper (header : Header) (key : Key) : Prop := key.1 ≠ header.noDev

variable {marks : Marks n} {faults : Prop}

theorem slot_named {cache : Cache n α} {awaited : Fin n → Option Dev} {bp : Fin n} {key : Key} :
    cache.slot header awaited bp = .named key ↔
      cache.lmfsDev bp ≠ header.noDev ∧ (cache.lmfsDev bp, cache.lmfsBlocknr bp) = key := by
  unfold slot
  by_cases named : cache.lmfsDev bp ≠ header.noDev
  · rw [if_pos named]
    simp [named]
  · rw [if_neg named]
    cases awaited bp <;> simp [named]

theorem slot_of_named {cache : Cache n α} {awaited : Fin n → Option Dev} {bp : Fin n}
    (named : cache.lmfsDev bp ≠ header.noDev) :
    cache.slot header awaited bp = .named (cache.lmfsDev bp, cache.lmfsBlocknr bp) :=
  if_pos named

/-- Setting the device name aside frees a buffer that no prefetch waits for. -/
theorem view_setDev (cache : Cache n α) {bp : Fin n} (idle : marks.awaited bp = none) :
    (cache.setDev bp header.noDev).view header marks =
      { cache.view header marks with
        slot := update (cache.view header marks).slot bp .free } := by
  unfold view
  congr 1
  funext other
  by_cases same : other = bp
  · subst same
    simp [slot, setDev, idle]
  · simp [slot, setDev, same]

theorem view_markclean (cache : Cache n α) (bp : Fin n) :
    (cache.lmfsMarkclean bp).view header marks =
      { cache.view header marks with
        dirty := update (cache.view header marks).dirty bp false } := by
  unfold view
  congr 1
  funext other
  by_cases same : other = bp
  · subst same
    simp [lmfsMarkclean]
  · simp [lmfsMarkclean, same]

theorem markclean_step {cache : Cache n α} {bp : Fin n} (named : cache.lmfsDev bp ≠ header.noDev)
    (same : cache.data bp =
      some (cache.disk (cache.lmfsDev bp) (cache.lmfsBlocknr bp).toNat)) :
    Step (Proper header) faults (cache.view header marks)
      ((cache.lmfsMarkclean bp).view header marks) := by
  rw [view_markclean]
  exact .clean (slot_of_named named) same

theorem forgetblocks_step (cache : Cache n α) :
    Step (Proper header) faults (cache.view header marks)
      (cache.vmForgetblocks.view header marks) :=
  .forget fun _ => Or.inl rfl

theorem drop_step {cache : Cache n α} {bp : Fin n} (idle : marks.awaited bp = none)
    (loss : cache.lmfsDev bp ≠ header.noDev → cache.lmfsDirt bp ≠ .dirty ∨ faults) :
    Step (Proper header) faults (cache.view header marks)
      ((cache.setDev bp header.noDev).view header marks) := by
  rw [view_setDev cache idle]
  refine .free fun key named => (loss (slot_named.mp named).1).imp_left fun clean => ?_
  simpa [view] using clean

theorem cleanAll_steps {cache : Cache n α} {bufs : List (Fin n)}
    (named : ∀ bp ∈ bufs, cache.lmfsDev bp ≠ header.noDev)
    (same : ∀ bp ∈ bufs, cache.data bp =
      some (cache.disk (cache.lmfsDev bp) (cache.lmfsBlocknr bp).toNat)) :
    Steps (Proper header) faults (cache.view header marks)
      ((cache.cleanAll bufs).view header marks) := by
  induction bufs generalizing cache with
  | nil =>
      rw [cleanAll_nil]
  | cons bp bufs ih =>
      rw [← cleanAll_cons]
      refine .head (markclean_step (named bp List.mem_cons_self) (same bp List.mem_cons_self)) ?_
      exact ih (fun other member => named other (List.mem_cons_of_mem bp member))
        fun other member => same other (List.mem_cons_of_mem bp member)

/-- The queue of a scatter: dirty buffers of one device, in the order of their blocks. -/
structure Queue (header : Header) (cache : Cache n α) (awaited : Fin n → Option Dev) (dev : Dev)
    (bufq : List (Fin n)) : Prop where
  device : dev ≠ header.noDev
  distinct : bufq.Nodup
  sorted : bufq.Pairwise fun left right =>
    (cache.lmfsBlocknr left).toNat ≤ (cache.lmfsBlocknr right).toNat
  named : ∀ bp ∈ bufq, cache.lmfsDev bp = dev
  dirty : ∀ bp ∈ bufq, cache.lmfsDirt bp = .dirty
  data : ∀ bp ∈ bufq, (cache.data bp).isSome
  idle : ∀ bp ∈ bufq, awaited bp = none

theorem scatter_disk (cache : Cache n α) (dev : Dev) (position : Nat) (bufs : List (Fin n))
    (other : Dev) (block : Nat) :
    (cache.bdevScatter header env dev position bufs).2.disk other block =
        cache.disk other block ∨
      other = dev ∧ ∃ i bp, bufs[i]? = some bp ∧ block = position + i ∧
        (cache.bdevScatter header env dev position bufs).2.disk dev block =
          writtenBlock header (cache.answerTo header env bufs) i (cache.data bp)
            (cache.disk dev block) := by
  by_cases same : other = dev
  · subst same
    by_cases reached : position ≤ block
    · cases found : bufs[block - position]? with
      | none =>
          refine Or.inl ?_
          simp [bdevScatter, reached, found]
      | some bp =>
          refine Or.inr ⟨rfl, block - position, bp, found, by omega, ?_⟩
          simp [bdevScatter, reached, found]
    · refine Or.inl ?_
      simp [bdevScatter, reached]
  · refine Or.inl ?_
    simp [bdevScatter, same]

theorem scatter_completed {cache : Cache n α} (dev : Dev) (position : Nat) {i : Nat}
    {bufs : List (Fin n)} {bp : Fin n} (at_i : bufs[i]? = some bp) (filled : (cache.data bp).isSome)
    (completed : Completed header (cache.answerTo header env bufs) i) :
    cache.data bp =
      some ((cache.bdevScatter header env dev position bufs).2.disk dev (position + i)) := by
  obtain ⟨contents, full⟩ := Option.isSome_iff_exists.mp filled
  have index : position + i - position = i := by omega
  simp [bdevScatter, index, at_i, writtenBlock, completed, full]

/-- The driver did less than it was asked to do. -/
def Short (header : Header) (env : Environment α) : Prop :=
  ∃ call blocks, (env.bdev call (blocks * header.fsBlockSize)).result ≠
    (blocks * header.fsBlockSize : Nat)

theorem short_of_incomplete {cache : Cache n α} {bufs : List (Fin n)} {i : Nat}
    (inside : i < bufs.length)
    (incomplete : ¬ Completed header (cache.answerTo header env bufs) i) : Short header env := by
  refine ⟨cache.requests.length, bufs.length, fun full => incomplete ?_⟩
  unfold Completed answerTo
  rw [full]
  exact Int.ofNat_le.mpr (Nat.mul_le_mul_right _ inside)

theorem scatter_step {cache : Cache n α} {dev : Dev} {position : Nat} {bufs : List (Fin n)}
    (faulty : Short header env → faults) (device : dev ≠ header.noDev)
    (named : ∀ bp ∈ bufs, cache.lmfsDev bp = dev) (dirty : ∀ bp ∈ bufs, cache.lmfsDirt bp = .dirty)
    (filled : ∀ bp ∈ bufs, (cache.data bp).isSome)
    (placed : ∀ i bp, bufs[i]? = some bp → (cache.lmfsBlocknr bp).toNat = position + i) :
    Step (Proper header) faults (cache.view header marks)
      ((cache.bdevScatter header env dev position bufs).2.view header marks) := by
  refine Step.scatter ?_
  rintro ⟨other, block⟩
  rcases scatter_disk cache dev position bufs other block.toNat with same |
    ⟨rfl, i, bp, at_i, here, written⟩
  · exact Or.inl same
  · have member : bp ∈ bufs := List.mem_of_getElem? at_i
    have block_eq : cache.lmfsBlocknr bp = block :=
      BitVec.eq_of_toNat_eq ((placed i bp at_i).trans here.symm)
    refine Or.inr ⟨bp, ?_, ?_, ?_⟩
    · rw [show (cache.view header marks).slot bp = _ from
        slot_of_named (named bp member ▸ device), named bp member, block_eq]
    · simpa [view] using dirty bp member
    · by_cases completed : Completed header (cache.answerTo header env bufs) i
      · refine Or.inl ?_
        have stored := scatter_completed other position at_i
          (filled bp member) completed
        show cache.data bp = some _
        rw [stored]
        simp only [here]
      · exact Or.inr (faulty (short_of_incomplete (List.getElem?_eq_some_iff.mp at_i).1 completed))

/-- What the driver answers lets a scattered write of the queue get past one of its buffers:
the buffer is among the blocks that some transfer completes, and no transfer before that one
is left without progress. -/
def WritesPast (header : Header) (env : Environment α) (blocknr : Fin n → BlockNr)
    (victim : Fin n) : Nat → Nat → List (Fin n) → Prop
  | 0, _, _ => False
  | _, _, [] => False
  | fuel + 1, call, bp :: bufq =>
      let bufs := (bp :: bufq).take (runLength blocknr (blocknr bp) 0 header.nrIoreqs (bp :: bufq))
      let blocks :=
        ((env.bdev call (bufs.length * header.fsBlockSize)).result / header.fsBlockSize).toNat
      victim ∈ bufs.take blocks ∨
        blocks ≠ 0 ∧ WritesPast header env blocknr victim fuel (call + 1)
          ((bp :: bufq).drop (min bufs.length blocks))

theorem transferRun_writing (header : Header) (env : Environment α) (cache : Cache n α) (dev : Dev)
    (bp : Fin n) (bufs : List (Fin n)) :
    transferRun header env dev .writing bp (bp :: bufs) cache =
      if ((cache.answerTo header env (bp :: bufs)).result / header.fsBlockSize).toNat = 0 then
        (0, ((cache.bdevScatter header env dev (cache.lmfsBlocknr bp).toNat
          (bp :: bufs)).2.setDev bp header.noDev).vmForgetblocks)
      else
        (min (bp :: bufs).length
            ((cache.answerTo header env (bp :: bufs)).result / header.fsBlockSize).toNat,
          (cache.bdevScatter header env dev (cache.lmfsBlocknr bp).toNat (bp :: bufs)).2.cleanAll
            ((bp :: bufs).take
              ((cache.answerTo header env (bp :: bufs)).result / header.fsBlockSize).toNat)) := by
  rw [← foldl_settle_writing dev]
  exact harvest_first header dev .writing _ bp bufs _

theorem Queue.subset {cache : Cache n α} {awaited : Fin n → Option Dev} {dev : Dev}
    {bufq bufs : List (Fin n)} (queue : Queue header cache awaited dev bufq)
    (sub : bufs.Sublist bufq) : Queue header cache awaited dev bufs :=
  ⟨queue.device, queue.distinct.sublist sub, queue.sorted.sublist sub,
    fun bp member => queue.named bp (sub.subset member),
    fun bp member => queue.dirty bp (sub.subset member),
    fun bp member => queue.data bp (sub.subset member),
    fun bp member => queue.idle bp (sub.subset member)⟩

/-- What one transfer of a scattered write does: it gets past the buffers that are counted,
and without any it gives up the first one. -/
structure Wrote (header : Header) (marks : Marks n) (faults : Prop) (cache cache' : Cache n α)
    (bufq : List (Fin n)) : Prop where
  steps : Steps (Proper header) faults (cache.view header marks) (cache'.view header marks)
  others : ∀ bp, bp ∉ bufq →
    cache'.lmfsDirt bp = cache.lmfsDirt bp ∧ cache'.lmfsDev bp = cache.lmfsDev bp

theorem round_steps {cache : Cache n α} {dev : Dev} {bp : Fin n} {bufs : List (Fin n)}
    (faulty : Short header env → faults)
    (queue : Queue header cache marks.awaited dev (bp :: bufs))
    (placed : ∀ i other, (bp :: bufs)[i]? = some other →
      (cache.lmfsBlocknr other).toNat = (cache.lmfsBlocknr bp).toNat + i) :
    Steps (Proper header) faults (cache.view header marks)
      ((transferRun header env dev .writing bp (bp :: bufs) cache).2.view header marks) := by
  have scattered : Step (Proper header) faults (cache.view header marks)
      ((cache.bdevScatter header env dev (cache.lmfsBlocknr bp).toNat
        (bp :: bufs)).2.view header marks) :=
    scatter_step faulty queue.device queue.named queue.dirty queue.data placed
  rw [transferRun_writing]
  refine .head scattered ?_
  by_cases none :
      ((cache.answerTo header env (bp :: bufs)).result / header.fsBlockSize).toNat = 0
  · rw [if_pos none]
    have incomplete : ¬ Completed header (cache.answerTo header env (bp :: bufs)) 0 := by
      rw [completed_iff]
      omega
    have fault : faults := faulty (short_of_incomplete (by simp) incomplete)
    refine .head (drop_step (queue.idle bp List.mem_cons_self) fun _ => Or.inr fault) ?_
    exact .single (forgetblocks_step _)
  · rw [if_neg none]
    refine cleanAll_steps (fun other member => ?_) fun other member => ?_
    · rw [show (cache.bdevScatter header env dev (cache.lmfsBlocknr bp).toNat
        (bp :: bufs)).2.lmfsDev other = _ from queue.named other (List.mem_of_mem_take member)]
      exact queue.device
    · obtain ⟨i, at_i⟩ := List.mem_iff_getElem?.mp member
      rw [List.getElem?_take] at at_i
      by_cases counted :
          i < ((cache.answerTo header env (bp :: bufs)).result / header.fsBlockSize).toNat
      · rw [if_pos counted] at at_i
        have stored := scatter_completed dev
          (cache.lmfsBlocknr bp).toNat at_i
          (queue.data other (List.mem_of_getElem? at_i)) ((completed_iff _ i).mpr counted)
        have named : (cache.bdevScatter header env dev (cache.lmfsBlocknr bp).toNat
            (bp :: bufs)).2.lmfsDev other = dev := queue.named other (List.mem_of_getElem? at_i)
        rw [named]
        show cache.data other = some ((cache.bdevScatter header env dev _ _).2.disk dev
          (cache.lmfsBlocknr other).toNat)
        rw [placed i other at_i]
        exact stored
      · rw [if_neg counted] at at_i
        cases at_i

theorem cleanAll_dirt (cache : Cache n α) {bufs : List (Fin n)} {bp : Fin n} (outside : bp ∉ bufs) :
    (cache.cleanAll bufs).lmfsDirt bp = cache.lmfsDirt bp := if_neg outside

/-- After a transfer that got somewhere the rest of the queue is as it was. -/
theorem Queue.rest {cache : Cache n α} {awaited : Fin n → Option Dev} {dev : Dev}
    {bufs left : List (Fin n)} (queue : Queue header cache awaited dev (bufs ++ left))
    (position : Nat) (run : List (Fin n)) :
    Queue header ((cache.bdevScatter header env dev position run).2.cleanAll bufs) awaited dev
      left := by
  have sub := queue.subset (List.sublist_append_right bufs left)
  refine ⟨sub.device, sub.distinct, sub.sorted, sub.named, fun bp member => ?_, sub.data, sub.idle⟩
  have outside : bp ∉ bufs := fun early =>
    (List.nodup_append.mp queue.distinct).2.2 bp early bp member rfl
  rw [cleanAll_dirt _ outside]
  exact sub.dirty bp member

theorem transfers_writing (env : Environment α) (faulty : Short header env → faults) {dev : Dev}
    {fuel : Nat} {bufq : List (Fin n)} {cache : Cache n α} (enough : bufq.length ≤ fuel)
    (queue : Queue header cache marks.awaited dev bufq) :
    Wrote header marks faults cache (transfers header env dev .writing fuel bufq cache) bufq ∧
      ∀ victim ∈ bufq,
        WritesPast header env cache.lmfsBlocknr victim fuel cache.requests.length bufq →
        (transfers header env dev .writing fuel bufq cache).lmfsDirt victim = .clean ∧
          (transfers header env dev .writing fuel bufq cache).lmfsDev victim = dev := by
  induction fuel generalizing bufq cache with
  | zero =>
      have empty : bufq = [] := List.length_eq_zero_iff.mp (Nat.le_zero.mp enough)
      subst empty
      exact ⟨⟨.refl, fun _ _ => ⟨rfl, rfl⟩⟩, fun _ _ past => past.elim⟩
  | succ fuel ih =>
      cases bufq with
      | nil => exact ⟨⟨.refl, fun _ _ => ⟨rfl, rfl⟩⟩, fun _ _ past => past.elim⟩
      | cons bp bufq =>
          obtain ⟨bufs, run⟩ := nextRun_ne_nil header cache bp bufq
          have runSub : (bp :: bufs).Sublist (bp :: bufq) := by
            rw [← run]
            exact List.take_sublist _ _
          have placed (i : Nat) (other : Fin n) (at_i : (bp :: bufs)[i]? = some other) :
              (cache.lmfsBlocknr other).toNat = (cache.lmfsBlocknr bp).toNat + i := by
            rw [← run] at at_i
            exact nextRun_position queue.sorted at_i
          have steps := round_steps faulty (queue.subset runSub) placed
          have result := transferRun_writing header env cache dev bp bufs
          have past (victim : Fin n) : WritesPast header env cache.lmfsBlocknr victim (fuel + 1)
              cache.requests.length (bp :: bufq) ↔
                victim ∈ (bp :: bufs).take
                  ((cache.answerTo header env (bp :: bufs)).result / header.fsBlockSize).toNat ∨
                ((cache.answerTo header env (bp :: bufs)).result / header.fsBlockSize).toNat ≠ 0 ∧
                WritesPast header env cache.lmfsBlocknr victim fuel (cache.requests.length + 1)
                  ((bp :: bufq).drop (min (bp :: bufs).length
                    ((cache.answerTo header env (bp :: bufs)).result /
                      header.fsBlockSize).toNat)) := by
            rw [← run]
            exact Iff.rfl
          simp only [past]
          rw [transfers, run]
          rw [result] at steps ⊢
          revert steps
          generalize ((cache.answerTo header env (bp :: bufs)).result /
            header.fsBlockSize).toNat = blocks
          intro steps
          by_cases stuck : blocks = 0
          · rw [if_pos stuck] at steps ⊢
            refine ⟨⟨steps, fun other outside => ⟨rfl, ?_⟩⟩, fun victim member past => ?_⟩
            · apply Function.update_of_ne
              rintro rfl
              exact outside List.mem_cons_self
            · rw [stuck, List.take_zero] at past
              rcases past with early | ⟨moved, -⟩
              · cases early
              · exact absurd rfl moved
          · rw [if_neg stuck] at steps ⊢
            have moved : min (bp :: bufs).length blocks ≠ 0 := by
              rw [List.length_cons]
              omega
            dsimp only
            rw [if_neg moved]
            have taken : (bp :: bufs).take blocks =
                (bp :: bufq).take (min (bp :: bufs).length blocks) := by
              rw [← run]
              unfold nextRun
              rw [List.take_take, List.length_take, List.take_eq_take_iff]
              omega
            have rest : Queue header ((cache.bdevScatter header env dev (cache.lmfsBlocknr bp).toNat
                (bp :: bufs)).2.cleanAll ((bp :: bufs).take blocks)) marks.awaited dev
                ((bp :: bufq).drop (min (bp :: bufs).length blocks)) := by
              refine Queue.rest ?_ _ _
              rw [taken, List.take_append_drop]
              exact queue
            have shorter : ((bp :: bufq).drop (min (bp :: bufs).length blocks)).length ≤ fuel := by
              rw [List.length_drop]
              rw [List.length_cons] at enough ⊢
              omega
            obtain ⟨wrote, cleans⟩ := ih shorter rest
            have calls : ((cache.bdevScatter header env dev (cache.lmfsBlocknr bp).toNat
                (bp :: bufs)).2.cleanAll ((bp :: bufs).take blocks)).requests.length =
                cache.requests.length + 1 := List.length_append
            rw [calls] at cleans
            refine ⟨⟨steps.trans wrote.steps, fun other outside => ?_⟩, fun victim member past => ?_⟩
            · have kept := wrote.others other fun late => outside (List.mem_of_mem_drop late)
              rw [kept.1, kept.2]
              refine ⟨cleanAll_dirt _ fun early => outside ?_, rfl⟩
              rw [taken] at early
              exact List.mem_of_mem_take early
            · by_cases early : victim ∈ (bp :: bufs).take blocks
              · have gone : victim ∉ (bp :: bufq).drop (min (bp :: bufs).length blocks) := by
                  intro again
                  rw [taken] at early
                  have distinct := queue.distinct
                  rw [← List.take_append_drop (min (bp :: bufs).length blocks) (bp :: bufq)]
                    at distinct
                  exact (List.nodup_append.mp distinct).2.2 victim early victim again rfl
                have kept := wrote.others victim gone
                rw [kept.1, kept.2]
                exact ⟨if_pos early, queue.named victim member⟩
              · have split := member
                rw [← List.take_append_drop (min (bp :: bufs).length blocks) (bp :: bufq),
                  List.mem_append, ← taken] at split
                exact cleans victim (split.resolve_left early) (past.resolve_left early).2

theorem writesPast_of_full (full : ¬ Short header env) (blocknr : Fin n → BlockNr)
    {victim : Fin n} {fuel call : Nat} {bufq : List (Fin n)} (enough : bufq.length ≤ fuel)
    (member : victim ∈ bufq) : WritesPast header env blocknr victim fuel call bufq := by
  induction fuel generalizing call bufq with
  | zero =>
      rw [List.length_eq_zero_iff.mp (Nat.le_zero.mp enough)] at member
      cases member
  | succ fuel ih =>
      cases bufq with
      | nil => cases member
      | cons bp bufq =>
          rw [WritesPast]
          have first : 1 ≤ runLength blocknr (blocknr bp) 0 header.nrIoreqs (bp :: bufq) := by
            obtain ⟨limit, enough⟩ : ∃ limit, header.nrIoreqs = limit + 1 :=
              ⟨header.nrIoreqs - 1, by have positive := header.nrIoreqs_pos; omega⟩
            rw [enough, runLength, if_neg (by simp)]
            exact runLength_ge _ _ 1 limit bufq
          revert first
          generalize runLength blocknr (blocknr bp) 0 header.nrIoreqs (bp :: bufq) = length
          intro first
          have whole : (env.bdev call (((bp :: bufq).take length).length *
              header.fsBlockSize)).result = (((bp :: bufq).take length).length *
                header.fsBlockSize : Nat) := by
            by_contra less
            exact full ⟨_, _, less⟩
          have blocks : (((((bp :: bufq).take length).length * header.fsBlockSize : Nat) : Int) /
              header.fsBlockSize).toNat = ((bp :: bufq).take length).length := by
            have positive := header.fsBlockSize_pos
            push_cast
            rw [Int.mul_ediv_cancel _ (by omega), Int.toNat_natCast]
          rw [whole, blocks, List.take_length, Nat.min_self]
          by_cases early : victim ∈ (bp :: bufq).take length
          · exact Or.inl early
          · have split := member
            rw [← List.take_append_drop length (bp :: bufq), List.mem_append] at split
            have late := split.resolve_left early
            have same : (bp :: bufq).drop ((bp :: bufq).take length).length =
                (bp :: bufq).drop length := by
              rw [List.length_take]
              by_cases long : length ≤ (bp :: bufq).length
              · rw [Nat.min_eq_left long]
              · rw [Nat.min_eq_right (by omega), List.drop_length,
                  List.drop_of_length_le (by omega)]
            rw [same]
            refine Or.inr ⟨?_, ih ?_ late⟩
            · rw [List.length_take, List.length_cons]
              omega
            · rw [List.length_drop]
              rw [List.length_cons] at enough ⊢
              omega

/-- What a client's marks say of the state: prefetched buffers wait unnamed and clean in the
hands of their client, and so do those that are still to be overwritten. -/
structure Marked (header : Header) (marks : Marks n) (cache : Cache n α) : Prop where
  awaited : ∀ bp dev, marks.awaited bp = some dev → dev ≠ header.noDev ∧
    cache.lmfsDev bp = header.noDev ∧ cache.lmfsDirt bp = .clean ∧
    marks.unwritten bp = false ∧ 0 < cache.lmfsCount bp
  unwritten : ∀ bp, marks.unwritten bp = true → 0 < cache.lmfsCount bp

theorem Marked.idle {cache : Cache n α} (marked : Marked header marks cache) {bp : Fin n}
    (named : cache.lmfsDev bp ≠ header.noDev) : marks.awaited bp = none := by
  cases waits : marks.awaited bp with
  | none => rfl
  | some dev => exact absurd (marked.awaited bp dev waits).2.1 named

/-- The queue of a flush. -/
def flushQueue (cache : Cache n α) (dev : Dev) : List (Fin n) :=
  ShellSort.sort (fun bp => (cache.lmfsBlocknr bp).toNat) (cache.dirty dev)

theorem mem_flushQueue {cache : Cache n α} {dev : Dev} {bp : Fin n} :
    bp ∈ cache.flushQueue dev ↔ cache.lmfsDirt bp = .dirty ∧ cache.lmfsDev bp = dev := by
  unfold flushQueue
  rw [(ShellSort.sort_perm _ _).mem_iff]
  simp [dirty]

theorem flushQueue_queue {cache : Cache n α} (stocked : cache.Stocked header)
    (marked : Marked header marks cache) {dev : Dev} (device : dev ≠ header.noDev) :
    Queue header cache marks.awaited dev (cache.flushQueue dev) := by
  have named (bp : Fin n) (member : bp ∈ cache.flushQueue dev) :
      cache.lmfsDev bp ≠ header.noDev := by
    rw [(mem_flushQueue.mp member).2]
    exact device
  refine ⟨device, ?_, ShellSort.sort_sorted _ _, fun bp member => (mem_flushQueue.mp member).2,
    fun bp member => (mem_flushQueue.mp member).1,
    fun bp member => (stocked.named bp (named bp member)).2,
    fun bp member => marked.idle (named bp member)⟩
  exact (ShellSort.sort_perm _ _).nodup_iff.mpr ((List.nodup_finRange n).filter _)

/-- The drivers' answers let a flush of the victim's device get past the victim. -/
def FlushReaches (header : Header) (env : Environment α) (cache : Cache n α) (victim : Fin n) :
    Prop :=
  WritesPast header env cache.lmfsBlocknr victim (cache.flushQueue (cache.lmfsDev victim)).length
    cache.requests.length (cache.flushQueue (cache.lmfsDev victim))

theorem flushall_eq (cache : Cache n α) (dev : Dev) :
    cache.flushall header env dev =
      transfers header env dev .writing (cache.flushQueue dev).length (cache.flushQueue dev)
        cache := by
  unfold flushall lmfsRwScattered flushQueue
  rw [(ShellSort.sort_perm _ _).length_eq]

theorem flushall_wrote (env : Environment α) (faulty : Short header env → faults)
    {cache : Cache n α} (stocked : cache.Stocked header) (marked : Marked header marks cache)
    {dev : Dev} (device : dev ≠ header.noDev) :
    Wrote header marks faults cache (cache.flushall header env dev) (cache.flushQueue dev) := by
  rw [flushall_eq]
  exact (transfers_writing env faulty (Nat.le_refl _)
    (flushQueue_queue stocked marked device)).1

theorem flushall_reaches (env : Environment α) {cache : Cache n α}
    (stocked : cache.Stocked header) (marked : Marked header marks cache) {victim : Fin n}
    (device : cache.lmfsDev victim ≠ header.noDev) (dirty : cache.lmfsDirt victim = .dirty)
    (reaches : cache.FlushReaches header env victim) :
    (cache.flushall header env (cache.lmfsDev victim)).lmfsDirt victim = .clean ∧
      (cache.flushall header env (cache.lmfsDev victim)).lmfsDev victim =
        cache.lmfsDev victim := by
  rw [flushall_eq]
  have faulty : Short header env → True := fun _ => trivial
  exact (transfers_writing env faulty (Nat.le_refl _)
    (flushQueue_queue stocked marked device)).2 victim (mem_flushQueue.mpr ⟨dirty, rfl⟩) reaches

theorem KeepsLists.marked {cache cache' : Cache n α} (keeps : KeepsLists header cache cache')
    (dirt : ∀ bp, cache.lmfsDev bp = header.noDev → cache'.lmfsDirt bp = cache.lmfsDirt bp)
    (marked : Marked header marks cache) : Marked header marks cache' := by
  constructor
  · intro bp dev waits
    obtain ⟨device, unnamed, clean, written, held⟩ := marked.awaited bp dev waits
    refine ⟨device, ?_, (dirt bp unnamed).trans clean, written, ?_⟩
    · cases keeps.dev bp with
      | inl same => exact same.trans unnamed
      | inr dropped => exact dropped
    · rw [keeps.lists]
      exact held
  · intro bp pending
    rw [keeps.lists]
    exact marked.unwritten bp pending

theorem flushall_marked (env : Environment α) {cache : Cache n α}
    (stocked : cache.Stocked header) (marked : Marked header marks cache) {dev : Dev}
    (device : dev ≠ header.noDev) : Marked header marks (cache.flushall header env dev) := by
  refine (flushall_keeps cache dev).marked (fun bp unnamed => ?_) marked
  have wrote : Wrote header marks True cache (cache.flushall header env dev)
      (cache.flushQueue dev) := flushall_wrote env (fun _ => trivial) stocked marked device
  refine (wrote.others bp fun member => device ?_).1
  rw [← (mem_flushQueue.mp member).2, unnamed]

def CleanIfNamed (header : Header) (cache : Cache n α) (bp : Fin n) : Prop :=
  cache.lmfsDev bp ≠ header.noDev → cache.lmfsDirt bp = .clean

theorem flushall_cleanIfNamed (env : Environment α) {cache : Cache n α}
    (stocked : cache.Stocked header) (marked : Marked header marks cache) {dev : Dev}
    (device : dev ≠ header.noDev) {bp : Fin n} (clean : cache.CleanIfNamed header bp) :
    (cache.flushall header env dev).CleanIfNamed header bp := by
  have wrote : Wrote header marks True cache (cache.flushall header env dev)
      (cache.flushQueue dev) := flushall_wrote env (fun _ => trivial) stocked marked device
  have outside : bp ∉ cache.flushQueue dev := by
    intro member
    obtain ⟨dirty, same⟩ := mem_flushQueue.mp member
    exact absurd (dirty.symm.trans (clean (same ▸ device))) (by decide)
  obtain ⟨dirt, name⟩ := wrote.others bp outside
  intro named
  rw [dirt]
  exact clean (name ▸ named)

/-- One buffer of `lmfs_flushall`. -/
def flushBuffer (header : Header) (env : Environment α) (cache : Cache n α) (bp : Fin n) :
    Cache n α :=
  if cache.lmfsDev bp ≠ header.noDev ∧ cache.lmfsDirt bp = .dirty then
    cache.flushall header env (cache.lmfsDev bp)
  else cache

/-- What flushing some buffers comes to. -/
structure Flushed (header : Header) (env : Environment α) (marks : Marks n) (faults : Prop)
    (bufs : List (Fin n)) (cache cache' : Cache n α) : Prop where
  steps : Steps (Proper header) faults (cache.view header marks) (cache'.view header marks)
  marked : Marked header marks cache'
  kept : ∀ bp, cache.CleanIfNamed header bp → cache'.CleanIfNamed header bp
  full : ¬ Short header env → ∀ bp ∈ bufs, cache'.CleanIfNamed header bp

theorem flushBuffer_flushed (env : Environment α) (faulty : Short header env → faults)
    {cache : Cache n α} (stocked : cache.Stocked header) (marked : Marked header marks cache)
    (bp : Fin n) : Flushed header env marks faults [bp] cache (cache.flushBuffer header env bp) := by
  unfold flushBuffer
  by_cases flushes : cache.lmfsDev bp ≠ header.noDev ∧ cache.lmfsDirt bp = .dirty
  · rw [if_pos flushes]
    obtain ⟨device, dirty⟩ := flushes
    refine ⟨(flushall_wrote env faulty stocked marked device).steps,
      flushall_marked env stocked marked device,
      fun other => flushall_cleanIfNamed env stocked marked device, fun full other member _ => ?_⟩
    have same : other = bp := List.mem_singleton.mp member
    subst same
    refine (flushall_reaches env stocked marked device dirty ?_).1
    exact writesPast_of_full full _ (Nat.le_refl _) (mem_flushQueue.mpr ⟨dirty, rfl⟩)
  · rw [if_neg flushes]
    refine ⟨.refl, marked, fun other clean => clean, fun _ other member named => ?_⟩
    have same : other = bp := List.mem_singleton.mp member
    subst same
    cases dirt : cache.lmfsDirt other with
    | clean => rfl
    | dirty => exact absurd ⟨named, dirt⟩ flushes

theorem flushBuffer_keeps (env : Environment α) (cache : Cache n α) (bp : Fin n) :
    KeepsLists header cache (cache.flushBuffer header env bp) := by
  unfold flushBuffer
  by_cases flushes : cache.lmfsDev bp ≠ header.noDev ∧ cache.lmfsDirt bp = .dirty
  · rw [if_pos flushes]
    exact flushall_keeps cache _
  · rw [if_neg flushes]
    exact .refl cache

/-- A flush of every device, buffer by buffer. -/
theorem flushBuffers_flushed (env : Environment α) (faulty : Short header env → faults)
    {cache : Cache n α} (stocked : cache.Stocked header) (marked : Marked header marks cache)
    (bufs : List (Fin n)) :
    Flushed header env marks faults bufs cache
      (bufs.foldl (fun cache bp => cache.flushBuffer header env bp) cache) := by
  induction bufs generalizing cache with
  | nil => exact ⟨.refl, marked, fun _ clean => clean, fun _ bp member => absurd member (by simp)⟩
  | cons bp bufs ih =>
      have first := flushBuffer_flushed env faulty stocked marked bp
      have rest := ih ((flushBuffer_keeps env cache bp).stocked stocked) first.marked
      refine ⟨first.steps.trans rest.steps, rest.marked,
        fun other clean => rest.kept other (first.kept other clean), fun full other member => ?_⟩
      rcases List.mem_cons.mp member with rfl | later
      · exact rest.kept other (first.full full other (List.mem_singleton.mpr rfl))
      · exact rest.full full other later

theorem lmfsFlushall_flushed (env : Environment α) (faulty : Short header env → faults)
    {cache : Cache n α} (stocked : cache.Stocked header) (marked : Marked header marks cache) :
    Flushed header env marks faults (List.finRange n) cache (cache.lmfsFlushall header env) :=
  flushBuffers_flushed env faulty stocked marked (List.finRange n)

end Cache

end Ve482.Bufcache
