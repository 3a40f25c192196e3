import Ve482.Bufcache.Buffers
import Ve482.Lib.Runs

set_option autoImplicit false

namespace Ve482.Bufcache

open Function (update)

variable {n : Nat} {α : Type} {header : Header} {env : Environment α}

@[simp] theorem put_lmfsCount (lists : Lists n) (bp : Fin n) (toFront : Bool) :
    (lists.put bp toFront).lmfsCount = update lists.lmfsCount bp (lists.lmfsCount bp - 1) := by
  unfold Lists.put
  dsimp only
  by_cases last : update lists.lmfsCount bp (lists.lmfsCount bp - 1) bp ≠ 0
  · rw [if_pos last]
  · rw [if_neg last]
    cases toFront <;> rfl

@[simp] theorem hold_lmfsCount (lists : Lists n) (bp : Fin n) :
    (lists.hold bp).lmfsCount = update lists.lmfsCount bp (lists.lmfsCount bp + 1) := by
  unfold Lists.hold
  by_cases unused : lists.lmfsCount bp = 0
  · rw [if_pos unused]
    rfl
  · rw [if_neg unused]

@[simp] theorem put_lmfsBlocknr (lists : Lists n) (bp : Fin n) (toFront : Bool) :
    (lists.put bp toFront).lmfsBlocknr = lists.lmfsBlocknr := by
  unfold Lists.put
  dsimp only
  by_cases last : update lists.lmfsCount bp (lists.lmfsCount bp - 1) bp ≠ 0
  · rw [if_pos last]
  · rw [if_neg last]
    cases toFront <;> rfl

@[simp] theorem hold_lmfsBlocknr (lists : Lists n) (bp : Fin n) :
    (lists.hold bp).lmfsBlocknr = lists.lmfsBlocknr := by
  unfold Lists.hold
  by_cases unused : lists.lmfsCount bp = 0
  · rw [if_pos unused]
    rfl
  · rw [if_neg unused]

/-- The stops that the source asks for. -/
def Stop.Deliberate (stop : Stop) : Prop :=
  stop = .noDevice ∨ stop = .allBuffersInUse ∨ stop = .noBufferAvailable

/-- What an outcome leaves is valid, if it leaves anything; a stop is one that the source asks
for. -/
def Outcome {β : Type} (valid : β → Prop) : Except Stop β → Prop
  | .ok value => valid value
  | .error stop => stop.Deliberate

theorem Outcome.map {β γ : Type} {valid : γ → Prop} {f : β → γ} {outcome : Except Stop β}
    (checked : Outcome (fun value => valid (f value)) outcome) : Outcome valid (outcome.map f) := by
  cases outcome with
  | error stop => exact checked
  | ok value => exact checked

theorem Outcome.imp {β : Type} {valid weaker : β → Prop} {outcome : Except Stop β}
    (checked : Outcome valid outcome) (implies : ∀ value, valid value → weaker value) :
    Outcome weaker outcome := by
  cases outcome with
  | error stop => exact checked
  | ok value => exact implies value checked

namespace Cache

/-- The buffer has memory for a block. -/
def Allocated (header : Header) (cache : Cache n α) (bp : Fin n) : Prop :=
  cache.lmfsBytes bp = header.fsBlockSize ∧ (cache.data bp).isSome

/-- Buffers are given memory in whole blocks, and those that are held or named have some. -/
structure Stocked (header : Header) (cache : Cache n α) : Prop where
  memory : ∀ bp, cache.lmfsBytes bp = 0 ∨ cache.Allocated header bp
  held : ∀ bp, 0 < cache.lmfsCount bp → cache.Allocated header bp
  named : ∀ bp, cache.lmfsDev bp ≠ header.noDev → cache.Allocated header bp

structure Wellformed (header : Header) (cache : Cache n α) : Prop where
  lists : cache.toLists.Represented
  stocked : cache.Stocked header

/-- What an operation leaves that only moves contents, cleans and invalidates buffers. -/
structure KeepsLists (header : Header) (cache cache' : Cache n α) : Prop where
  lists : cache'.toLists = cache.toLists
  bytes : cache'.lmfsBytes = cache.lmfsBytes
  data : ∀ bp, (cache.data bp).isSome → (cache'.data bp).isSome
  dev : ∀ bp, cache'.lmfsDev bp = cache.lmfsDev bp ∨ cache'.lmfsDev bp = header.noDev

theorem KeepsLists.refl (cache : Cache n α) : KeepsLists header cache cache :=
  ⟨rfl, rfl, fun _ data => data, fun _ => Or.inl rfl⟩

theorem KeepsLists.trans {first second third : Cache n α} (left : KeepsLists header first second)
    (right : KeepsLists header second third) : KeepsLists header first third := by
  refine ⟨right.lists.trans left.lists, right.bytes.trans left.bytes,
    fun bp data => right.data bp (left.data bp data), fun bp => ?_⟩
  cases right.dev bp with
  | inl same => exact same ▸ left.dev bp
  | inr dropped => exact Or.inr dropped

theorem KeepsLists.stocked {cache cache' : Cache n α} (keeps : KeepsLists header cache cache')
    (stocked : cache.Stocked header) : cache'.Stocked header := by
  have kept (bp : Fin n) (allocated : cache.Allocated header bp) : cache'.Allocated header bp :=
    ⟨keeps.bytes ▸ allocated.1, keeps.data bp allocated.2⟩
  refine ⟨fun bp => ?_, fun bp used => ?_, fun bp named => ?_⟩
  · rw [keeps.bytes]
    exact (stocked.memory bp).imp_right (kept bp)
  · rw [keeps.lists] at used
    exact kept bp (stocked.held bp used)
  · cases keeps.dev bp with
    | inl same => exact kept bp (stocked.named bp (same ▸ named))
    | inr dropped => exact absurd dropped named

theorem KeepsLists.wellformed {cache cache' : Cache n α} (keeps : KeepsLists header cache cache')
    (wellformed : cache.Wellformed header) : cache'.Wellformed header :=
  ⟨keeps.lists ▸ wellformed.lists, keeps.stocked wellformed.stocked⟩

theorem keepsLists_setDev (cache : Cache n α) (bp : Fin n) :
    KeepsLists header cache (cache.setDev bp header.noDev) := by
  refine ⟨rfl, rfl, fun _ data => data, fun other => ?_⟩
  by_cases same : other = bp
  · subst same
    exact Or.inr (Function.update_self _ _ _)
  · exact Or.inl (Function.update_of_ne same _ _)

theorem keepsLists_data (cache : Cache n α) (bp : Fin n) {contents : Option α}
    (filled : (cache.data bp).isSome → contents.isSome) :
    KeepsLists header cache { cache with data := update cache.data bp contents } := by
  refine ⟨rfl, rfl, fun other data => ?_, fun _ => Or.inl rfl⟩
  by_cases same : other = bp
  · subst same
    simpa using filled data
  · simpa [same] using data

/-! Writing. -/

theorem harvest_writing_keeps (dev : Dev) (i : Nat) (r : Int) (bufs : List (Fin n))
    (cache : Cache n α) :
    KeepsLists header cache (harvest header dev .writing i r bufs cache).2 := by
  induction bufs generalizing i r cache with
  | nil => exact .refl cache
  | cons bp bufs ih =>
      rw [harvest]
      by_cases failed : r < header.fsBlockSize
      · rw [if_pos failed]
        by_cases first : i = 0
        · simp only [first, if_true]
          have dropped : KeepsLists header cache (cache.setDev bp header.noDev) :=
            keepsLists_setDev cache bp
          exact ⟨dropped.lists, dropped.bytes, dropped.data, dropped.dev⟩
        · simp only [first, if_false]
          exact .refl cache
      · rw [if_neg failed]
        have cleaned : KeepsLists header cache (cache.lmfsMarkclean bp) :=
          ⟨rfl, rfl, fun _ data => data, fun _ => Or.inl rfl⟩
        exact cleaned.trans (ih _ _ _)

theorem transferRun_writing_keeps (dev : Dev) (bp : Fin n) (bufs : List (Fin n))
    (cache : Cache n α) :
    KeepsLists header cache (transferRun header env dev .writing bp bufs cache).2 := by
  have scattered : KeepsLists header cache
      (cache.bdevScatter header env dev (cache.lmfsBlocknr bp).toNat bufs).2 :=
    ⟨rfl, rfl, fun _ data => data, fun _ => Or.inl rfl⟩
  exact scattered.trans (harvest_writing_keeps dev 0 _ bufs _)

theorem transfers_writing_keeps (dev : Dev) (fuel : Nat) (bufq : List (Fin n))
    (cache : Cache n α) :
    KeepsLists header cache (transfers header env dev .writing fuel bufq cache) := by
  induction fuel generalizing bufq cache with
  | zero => cases bufq <;> exact .refl cache
  | succ fuel ih =>
      cases bufq with
      | nil => exact .refl cache
      | cons bp bufq =>
          have written : KeepsLists header cache (transferRun header env dev .writing bp
              (cache.nextRun header bp bufq) cache).2 := transferRun_writing_keeps dev bp _ cache
          rw [transfers]
          dsimp only
          by_cases stuck : (transferRun header env dev .writing bp
              (cache.nextRun header bp bufq) cache).1 = 0
          · rw [if_pos stuck]
            exact written
          · rw [if_neg stuck]
            exact written.trans (ih _ _)

theorem flushall_keeps (cache : Cache n α) (dev : Dev) :
    KeepsLists header cache (cache.flushall header env dev) :=
  transfers_writing_keeps dev _ _ cache

theorem lmfsFlushall_keeps (cache : Cache n α) :
    KeepsLists header cache (cache.lmfsFlushall header env) := by
  unfold lmfsFlushall
  generalize List.finRange n = bufs
  induction bufs generalizing cache with
  | nil => exact .refl cache
  | cons bp bufs ih =>
      rw [List.foldl_cons]
      by_cases dirty : cache.lmfsDev bp ≠ header.noDev ∧ cache.lmfsDirt bp = .dirty
      · rw [if_pos dirty]
        exact (flushall_keeps cache _).trans (ih _)
      · rw [if_neg dirty]
        exact ih cache

/-! Reading. -/

/-- The client holds every buffer of the queue, as often as it is there. -/
def Holds (cache : Cache n α) (bufq : List (Fin n)) : Prop :=
  ∀ bp, bufq.count bp ≤ cache.lmfsCount bp

theorem Holds.of_perm {cache : Cache n α} {left right : List (Fin n)} (holds : cache.Holds left)
    (perm : right.Perm left) : cache.Holds right := by
  intro bp
  rw [perm.count_eq]
  exact holds bp

theorem Holds.head {cache : Cache n α} {bp : Fin n} {bufq : List (Fin n)}
    (holds : cache.Holds (bp :: bufq)) : 0 < cache.lmfsCount bp := by
  have counted := holds bp
  rw [List.count_cons_self] at counted
  omega

theorem Holds.put {cache : Cache n α} {bp : Fin n} {bufq : List (Fin n)}
    (holds : cache.Holds (bp :: bufq)) (blockType : BitVec 32) :
    (cache.lmfsPutBlock header bp blockType).Holds bufq := by
  intro other
  have counted := holds other
  show bufq.count other ≤ (Lists.put _ bp _).lmfsCount other
  rw [put_lmfsCount]
  by_cases same : other = bp
  · subst same
    rw [List.count_cons_self] at counted
    rw [Function.update_self]
    omega
  · rw [List.count_cons_of_ne (Ne.symm same)] at counted
    rw [Function.update_of_ne same]
    exact counted

theorem Wellformed.put {cache : Cache n α} (wellformed : cache.Wellformed header) {bp : Fin n}
    (held : 0 < cache.lmfsCount bp) (blockType : BitVec 32) :
    (cache.lmfsPutBlock header bp blockType).Wellformed header := by
  refine ⟨wellformed.lists.put held _, wellformed.stocked.memory, fun other used => ?_,
    wellformed.stocked.named⟩
  refine wellformed.stocked.held other ?_
  have counted : 0 < (Lists.put cache.toLists bp _).lmfsCount other := used
  rw [put_lmfsCount] at counted
  by_cases same : other = bp
  · exact same ▸ held
  · rwa [Function.update_of_ne same] at counted

theorem Stocked.setDev {cache : Cache n α} (stocked : cache.Stocked header) {bp : Fin n}
    (allocated : cache.Allocated header bp) (dev : Dev) : (cache.setDev bp dev).Stocked header := by
  refine ⟨stocked.memory, stocked.held, fun other named => ?_⟩
  by_cases same : other = bp
  · exact same ▸ allocated
  · refine stocked.named other ?_
    have kept : update cache.lmfsDev bp dev other ≠ header.noDev := named
    rwa [Function.update_of_ne same] at kept

theorem putAll_wellformed {cache : Cache n α} (wellformed : cache.Wellformed header)
    {bufq : List (Fin n)} (holds : cache.Holds bufq) :
    (cache.putAll header bufq).Wellformed header := by
  induction bufq generalizing cache with
  | nil => exact wellformed
  | cons bp bufq ih => exact ih (wellformed.put holds.head _) (holds.put _)

theorem gatherBufs_keeps (answer : Answer α) (dev : Dev) (position i : Nat) (bufs : List (Fin n))
    (cache : Cache n α) :
    KeepsLists header cache (gatherBufs header answer dev position i bufs cache) := by
  induction bufs generalizing i cache with
  | nil => exact .refl cache
  | cons bp bufs ih =>
      refine KeepsLists.trans (keepsLists_data cache bp fun filled => ?_) (ih (i + 1) _)
      unfold readBuffer
      by_cases completed : Completed header answer i
      · rw [if_pos completed]
        rfl
      · rw [if_neg completed]
        cases answer.spoilt i with
        | none => exact filled
        | some contents => rfl

theorem bdevGather_keeps (cache : Cache n α) (dev : Dev) (position : Nat) (bufs : List (Fin n)) :
    KeepsLists header cache (cache.bdevGather header env dev position bufs).2 := by
  have asked : KeepsLists header cache
      { cache with requests := cache.requests ++ [⟨.reading, dev, position, bufs⟩] } :=
    ⟨rfl, rfl, fun _ data => data, fun _ => Or.inl rfl⟩
  unfold bdevGather
  exact asked.trans (gatherBufs_keeps _ dev position 0 bufs _)

/-- Harvesting a gather gives back the buffers that it counts, and no others. -/
theorem harvest_reading (dev : Dev) (i : Nat) (r : Int) {bufs rest : List (Fin n)}
    {cache : Cache n α} (wellformed : cache.Wellformed header)
    (holds : cache.Holds (bufs ++ rest)) :
    ∃ count ≤ bufs.length, (harvest header dev .reading i r bufs cache).1 = i + count ∧
      (harvest header dev .reading i r bufs cache).2.Wellformed header ∧
      (harvest header dev .reading i r bufs cache).2.Holds (bufs.drop count ++ rest) := by
  induction bufs generalizing i r cache with
  | nil => exact ⟨0, Nat.le_refl 0, rfl, wellformed, holds⟩
  | cons bp bufs ih =>
      rw [harvest]
      by_cases failed : r < header.fsBlockSize
      · rw [if_pos failed]
        refine ⟨0, Nat.zero_le _, rfl, ?_⟩
        by_cases first : i = 0
        · simp only [first, if_true]
          have dropped : KeepsLists header cache (cache.setDev bp header.noDev) :=
            keepsLists_setDev cache bp
          have keeps : KeepsLists header cache (cache.setDev bp header.noDev).vmForgetblocks :=
            ⟨dropped.lists, dropped.bytes, dropped.data, dropped.dev⟩
          exact ⟨keeps.wellformed wellformed, holds⟩
        · simp only [first, if_false]
          exact ⟨wellformed, holds⟩
      · rw [if_neg failed]
        have held : 0 < cache.lmfsCount bp := Holds.head holds
        have named : (cache.setDev bp dev).Wellformed header :=
          ⟨wellformed.lists, wellformed.stocked.setDev (wellformed.stocked.held bp held) dev⟩
        have holdsNamed : (cache.setDev bp dev).Holds (bp :: (bufs ++ rest)) := holds
        obtain ⟨count, within, counted, done, left⟩ := ih (i + 1) (r - header.fsBlockSize)
          (named.put held header.partialDataBlock) (holdsNamed.put header.partialDataBlock)
        refine ⟨count + 1, Nat.succ_le_succ within, ?_, done, left⟩
        rw [counted]
        omega

theorem transferRun_reading (env : Environment α) {cache : Cache n α}
    (wellformed : cache.Wellformed header) (dev : Dev) (bp : Fin n) {bufs rest : List (Fin n)}
    (holds : cache.Holds (bufs ++ rest)) :
    ∃ count ≤ bufs.length, (transferRun header env dev .reading bp bufs cache).1 = count ∧
      (transferRun header env dev .reading bp bufs cache).2.Wellformed header ∧
      (transferRun header env dev .reading bp bufs cache).2.Holds (bufs.drop count ++ rest) := by
  have gathered : KeepsLists header cache
      (cache.bdevGather header env dev (cache.lmfsBlocknr bp).toNat bufs).2 :=
    bdevGather_keeps cache dev _ bufs
  have held : (cache.bdevGather header env dev (cache.lmfsBlocknr bp).toNat bufs).2.Holds
      (bufs ++ rest) := by
    intro other
    rw [gathered.lists]
    exact holds other
  obtain ⟨count, within, counted, done, left⟩ :=
    harvest_reading dev 0 (cache.bdevGather header env dev (cache.lmfsBlocknr bp).toNat bufs).1
      (gathered.wellformed wellformed) held
  exact ⟨count, within, counted.trans (Nat.zero_add count), done, left⟩

theorem nextRun_split (header : Header) (cache : Cache n α) (bp : Fin n) (bufq : List (Fin n)) :
    ∃ rest, bp :: bufq = cache.nextRun header bp bufq ++ rest :=
  ⟨_, (List.take_append_drop _ (bp :: bufq)).symm⟩

theorem readScattered_wellformed {cache : Cache n α} (wellformed : cache.Wellformed header)
    (dev : Dev) {bufq : List (Fin n)} (holds : cache.Holds bufq) :
    (cache.lmfsRwScattered header env dev bufq .reading).Wellformed header := by
  have perm := ShellSort.sort_perm (fun bp => (cache.lmfsBlocknr bp).toNat) bufq
  have sorted := holds.of_perm perm
  unfold lmfsRwScattered
  rw [← perm.length_eq]
  revert sorted
  generalize ShellSort.sort (fun bp => (cache.lmfsBlocknr bp).toNat) bufq = queue
  intro sorted
  cases queue with
  | nil => exact wellformed
  | cons bp queue =>
      obtain ⟨rest, split⟩ := nextRun_split header cache bp queue
      have run := sorted
      rw [split] at run
      obtain ⟨count, within, counted, done, left⟩ := transferRun_reading env wellformed dev bp run
      rw [List.length_cons, transfers]
      dsimp only
      refine putAll_wellformed done ?_
      rw [counted, split, List.drop_append_of_le_length within]
      exact left

theorem Wellformed.hold {cache : Cache n α} (wellformed : cache.Wellformed header) {bp : Fin n}
    (allocated : cache.Allocated header bp) :
    ({ cache with toLists := cache.hold bp } : Cache n α).Wellformed header := by
  refine ⟨wellformed.lists.hold bp, wellformed.stocked.memory, fun other used => ?_,
    wellformed.stocked.named⟩
  by_cases same : other = bp
  · exact same ▸ allocated
  · refine wellformed.stocked.held other ?_
    have counted : 0 < (Lists.hold cache.toLists bp).lmfsCount other := used
    rwa [hold_lmfsCount, Function.update_of_ne same] at counted

/-- Searching a hash chain comes to an end. -/
theorem searchHash_eq {cache : Cache n α} (represented : cache.toLists.Represented) (dev : Dev)
    (block : BlockNr) :
    ∃ chain : List (Fin n), cache.searchHash dev block =
        some (chain.find? fun bp => cache.lmfsBlocknr bp = block ∧ cache.lmfsDev bp = dev) ∧
      ∀ bp, bp ∈ chain ↔ bufhash n (cache.lmfsBlocknr bp) = bufhash n block := by
  obtain ⟨chain, path, distinct, members⟩ := represented.hashed (bufhash n block)
  have short : chain.length ≤ n := by
    have bound := distinct.length_le_card
    rwa [Fintype.card_fin] at bound
  exact ⟨chain, Chain.find_eq _ path short, members⟩

theorem searchHash_some {cache : Cache n α} {dev : Dev} {block : BlockNr} {bp : Fin n}
    (represented : cache.toLists.Represented) (found : cache.searchHash dev block = some (some bp)) :
    cache.lmfsDev bp = dev ∧ cache.lmfsBlocknr bp = block := by
  obtain ⟨chain, search, -⟩ := searchHash_eq represented dev block
  have first := Option.some.inj (search.symm.trans found)
  have hit := List.find?_some first
  simp only [decide_eq_true_eq] at hit
  exact ⟨hit.2, hit.1⟩

/-- A search that finds nothing has looked at every buffer that could have the name. -/
theorem searchHash_none {cache : Cache n α} {dev : Dev} {block : BlockNr}
    (represented : cache.toLists.Represented) (found : cache.searchHash dev block = some none)
    (bp : Fin n) (named : cache.lmfsDev bp = dev) : cache.lmfsBlocknr bp ≠ block := by
  obtain ⟨chain, search, members⟩ := searchHash_eq represented dev block
  have missed := Option.some.inj (search.symm.trans found)
  intro same
  have member : bp ∈ chain := (members bp).mpr (by rw [same])
  have differs := List.find?_eq_none.mp missed bp member
  simp only [decide_eq_true_eq] at differs
  exact differs ⟨same, named⟩

/-- What the search for a free buffer with memory leaves. -/
structure Equipped (header : Header) (cache cache' : Cache n α) : Prop where
  lists : cache'.toLists = cache.toLists
  dev : cache'.lmfsDev = cache.lmfsDev
  dirt : cache'.lmfsDirt = cache.lmfsDirt
  disk : cache'.disk = cache.disk
  vm : cache'.vm = cache.vm
  vmcache : cache'.vmcache = cache.vmcache
  requests : cache'.requests = cache.requests
  data : ∀ bp, cache.Allocated header bp → cache'.data bp = cache.data bp
  stocked : cache'.Stocked header

theorem Equipped.stockedWith {cache equipped : Cache n α} {lists : Lists n}
    (equips : Equipped header cache equipped) (counts : lists.lmfsCount = cache.lmfsCount) :
    ({ equipped with toLists := lists } : Cache n α).Stocked header := by
  refine ⟨equips.stocked.memory, fun other used => equips.stocked.held other ?_,
    equips.stocked.named⟩
  have count : 0 < lists.lmfsCount other := used
  rw [counts, ← equips.lists] at count
  exact count

theorem oldest_alloc {cache : Cache n α} (wellformed : cache.Wellformed header) {bp : Fin n}
    (small : cache.lmfsBytes bp < header.fsBlockSize) (contents : α) :
    Equipped header cache { cache with
      data := update cache.data bp (some contents)
      lmfsBytes := update cache.lmfsBytes bp header.fsBlockSize
      allocCalls := cache.allocCalls + 1 } := by
  have kept (other : Fin n) (allocated : cache.Allocated header other) :
      ({ cache with
        data := update cache.data bp (some contents)
        lmfsBytes := update cache.lmfsBytes bp header.fsBlockSize
        allocCalls := cache.allocCalls + 1 } : Cache n α).Allocated header other := by
    have different : other ≠ bp := by
      rintro rfl
      have bytes := allocated.1
      omega
    simpa [Allocated, different] using allocated
  refine ⟨rfl, rfl, rfl, rfl, rfl, rfl, rfl, fun other allocated => ?_, fun other => ?_,
    fun other used => kept other (wellformed.stocked.held other used),
    fun other named => kept other (wellformed.stocked.named other named)⟩
  · have different : other ≠ bp := by
      rintro rfl
      have bytes := allocated.1
      omega
    exact Function.update_of_ne different _ _
  · by_cases same : other = bp
    · subst same
      exact Or.inr (by simp [Allocated])
    · cases wellformed.stocked.memory other with
      | inl empty => exact Or.inl (by simpa [same] using empty)
      | inr allocated => exact Or.inr (kept other allocated)

theorem oldest_refused {cache : Cache n α} (wellformed : cache.Wellformed header) {bp : Fin n}
    (small : cache.lmfsBytes bp < header.fsBlockSize) :
    Equipped header cache { cache with
      data := update cache.data bp none
      allocCalls := cache.allocCalls + 1 } := by
  have kept (other : Fin n) (allocated : cache.Allocated header other) :
      update cache.data bp none other = cache.data other := by
    apply Function.update_of_ne
    rintro rfl
    have bytes := allocated.1
    omega
  have still (other : Fin n) (allocated : cache.Allocated header other) :
      ({ cache with
        data := update cache.data bp none
        allocCalls := cache.allocCalls + 1 } : Cache n α).Allocated header other := by
    refine ⟨allocated.1, ?_⟩
    show (update cache.data bp none other).isSome
    rw [kept other allocated]
    exact allocated.2
  exact ⟨rfl, rfl, rfl, rfl, rfl, rfl, rfl, kept,
    fun other => (wellformed.stocked.memory other).imp_right (still other),
    fun other used => still other (wellformed.stocked.held other used),
    fun other named => still other (wellformed.stocked.named other named)⟩

/-- The search for a free buffer comes to an end, with one that has memory, or with a panic. -/
theorem oldest_cases (env : Environment α) {cache : Cache n α}
    (wellformed : cache.Wellformed header) :
    (∃ stop, cache.oldest header env = .error stop ∧ stop.Deliberate) ∨
      ∃ bp equipped, cache.oldest header env = .ok (bp, equipped) ∧
        cache.lmfsCount bp = 0 ∧ Equipped header cache equipped ∧
        equipped.Allocated header bp := by
  obtain ⟨free, linked, distinct, members⟩ := wellformed.lists.free
  unfold oldest
  cases first : cache.front with
  | none => exact Or.inl ⟨_, rfl, Or.inr (Or.inl rfl)⟩
  | some bp =>
      have unused : cache.lmfsCount bp = 0 := by
        rw [← members bp]
        have head := linked.forward.head_eq
        rw [first] at head
        exact List.mem_of_head? head.symm
      dsimp only
      by_cases small : cache.lmfsBytes bp < header.fsBlockSize
      · rw [if_pos small]
        cases env.alloc cache.allocCalls with
        | some contents =>
            refine Or.inr ⟨bp, _, rfl, unused, oldest_alloc wellformed small contents, ?_⟩
            simp [Allocated]
        | none =>
            have short : free.length ≤ n := by
              have bound := distinct.length_le_card
              rwa [Fintype.card_fin] at bound
            have search := Chain.find_eq
              (fun bp => ¬ cache.lmfsBytes bp < header.fsBlockSize) linked.forward short
            rw [first] at search
            dsimp only
            rw [search]
            cases hit : free.find? fun bp => ¬ cache.lmfsBytes bp < header.fsBlockSize with
            | none => exact Or.inl ⟨_, rfl, Or.inr (Or.inr rfl)⟩
            | some found =>
                have large := List.find?_some hit
                simp only [decide_eq_true_eq] at large
                have equipped := oldest_refused wellformed small
                refine Or.inr ⟨found, _, rfl, (members found).mp (List.mem_of_find?_eq_some hit),
                  equipped, ?_⟩
                refine (equipped.stocked.memory found).resolve_left fun empty => large ?_
                have zero : cache.lmfsBytes found = 0 := empty
                rw [zero]
                exact header.fsBlockSize_pos
      · rw [if_neg small]
        refine Or.inr ⟨bp, cache, rfl, unused, ?_, ?_⟩
        · exact ⟨rfl, rfl, rfl, rfl, rfl, rfl, rfl, fun _ _ => rfl, wellformed.stocked⟩
        · refine (wellformed.stocked.memory bp).resolve_left fun empty => small ?_
          rw [empty]
          exact header.fsBlockSize_pos

/-- A buffer that is named has memory, so that the assertion of the eviction holds. -/
theorem evict_ok (env : Environment α) {cache : Cache n α} (stocked : cache.Stocked header)
    (bp : Fin n) :
    ∃ yieldid evicted, cache.evict header env bp = .ok (yieldid, evicted) ∧
      KeepsLists header cache evicted ∧ evicted.lmfsDev bp = header.noDev := by
  unfold evict
  by_cases named : cache.lmfsDev bp ≠ header.noDev
  · rw [if_pos named]
    dsimp only
    have flushed : KeepsLists header cache
        (if cache.lmfsDirt bp = .dirty then cache.flushall header env (cache.lmfsDev bp)
          else cache) := by
      by_cases dirty : cache.lmfsDirt bp = .dirty
      · rw [if_pos dirty]
        exact flushall_keeps cache _
      · rw [if_neg dirty]
        exact .refl cache
    revert flushed
    generalize (if cache.lmfsDirt bp = .dirty then cache.flushall header env (cache.lmfsDev bp)
      else cache) = cleaned
    intro flushed
    have bytes : cleaned.lmfsBytes bp = header.fsBlockSize := by
      rw [flushed.bytes]
      exact (stocked.named bp named).1
    rw [if_neg (not_not.mpr bytes)]
    exact ⟨_, _, rfl, flushed.trans (keepsLists_setDev cleaned bp), Function.update_self _ _ _⟩
  · rw [if_neg named]
    exact ⟨_, _, rfl, .refl cache, not_not.mp named⟩

theorem readBlock_keeps (cache : Cache n α) (bp : Fin n) :
    KeepsLists header cache (cache.readBlock header env bp) := by
  unfold readBlock
  dsimp only
  have gathered : KeepsLists header cache
      (cache.bdevGather header env (cache.lmfsDev bp) (cache.lmfsBlocknr bp).toNat [bp]).2 :=
    bdevGather_keeps cache _ _ _
  revert gathered
  generalize cache.bdevGather header env (cache.lmfsDev bp) (cache.lmfsBlocknr bp).toNat [bp] = read
  intro gathered
  have dropped : KeepsLists header cache (read.2.setDev bp header.noDev) :=
    gathered.trans (keepsLists_setDev read.2 bp)
  by_cases failed : read.1 < 0
  · rw [if_pos failed]
    exact ⟨dropped.lists, dropped.bytes, dropped.data, dropped.dev⟩
  · rw [if_neg failed]
    by_cases partly : read.1 ≠ header.fsBlockSize
    · rw [if_pos partly]
      exact ⟨dropped.lists, dropped.bytes, dropped.data, dropped.dev⟩
    · rw [if_neg partly]
      exact gathered

theorem vmYieldBlockGetBlock_keeps (cache : Cache n α) (yieldid getid : BlockId) (bp : Fin n) :
    KeepsLists header cache (cache.vmYieldBlockGetBlock header env yieldid getid bp).2 := by
  unfold vmYieldBlockGetBlock
  dsimp only
  split
  · rename_i contents found
    have filled : KeepsLists header cache
        { cache with data := update cache.data bp (some contents) } :=
      keepsLists_data cache bp fun _ => rfl
    exact ⟨rfl, rfl, filled.data, fun _ => Or.inl rfl⟩
  · exact ⟨rfl, rfl, fun _ data => data, fun _ => Or.inl rfl⟩

theorem fetch_keeps (cache : Cache n α) (onlySearch : OnlySearch) (yieldid getid : BlockId)
    (bp : Fin n) :
    KeepsLists header cache (cache.fetch header env onlySearch yieldid getid bp) := by
  have asked : KeepsLists header cache
      (if (onlySearch = .prefetch ∨ onlySearch = .normal) ∧ cache.vmcache then
        cache.vmYieldBlockGetBlock header env yieldid getid bp else (false, cache)).2 := by
    by_cases ask : (onlySearch = .prefetch ∨ onlySearch = .normal) ∧ cache.vmcache
    · rw [if_pos ask]
      exact vmYieldBlockGetBlock_keeps cache yieldid getid bp
    · rw [if_neg ask]
      exact .refl cache
  unfold fetch
  revert asked
  generalize (if (onlySearch = .prefetch ∨ onlySearch = .normal) ∧ cache.vmcache then
    cache.vmYieldBlockGetBlock header env yieldid getid bp else (false, cache)) = answer
  intro asked
  dsimp only
  by_cases served : answer.1 = true
  · rw [if_pos served]
    exact asked
  · rw [if_neg served]
    cases onlySearch with
    | prefetch => exact asked.trans (keepsLists_setDev answer.2 bp)
    | normal => exact asked.trans (readBlock_keeps answer.2 bp)
    | noRead =>
        dsimp only
        by_cases uses : answer.2.vmcache = true
        · rw [if_pos uses]
          exact ⟨asked.lists, asked.bytes, asked.data, asked.dev⟩
        · rw [if_neg uses]
          exact asked

/-- What `lmfs_get_block` comes to: a stop, a buffer that has the name, or a free buffer that
is taken, cleaned, renamed and filled. -/
inductive Got (header : Header) (env : Environment α) (cache : Cache n α) (dev : Dev)
    (block : BlockNr) (onlySearch : OnlySearch) : Except Stop (Fin n × Cache n α) → Prop where
  | stop {stop : Stop} (deliberate : stop.Deliberate)
      (reason : dev = header.noDev ∨ cache.oldest header env = .error stop) :
      Got header env cache dev block onlySearch (.error stop)
  | hit {bp : Fin n} (device : dev ≠ header.noDev) (sameDev : cache.lmfsDev bp = dev)
      (sameBlock : cache.lmfsBlocknr bp = block) :
      Got header env cache dev block onlySearch (.ok (bp, { cache with toLists := cache.hold bp }))
  | miss {bp : Fin n} {equipped evicted : Cache n α} {lists : Lists n} {yieldid : BlockId}
      (device : dev ≠ header.noDev)
      (absent : ∀ other, cache.lmfsDev other = dev → cache.lmfsBlocknr other ≠ block)
      (taken : cache.oldest header env = .ok (bp, equipped))
      (unused : cache.lmfsCount bp = 0) (equips : Equipped header cache equipped)
      (allocated : equipped.Allocated header bp)
      (unhashed : (equipped.rmLru bp).unhash bp = some lists)
      (numbers : lists.lmfsBlocknr = cache.lmfsBlocknr)
      (counts : lists.lmfsCount = cache.lmfsCount)
      (rehashed : ∀ block, (lists.rehash bp block).Represented)
      (moved : ∀ block free, cache.toLists.Free free →
        (lists.rehash bp block).Free (free.erase bp))
      (cleaned : ({ equipped with toLists := lists } : Cache n α).evict header env bp =
        .ok (yieldid, evicted))
      (keeps : KeepsLists header { equipped with toLists := lists } evicted) :
      Got header env cache dev block onlySearch (.ok (bp,
        (evicted.claim bp dev block).fetch header env onlySearch yieldid (make64 dev block) bp))

theorem lmfsGetBlock_got (env : Environment α) {cache : Cache n α}
    (wellformed : cache.Wellformed header) (dev : Dev)
    (block : BlockNr) (onlySearch : OnlySearch) :
    Got header env cache dev block onlySearch
      (cache.lmfsGetBlock header env dev block onlySearch) := by
  unfold lmfsGetBlock
  by_cases device : dev = header.noDev
  · rw [if_pos device]
    exact .stop (Or.inl rfl) (Or.inl device)
  rw [if_neg device]
  obtain ⟨chain, search, -⟩ := searchHash_eq wellformed.lists dev block
  rw [search]
  cases hit : chain.find? fun bp => cache.lmfsBlocknr bp = block ∧ cache.lmfsDev bp = dev with
  | some bp =>
      obtain ⟨sameDev, sameBlock⟩ := searchHash_some wellformed.lists (search.trans (by rw [hit]))
      exact .hit device sameDev sameBlock
  | none =>
      have absent := searchHash_none wellformed.lists (search.trans (by rw [hit]))
      rcases oldest_cases env wellformed with
        ⟨stop, taken, deliberate⟩ | ⟨bp, equipped, taken, unused, equips, allocated⟩
      · dsimp only
        rw [taken]
        exact .stop deliberate (Or.inr taken)
      · dsimp only
        rw [taken]
        obtain ⟨lists, unhashed, sameNr, sameCount, moved, rehashed⟩ := wellformed.lists.take unused
        rw [← equips.lists] at unhashed
        have stocked := equips.stockedWith sameCount
        obtain ⟨yieldid, evicted, cleaned, keeps, -⟩ := evict_ok env stocked bp
        have got : Got header env cache dev block onlySearch _ :=
          .miss device absent taken unused equips allocated unhashed sameNr sameCount rehashed moved
            cleaned keeps
        simp only [bind, Except.bind, unhashed]
        rw [cleaned]
        exact got

/-- What holds of every buffer that is got holds of the outcome. -/
theorem Got.outcome {cache : Cache n α} {dev : Dev} {block : BlockNr} {onlySearch : OnlySearch}
    {outcome : Except Stop (Fin n × Cache n α)} {valid : Fin n × Cache n α → Prop}
    (got : Got header env cache dev block onlySearch outcome)
    (each : ∀ taken, Got header env cache dev block onlySearch (.ok taken) → valid taken) :
    Outcome valid outcome := by
  cases outcome with
  | error stop =>
      cases got with
      | stop deliberate _ => exact deliberate
  | ok taken => exact each taken got

/-- The buffer that `lmfs_get_block` returns has memory, and the pool is as it should be. -/
theorem Got.wellformed {cache : Cache n α} (wellformed : cache.Wellformed header) {dev : Dev}
    {block : BlockNr} {onlySearch : OnlySearch} {outcome : Except Stop (Fin n × Cache n α)}
    (got : Got header env cache dev block onlySearch outcome) :
    Outcome (fun taken => taken.2.Wellformed header) outcome := by
  cases got with
  | stop deliberate _ => exact deliberate
  | hit device sameDev sameBlock =>
      exact wellformed.hold (wellformed.stocked.named _ (sameDev ▸ device))
  | @miss bp equipped evicted lists yieldid device absent taken unused equips allocated unhashed
      numbers counts rehashed moved cleaned keeps =>
      have memory := keeps.stocked (equips.stockedWith counts)
      have has : evicted.Allocated header bp :=
        ⟨(congrFun keeps.bytes bp).trans allocated.1, keeps.data bp allocated.2⟩
      have claimed : (evicted.claim bp dev block).Wellformed header := by
        refine ⟨?_, memory.memory, fun other used => ?_, fun other named => ?_⟩
        · show (evicted.toLists.rehash bp block).Represented
          rw [keeps.lists]
          exact rehashed block
        · by_cases same : other = bp
          · exact same ▸ has
          · refine memory.held other ?_
            have count : 0 < update evicted.lmfsCount bp _ other := used
            rwa [Function.update_of_ne same] at count
        · by_cases same : other = bp
          · exact same ▸ has
          · refine memory.named other ?_
            have device : update evicted.lmfsDev bp dev other ≠ header.noDev := named
            rwa [Function.update_of_ne same] at device
      exact (fetch_keeps _ onlySearch yieldid _ bp).wellformed claimed

/-- What the clients keep to: they release and read into what they hold. -/
def ReleasesHeld (cache : Cache n α) : Event n α → Prop
  | .put bp _ => 0 < cache.lmfsCount bp
  | .readScattered _ bufq => cache.Holds bufq
  | _ => True

instance (cache : Cache n α) : (event : Event n α) → Decidable (cache.ReleasesHeld event)
  | .put bp _ => inferInstanceAs (Decidable (0 < cache.lmfsCount bp))
  | .readScattered _ bufq =>
      inferInstanceAs (Decidable (∀ bp, bufq.count bp ≤ cache.lmfsCount bp))
  | .get _ _ _ | .edit _ _ | .markdirty _ | .markclean _ | .invalidate _ | .flushall | .vmDrop _ =>
      .isTrue trivial

theorem step_wellformed {cache : Cache n α} (wellformed : cache.Wellformed header)
    {event : Event n α} (released : cache.ReleasesHeld event) :
    Outcome (Wellformed header) (cache.step header env event) := by
  cases event with
  | get dev block onlySearch =>
      exact ((lmfsGetBlock_got env wellformed dev block onlySearch).wellformed wellformed).map
  | put bp blockType => exact wellformed.put released blockType
  | edit bp contents =>
      have edited : KeepsLists header cache
          { cache with data := update cache.data bp (some contents) } :=
        keepsLists_data cache bp fun _ => rfl
      exact KeepsLists.wellformed ⟨edited.lists, edited.bytes, edited.data, edited.dev⟩ wellformed
  | markdirty bp =>
      have marked : KeepsLists header cache (cache.lmfsMarkdirty bp) :=
        ⟨rfl, rfl, fun _ data => data, fun _ => Or.inl rfl⟩
      exact marked.wellformed wellformed
  | markclean bp =>
      have marked : KeepsLists header cache (cache.lmfsMarkclean bp) :=
        ⟨rfl, rfl, fun _ data => data, fun _ => Or.inl rfl⟩
      exact marked.wellformed wellformed
  | invalidate device =>
      have purged : KeepsLists header cache (cache.lmfsInvalidate header device) := by
        refine ⟨rfl, rfl, fun _ data => data, fun bp => ?_⟩
        by_cases same : cache.lmfsDev bp = device
        · exact Or.inr (if_pos same)
        · exact Or.inl (if_neg same)
      exact purged.wellformed wellformed
  | flushall => exact (lmfsFlushall_keeps cache).wellformed wellformed
  | readScattered dev bufq => exact readScattered_wellformed wellformed dev released
  | vmDrop kept =>
      have dropped : KeepsLists header cache
          { cache with vm := fun id => if kept id then cache.vm id else none } :=
        ⟨rfl, rfl, fun _ data => data, fun _ => Or.inl rfl⟩
      exact dropped.wellformed wellformed

theorem pool_wellformed (header : Header) (n : Nat) (vmcache : Bool) (disk : Dev → Nat → α) :
    (lmfsBufPool header n vmcache disk).Wellformed header := by
  refine ⟨pool_represented n, fun _ => Or.inl rfl, fun bp used => ?_, fun bp named => ?_⟩
  · exact absurd used (Nat.lt_irrefl 0)
  · exact absurd rfl named

end Cache

/-- The event is one that clients may send to the cache, if it still runs. -/
def Running (permits : Cache n α → Event n α → Prop) : Except Stop (Cache n α) → Event n α → Prop
  | .ok cache, event => permits cache event
  | .error _, _ => True

instance (permits : Cache n α → Event n α → Prop) [∀ cache event, Decidable (permits cache event)] :
    (outcome : Except Stop (Cache n α)) → (event : Event n α) →
      Decidable (Running permits outcome event)
  | .ok cache, event => inferInstanceAs (Decidable (permits cache event))
  | .error _, _ => .isTrue trivial

theorem run_wellformed (env : Environment α) {outcome : Except Stop (Cache n α)}
    {events : List (Event n α)} (wellformed : Outcome (Cache.Wellformed header) outcome)
    (released : Runs.EveryStep (Cache.next header env) (Running Cache.ReleasesHeld) outcome
      events) :
    Outcome (Cache.Wellformed header) (Runs.run (Cache.next header env) outcome events) := by
  refine Runs.run_invariant (Outcome (Cache.Wellformed header)) ?_ wellformed released
  intro outcome event wellformed released
  cases outcome with
  | error stop => exact wellformed
  | ok cache => exact Cache.step_wellformed wellformed released

/-- The representation invariant of the buffer pool. Every run of the operations keeps both
chains and the count of used buffers, whatever allocation, drivers and VM answer; and it is
only ever stopped by a check or a panic of the source. -/
theorem run_represented (header : Header) (env : Environment α) (n : Nat) (vmcache : Bool)
    (disk : Dev → Nat → α) (events : List (Event n α))
    (released : Runs.EveryStep (Cache.next header env) (Running Cache.ReleasesHeld)
      (.ok (lmfsBufPool header n vmcache disk)) events) :
    Outcome (fun cache => cache.toLists.Represented)
      (Runs.run (Cache.next header env) (.ok (lmfsBufPool header n vmcache disk)) events) := by
  have initial : Outcome (Cache.Wellformed header) (.ok (lmfsBufPool header n vmcache disk)) :=
    Cache.pool_wellformed header n vmcache disk
  apply (run_wellformed env initial released).imp
  intro cache wellformed
  exact wellformed.lists

/-- The constants of a system with blocks of 1024 bytes. -/
def minixHeader : Header where
  noDev := 0
  devRam := 0x100
  oneShot := 0o200
  partialDataBlock := 6
  nrIoreqs := 64
  nrIoreqs_pos := by decide
  endOfFile := -104
  vmBlockidNone := BitVec.allOnes 64
  fsBlockSize := 1024
  fsBlockSize_pos := by decide

/-- A system in which everything succeeds. -/
def smooth : Environment Nat where
  alloc _ := some 0
  bdev _ bytes := { result := bytes, spoilt := fun _ => none }
  vmKeeps _ _ := true

/-- A system whose drivers fail. -/
def failing : Environment Nat where
  alloc _ := some 0
  bdev _ _ := { result := -5, spoilt := fun _ => none }
  vmKeeps _ _ := true

/-- The blocks of two prefetches are read together, the second one fails to be read again. -/
theorem run_represented_prefetch :
    Outcome (fun cache => cache.toLists.Represented)
      (Runs.run (Cache.next minixHeader failing)
        (.ok (lmfsBufPool minixHeader 6 false fun _ block => block))
        [.get 0x301 7 .prefetch, .get 0x301 8 .prefetch, .readScattered 0x301 [1, 0],
          .get 0x301 7 .normal, .put 2 0]) :=
  run_represented minixHeader failing 6 false (fun _ block => block) _ (by decide +kernel)

end Ve482.Bufcache
