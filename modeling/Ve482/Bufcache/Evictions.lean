import Ve482.Bufcache.Transfers

set_option autoImplicit false

namespace Ve482.Bufcache

open Function (update)
open TwoLevel (State Step Steps)

variable {n : Nat} {α : Type} {header : Header} {env : Environment α}

theorem make64_inj {lo hi lo' hi' : BitVec 32} (same : make64 lo hi = make64 lo' hi') :
    lo = lo' ∧ hi = hi' := by
  have low := congrArg (BitVec.setWidth 32) same
  have high := congrArg (BitVec.extractLsb' 32 32) same
  unfold make64 at low high
  rw [BitVec.setWidth_append_eq_right, BitVec.setWidth_append_eq_right] at low
  rw [BitVec.extractLsb'_append_eq_left, BitVec.extractLsb'_append_eq_left] at high
  exact ⟨low, high⟩

theorem exists_make64 (id : BlockId) : ∃ lo hi, id = make64 lo hi := by
  refine ⟨id.extractLsb' 0 32, id.extractLsb' 32 32, ?_⟩
  exact (@BitVec.extractLsb'_append_extractLsb' 32 32 id).symm

namespace Cache

variable {marks : Marks n} {faults : Prop}

/-- VM knows nothing but what it knew, and nothing where it is not used. -/
structure KeepsVm (cache cache' : Cache n α) : Prop where
  vmcache : cache'.vmcache = cache.vmcache
  vm : ∀ id, cache'.vm id = none ∨ cache'.vm id = cache.vm id

theorem KeepsVm.refl (cache : Cache n α) : KeepsVm cache cache := ⟨rfl, fun _ => Or.inr rfl⟩

theorem KeepsVm.trans {first second third : Cache n α} (left : KeepsVm first second)
    (right : KeepsVm second third) : KeepsVm first third := by
  refine ⟨right.vmcache.trans left.vmcache, fun id => ?_⟩
  cases right.vm id with
  | inl gone => exact Or.inl gone
  | inr kept =>
      rw [kept]
      exact left.vm id

theorem KeepsVm.quiet {cache cache' : Cache n α} (keeps : KeepsVm cache cache')
    (quiet : cache.vmcache = false → ∀ id, cache.vm id = none) :
    cache'.vmcache = false → ∀ id, cache'.vm id = none := by
  intro unused id
  have nothing := quiet (keeps.vmcache ▸ unused) id
  cases keeps.vm id with
  | inl gone => exact gone
  | inr same => exact same.trans nothing

theorem transferRun_writing_keepsVm (header : Header) (env : Environment α) (dev : Dev)
    (bp : Fin n) (bufs : List (Fin n)) (cache : Cache n α) :
    KeepsVm cache (transferRun header env dev .writing bp (bp :: bufs) cache).2 := by
  rw [transferRun_writing]
  by_cases none :
      ((cache.answerTo header env (bp :: bufs)).result / header.fsBlockSize).toNat = 0
  · rw [if_pos none]
    exact ⟨rfl, fun _ => Or.inl rfl⟩
  · rw [if_neg none]
    exact ⟨rfl, fun _ => Or.inr rfl⟩

theorem rounds_keepsVm {dev : Dev} {rwFlag : RwFlag} {bufq : List (Fin n)}
    {before after : Cache n α}
    (rounds : Rounds header env dev rwFlag bufq before after) (writing : rwFlag = .writing) :
    KeepsVm before after := by
  induction rounds with
  | done => exact .refl _
  | read => cases writing
  | @stuck bp bufq cache harvested round =>
      obtain ⟨bufs, run⟩ := nextRun_ne_nil header cache bp bufq
      have kept := transferRun_writing_keepsVm header env dev bp bufs cache
      rw [run] at round
      rw [round] at kept
      exact kept
  | @next bp bufq cache harvested after i round moved rest ih =>
      obtain ⟨bufs, run⟩ := nextRun_ne_nil header cache bp bufq
      have kept := transferRun_writing_keepsVm header env dev bp bufs cache
      rw [run] at round
      rw [round] at kept
      exact kept.trans (ih writing)

theorem flushall_keepsVm (env : Environment α) (cache : Cache n α) (dev : Dev) :
    KeepsVm cache (cache.flushall header env dev) := by
  rw [flushall_eq]
  exact rounds_keepsVm (transfers_rounds header env dev .writing cache (Nat.le_refl _)) rfl

/-- Without faults a flush takes no names away. -/
theorem flushall_keepsNames (full : ¬ Short header env) {cache : Cache n α}
    (stocked : cache.Stocked header) (marked : Marked header marks cache) {dev : Dev}
    (device : dev ≠ header.noDev) (bp : Fin n) :
    (cache.flushall header env dev).lmfsDev bp = cache.lmfsDev bp := by
  by_cases queued : bp ∈ cache.flushQueue dev
  · obtain ⟨dirty, same⟩ := mem_flushQueue.mp queued
    subst same
    exact (flushall_reaches env stocked marked device dirty
      (writesPast_of_full full _ (Nat.le_refl _) queued)).2
  · have wrote : Wrote header marks True cache (cache.flushall header env dev)
        (cache.flushQueue dev) := flushall_wrote env (fun _ => trivial) stocked marked device
    exact (wrote.others bp queued).2

/-- The oldest free buffer may get memory, or lose what is no memory. -/
theorem oldest_data {cache equipped : Cache n α} {bp : Fin n}
    (taken : cache.oldest header env = .ok (bp, equipped)) :
    equipped.data = cache.data ∨ ∃ other contents,
      cache.lmfsBytes other < header.fsBlockSize ∧
        equipped.data = update cache.data other contents := by
  unfold oldest at taken
  cases first : cache.front with
  | none =>
      rw [first] at taken
      cases taken
  | some other =>
      rw [first] at taken
      dsimp only at taken
      by_cases small : cache.lmfsBytes other < header.fsBlockSize
      · rw [if_pos small] at taken
        refine Or.inr ⟨other, ?_⟩
        cases answer : env.alloc cache.allocCalls with
        | some contents =>
            rw [answer] at taken
            cases taken
            exact ⟨some contents, small, rfl⟩
        | none =>
            rw [answer] at taken
            dsimp only at taken
            split at taken
            · cases taken
            · cases taken
            · cases taken
              exact ⟨none, small, rfl⟩
      · rw [if_neg small] at taken
        cases taken
        exact Or.inl rfl

theorem view_data {cache cache' : Cache n α} {marks : Marks n}
    (blocknr : cache'.lmfsBlocknr = cache.lmfsBlocknr) (dev : cache'.lmfsDev = cache.lmfsDev)
    (dirt : cache'.lmfsDirt = cache.lmfsDirt) (disk : cache'.disk = cache.disk)
    (vm : cache'.vm = cache.vm) :
    cache'.view header marks = { cache.view header marks with data := cache'.data } := by
  unfold view slot
  rw [blocknr, dev, dirt, disk, vm]

/-- Until it is cleaned, only contents change that nobody cares about. -/
theorem oldest_steps {cache equipped : Cache n α} {bp : Fin n} {lists : Lists n}
    (stocked : cache.Stocked header) (taken : cache.oldest header env = .ok (bp, equipped))
    (equips : Equipped header cache equipped) (numbers : lists.lmfsBlocknr = cache.lmfsBlocknr) :
    Steps (Proper header) faults (cache.view header marks)
      (({ equipped with toLists := lists } : Cache n α).view header marks) := by
  have viewed : ({ equipped with toLists := lists } : Cache n α).view header marks =
      { cache.view header marks with data := equipped.data } :=
    view_data numbers equips.dev equips.dirt equips.disk equips.vm
  rw [viewed]
  cases oldest_data taken with
  | inl same =>
      rw [same]
      exact .refl
  | inr changed =>
      obtain ⟨other, contents, small, same⟩ := changed
      rw [same]
      have unnamed (key : Key) : (cache.view header marks).slot other ≠ .named key := by
        intro named
        have memory := (stocked.named other (slot_named.mp named).1).1
        omega
      have refilled : Step (Proper header) faults (cache.view header marks)
          { cache.view header marks with
            data := update cache.data other contents
            dirty := update (cache.view header marks).dirty other
              ((cache.view header marks).dirty other)
            unwritten := update (cache.view header marks).unwritten other
              ((cache.view header marks).unwritten other) } := .refill unnamed
      simp only [Function.update_eq_self] at refilled
      exact .single refilled

/-- What VM holds once it has been given the buffer. -/
def yielded (header : Header) (cache : Cache n α) (yieldid : BlockId) (bp : Fin n) :
    BlockId → Option α :=
  if yieldid = header.vmBlockidNone then cache.vm else update cache.vm yieldid (cache.data bp)

/-- The state once VM has been given the buffer. -/
def givenView (header : Header) (marks : Marks n) (cache : Cache n α) (yieldid : BlockId)
    (bp : Fin n) : State (Fin n) Key α :=
  { cache.view header marks with
    second := fun key => cache.yielded header yieldid bp (make64 key.1 key.2) }

/-- A dirty buffer with a name is written before it is given away. -/
def Cleanable (header : Header) (env : Environment α) (cache : Cache n α) (bp : Fin n) : Prop :=
  cache.lmfsDev bp ≠ header.noDev → cache.lmfsDirt bp = .dirty → cache.FlushReaches header env bp

/-- What becomes of a buffer that is cleaned to be renamed. -/
structure Evicted (header : Header) (env : Environment α) (marks : Marks n) (faults : Prop)
    (cache evicted : Cache n α) (bp : Fin n) (yieldid : BlockId) : Prop where
  steps : Steps (Proper header) faults (cache.view header marks) (evicted.view header marks)
  given : cache.Cleanable header env bp →
    Steps (Proper header) faults (cache.view header marks)
      (evicted.givenView header marks yieldid bp)
  marked : Marked header marks evicted
  keepsVm : KeepsVm cache evicted
  unnamed : evicted.lmfsDev bp = header.noDev
  names : ¬ Short header env → ∀ other, other ≠ bp → evicted.lmfsDev other = cache.lmfsDev other

/-- The flush of the device of a dirty victim. -/
def cleaned (header : Header) (env : Environment α) (cache : Cache n α) (bp : Fin n) : Cache n α :=
  if cache.lmfsDirt bp = .dirty then cache.flushall header env (cache.lmfsDev bp) else cache

theorem givenView_eq {cache : Cache n α} {bp : Fin n} (idle : marks.awaited bp = none) :
    (cache.setDev bp header.noDev).givenView header marks
        (make64 (cache.lmfsDev bp) (cache.lmfsBlocknr bp)) bp =
      { cache.view header marks with
        slot := update (cache.view header marks).slot bp .free
        second := if make64 (cache.lmfsDev bp) (cache.lmfsBlocknr bp) = header.vmBlockidNone then
            (cache.view header marks).second
          else update (cache.view header marks).second (cache.lmfsDev bp, cache.lmfsBlocknr bp)
            (cache.data bp) } := by
  have seconds : (fun key : Key => (cache.setDev bp header.noDev).yielded header
      (make64 (cache.lmfsDev bp) (cache.lmfsBlocknr bp)) bp (make64 key.1 key.2)) =
      if make64 (cache.lmfsDev bp) (cache.lmfsBlocknr bp) = header.vmBlockidNone then
        (cache.view header marks).second
      else update (cache.view header marks).second (cache.lmfsDev bp, cache.lmfsBlocknr bp)
        (cache.data bp) := by
    unfold yielded
    by_cases nothing : make64 (cache.lmfsDev bp) (cache.lmfsBlocknr bp) = header.vmBlockidNone
    · simp only [if_pos nothing]
      rfl
    · simp only [if_neg nothing]
      funext key
      by_cases same : key = (cache.lmfsDev bp, cache.lmfsBlocknr bp)
      · subst same
        simp [setDev]
      · rw [Function.update_of_ne same]
        refine Function.update_of_ne (fun ids => same ?_) ..
        obtain ⟨dev, block⟩ := make64_inj ids
        exact Prod.ext dev block
  unfold givenView
  rw [seconds, view_setDev cache idle]

theorem cleaned_marked (env : Environment α) {cache : Cache n α} (stocked : cache.Stocked header)
    (marked : Marked header marks cache) {bp : Fin n} (named : cache.lmfsDev bp ≠ header.noDev) :
    Marked header marks (cache.cleaned header env bp) := by
  unfold cleaned
  by_cases dirty : cache.lmfsDirt bp = .dirty
  · rw [if_pos dirty]
    exact flushall_marked env stocked marked named
  · rw [if_neg dirty]
    exact marked

theorem cleaned_keepsVm (header : Header) (env : Environment α) (cache : Cache n α) (bp : Fin n) :
    KeepsVm cache (cache.cleaned header env bp) := by
  unfold cleaned
  by_cases dirty : cache.lmfsDirt bp = .dirty
  · rw [if_pos dirty]
    exact flushall_keepsVm env cache _
  · rw [if_neg dirty]
    exact .refl cache

theorem cleaned_steps (env : Environment α) (faulty : Short header env → faults)
    {cache : Cache n α} (stocked : cache.Stocked header) (marked : Marked header marks cache)
    {bp : Fin n} (named : cache.lmfsDev bp ≠ header.noDev) :
    Steps (Proper header) faults (cache.view header marks)
      ((cache.cleaned header env bp).view header marks) := by
  unfold cleaned
  by_cases dirty : cache.lmfsDirt bp = .dirty
  · rw [if_pos dirty]
    exact (flushall_wrote env faulty stocked marked named).steps
  · rw [if_neg dirty]

/-- Where the flush gets past the victim, it is clean and has its name still. -/
theorem cleaned_clean (env : Environment α) {cache : Cache n α} (stocked : cache.Stocked header)
    (marked : Marked header marks cache) {bp : Fin n} (named : cache.lmfsDev bp ≠ header.noDev)
    (cleanable : cache.Cleanable header env bp) :
    (cache.cleaned header env bp).lmfsDirt bp = .clean ∧
      (cache.cleaned header env bp).lmfsDev bp = cache.lmfsDev bp := by
  unfold cleaned
  cases dirt : cache.lmfsDirt bp with
  | clean => simp [dirt]
  | dirty =>
      rw [if_pos rfl]
      exact flushall_reaches env stocked marked named dirt (cleanable named dirt)

theorem cleaned_names (env : Environment α) (full : ¬ Short header env) {cache : Cache n α}
    (stocked : cache.Stocked header) (marked : Marked header marks cache) {bp : Fin n}
    (named : cache.lmfsDev bp ≠ header.noDev) (other : Fin n) :
    (cache.cleaned header env bp).lmfsDev other = cache.lmfsDev other := by
  unfold cleaned
  by_cases dirty : cache.lmfsDirt bp = .dirty
  · rw [if_pos dirty]
    exact flushall_keepsNames full stocked marked named other
  · rw [if_neg dirty]

theorem setDev_marked {cache : Cache n α} (marked : Marked header marks cache) (bp : Fin n) :
    Marked header marks (cache.setDev bp header.noDev) :=
  (keepsLists_setDev cache bp).marked (fun _ _ => rfl) marked

theorem cleanable_of_full (full : ¬ Short header env) (cache : Cache n α) (bp : Fin n) :
    cache.Cleanable header env bp := by
  intro named dirty
  exact writesPast_of_full full _ (Nat.le_refl _) (mem_flushQueue.mpr ⟨dirty, rfl⟩)

theorem Marked.unused {cache : Cache n α} (marked : Marked header marks cache) {bp : Fin n}
    (unused : cache.lmfsCount bp = 0) :
    marks.awaited bp = none ∧ marks.unwritten bp = false := by
  constructor
  · cases waits : marks.awaited bp with
    | none => rfl
    | some dev =>
        have held := (marked.awaited bp dev waits).2.2.2.2
        omega
  · cases pending : marks.unwritten bp with
    | false => rfl
    | true =>
        have held := marked.unwritten bp pending
        omega

theorem evict_evicted (env : Environment α) (faulty : Short header env → faults)
    {cache evicted : Cache n α} (stocked : cache.Stocked header)
    (marked : Marked header marks cache) {bp : Fin n} {yieldid : BlockId}
    (unused : cache.lmfsCount bp = 0)
    (result : cache.evict header env bp = .ok (yieldid, evicted)) :
    Evicted header env marks faults cache evicted bp yieldid := by
  obtain ⟨idle, written⟩ := marked.unused unused
  unfold evict at result
  by_cases named : cache.lmfsDev bp ≠ header.noDev
  · rw [if_pos named] at result
    change (if (cache.cleaned header env bp).lmfsBytes bp ≠ header.fsBlockSize then _ else
      Except.ok (make64 ((cache.cleaned header env bp).lmfsDev bp)
        ((cache.cleaned header env bp).lmfsBlocknr bp),
        (cache.cleaned header env bp).setDev bp header.noDev)) = _ at result
    by_cases short : (cache.cleaned header env bp).lmfsBytes bp ≠ header.fsBlockSize
    · rw [if_pos short] at result
      cases result
    rw [if_neg short] at result
    have first := cleaned_steps env faulty stocked marked named
    have keepsVm := cleaned_keepsVm header env cache bp
    have cleanedMarked := cleaned_marked env stocked marked named
    have reached := cleaned_clean env stocked marked named
    have names := fun full => cleaned_names env full stocked marked named
    revert result first keepsVm cleanedMarked reached names
    generalize cache.cleaned header env bp = cleaned
    intro result first keepsVm cleanedMarked reached names
    cases result
    have lost : cleaned.lmfsDev bp ≠ header.noDev → cleaned.lmfsDirt bp ≠ .dirty ∨ faults := by
      intro _
      by_cases reaches : cache.Cleanable header env bp
      · rw [(reached reaches).1]
        exact Or.inl (by decide)
      · refine Or.inr (faulty ?_)
        by_contra full
        exact reaches (cleanable_of_full full cache bp)
    refine ⟨first.trans (.single (drop_step idle lost)), fun cleanable => first.trans ?_,
      setDev_marked cleanedMarked bp, ⟨keepsVm.vmcache, keepsVm.vm⟩, Function.update_self ..,
      fun full other apart => (Function.update_of_ne apart ..).trans (names full other)⟩
    obtain ⟨clean, same⟩ := reached cleanable
    have still : cleaned.lmfsDev bp ≠ header.noDev := same ▸ named
    rw [givenView_eq idle]
    by_cases nothing : make64 (cleaned.lmfsDev bp) (cleaned.lmfsBlocknr bp) = header.vmBlockidNone
    · rw [if_pos nothing, ← view_setDev cleaned idle]
      exact .single (drop_step idle lost)
    · rw [if_neg nothing]
      refine .single (.yield (slot_of_named still) ?_ written)
      simp [view, clean]
  · rw [if_neg named] at result
    cases result
    refine ⟨.refl, fun _ => ?_, marked, .refl cache, not_not.mp named, fun _ _ _ => rfl⟩
    unfold givenView yielded
    rw [if_pos rfl]
    exact .refl

end Cache

end Ve482.Bufcache
