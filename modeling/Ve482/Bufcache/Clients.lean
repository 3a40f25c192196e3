import Ve482.Bufcache.Batches

set_option autoImplicit false

namespace Ve482.Bufcache

open Function (update)
open Runs (run run_cons)
open TwoLevel (Coherent Step Steps)

variable {n : Nat} {α : Type} {header : Header} {env : Environment α}

/-- The cache, with what its clients know: their marks, the block that each buffer was last got
for, and what was last written to every block. -/
structure Traced (n : Nat) (α : Type) where
  cache : Cache n α
  marks : Marks n
  asked : Fin n → Key
  written : Key → α

namespace Traced

def start (header : Header) (cache : Cache n α) : Traced n α where
  cache := cache
  marks := { unwritten := fun _ => false, awaited := fun _ => none }
  asked _ := (header.noDev, 0)
  written key := cache.disk key.1 key.2.toNat

def step (header : Header) (env : Environment α) (traced : Traced n α) :
    Event n α → Except Stop (Traced n α)
  | .get dev block onlySearch =>
      (traced.cache.lmfsGetBlock header env dev block onlySearch).map fun (bp, cache) =>
        { traced with
          cache := cache
          marks := traced.marks.got header cache dev onlySearch bp
          asked := update traced.asked bp (dev, block) }
  | .edit bp contents =>
      (traced.cache.step header env (.edit bp contents)).map fun cache =>
        { traced with
          cache := cache
          marks := { traced.marks with unwritten := update traced.marks.unwritten bp false }
          written := update traced.written (traced.asked bp) contents }
  | .readScattered dev bufq =>
      (traced.cache.step header env (.readScattered dev bufq)).map fun cache =>
        { traced with cache := cache, marks := traced.marks.handed bufq }
  | event =>
      (traced.cache.step header env event).map fun cache => { traced with cache := cache }

theorem step_get (header : Header) (env : Environment α) (traced : Traced n α) (dev : Dev)
    (block : BlockNr) (onlySearch : OnlySearch) :
    traced.step header env (.get dev block onlySearch) =
      (traced.cache.lmfsGetBlock header env dev block onlySearch).map fun taken =>
        { traced with
          cache := taken.2
          marks := traced.marks.got header taken.2 dev onlySearch taken.1
          asked := update traced.asked taken.1 (dev, block) } := rfl

theorem step_cache (header : Header) (env : Environment α) (traced : Traced n α)
    (event : Event n α) :
    (traced.step header env event).map Traced.cache = traced.cache.step header env event := by
  cases event with
  | get dev block onlySearch =>
      unfold step Cache.step
      dsimp only
      cases traced.cache.lmfsGetBlock header env dev block onlySearch with
      | error stop => rfl
      | ok taken => rfl
  | _ => rfl

def next (header : Header) (env : Environment α) (outcome : Except Stop (Traced n α))
    (event : Event n α) : Except Stop (Traced n α) :=
  outcome.bind fun traced => traced.step header env event

/-- The run of the cache is what is left of a run when the knowledge of the clients is dropped. -/
theorem run_cache (header : Header) (env : Environment α) (outcome : Except Stop (Traced n α))
    (events : List (Event n α)) :
    (run (next header env) outcome events).map cache =
      run (Cache.next header env) (outcome.map cache) events := by
  induction events generalizing outcome with
  | nil => rfl
  | cons event events ih =>
      rw [run_cons, run_cons, ih]
      congr 1
      cases outcome with
      | error stop => rfl
      | ok traced => exact step_cache header env traced event

/-- What holds of an event when it is sent, if the server still runs. -/
def While (property : Traced n α → Event n α → Prop) :
    Except Stop (Traced n α) → Event n α → Prop
  | .ok traced, event => property traced event
  | .error _, _ => True

instance (property : Traced n α → Event n α → Prop)
    [∀ traced event, Decidable (property traced event)] :
    (outcome : Except Stop (Traced n α)) → (event : Event n α) →
      Decidable (While property outcome event)
  | .ok traced, event => inferInstanceAs (Decidable (property traced event))
  | .error _, _ => .isTrue trivial

/-- How the clients use the cache. They get no block that a prefetch waits for. They put and edit
what they hold. What a prefetch left unnamed is read, once, and is not edited before; what was got
to be overwritten is overwritten before it is put. A buffer is only marked clean where nothing is
lost. -/
def Client (header : Header) (traced : Traced n α) : Event n α → Prop
  | .get dev block _ =>
      ∀ bp, traced.marks.awaited bp = some dev → traced.cache.lmfsBlocknr bp ≠ block
  | .put bp _ => 0 < traced.cache.lmfsCount bp ∧ traced.marks.awaited bp = none ∧
      traced.marks.unwritten bp = false
  | .edit bp _ => 0 < traced.cache.lmfsCount bp ∧ traced.marks.awaited bp = none
  | .markdirty bp => traced.marks.awaited bp = none
  | .markclean bp => traced.cache.lmfsDirt bp = .dirty → traced.cache.lmfsDev bp ≠ header.noDev →
      traced.cache.data bp =
        some (traced.cache.disk (traced.cache.lmfsDev bp) (traced.cache.lmfsBlocknr bp).toNat)
  | .readScattered dev bufq => bufq.Nodup ∧ ∀ bp ∈ bufq, traced.marks.awaited bp = some dev
  | .invalidate _ | .flushall | .vmDrop _ => True

instance [DecidableEq α] (traced : Traced n α) :
    (event : Event n α) → Decidable (Client header traced event)
  | .get dev block _ => inferInstanceAs (Decidable (∀ bp, traced.marks.awaited bp = some dev →
      traced.cache.lmfsBlocknr bp ≠ block))
  | .put bp _ => inferInstanceAs (Decidable (0 < traced.cache.lmfsCount bp ∧
      traced.marks.awaited bp = none ∧ traced.marks.unwritten bp = false))
  | .edit bp _ => inferInstanceAs (Decidable (0 < traced.cache.lmfsCount bp ∧
      traced.marks.awaited bp = none))
  | .markdirty bp => inferInstanceAs (Decidable (traced.marks.awaited bp = none))
  | .markclean bp => inferInstanceAs (Decidable (traced.cache.lmfsDirt bp = .dirty →
      traced.cache.lmfsDev bp ≠ header.noDev → _))
  | .readScattered dev bufq =>
      inferInstanceAs (Decidable (bufq.Nodup ∧ ∀ bp ∈ bufq, traced.marks.awaited bp = some dev))
  | .invalidate _ | .flushall | .vmDrop _ => .isTrue trivial

/-- What holds between two calls. -/
structure Sound (header : Header) (traced : Traced n α) : Prop where
  wellformed : traced.cache.Wellformed header
  marked : Cache.Marked header traced.marks traced.cache
  coherent : Coherent (Cache.Proper header) (traced.cache.view header traced.marks)
  quiet : traced.cache.vmcache = false → ∀ id, traced.cache.vm id = none

end Traced

namespace Cache

variable {marks : Marks n} {faults : Prop}

theorem Moves.sound {traced : Traced n α} {marks' : Marks n} {cache' : Cache n α}
    (moves : Moves header faults traced.marks marks' traced.cache cache')
    (sound : traced.Sound header) (asked : Fin n → Key) (written : Key → α) :
    Traced.Sound header ⟨cache', marks', asked, written⟩ :=
  ⟨moves.wellformed, moves.marked, moves.steps.coherent sound.coherent, moves.quiet sound.quiet⟩

theorem put_moves {cache : Cache n α} (wellformed : cache.Wellformed header)
    (marked : Marked header marks cache) {bp : Fin n} (held : 0 < cache.lmfsCount bp)
    (idle : marks.awaited bp = none) (written : marks.unwritten bp = false)
    (blockType : BitVec 32) :
    Moves header faults marks marks cache (cache.lmfsPutBlock header bp blockType) := by
  have kept {other : Fin n} (used : 0 < cache.lmfsCount other) (apart : other ≠ bp) :
      0 < (cache.lmfsPutBlock header bp blockType).lmfsCount other := by
    change 0 < (Lists.put cache.toLists bp _).lmfsCount other
    rw [put_lmfsCount, Function.update_of_ne apart]
    exact used
  have viewed : (cache.lmfsPutBlock header bp blockType).view header marks =
      cache.view header marks := by
    apply view_data
    · exact put_lmfsBlocknr ..
    all_goals rfl
  refine ⟨viewed ▸ .refl, wellformed.put held blockType, ⟨fun other waits awaited => ?_,
    fun other pending => ?_⟩, fun quiet => quiet⟩
  · obtain ⟨proper, unnamed, clean, settled, used⟩ := marked.awaited other waits awaited
    refine ⟨proper, unnamed, clean, settled, kept used ?_⟩
    intro same
    rw [same, idle] at awaited
    cases awaited
  · refine kept (marked.unwritten other pending) ?_
    intro same
    rw [same, written] at pending
    cases pending

theorem flushBuffer_keepsVm (header : Header) (env : Environment α) (cache : Cache n α)
    (bp : Fin n) : KeepsVm cache (cache.flushBuffer header env bp) := by
  unfold flushBuffer
  by_cases flushes : cache.lmfsDev bp ≠ header.noDev ∧ cache.lmfsDirt bp = .dirty
  · rw [if_pos flushes]
    exact flushall_keepsVm env cache _
  · rw [if_neg flushes]
    exact .refl cache

theorem flushBuffers_keepsVm (header : Header) (env : Environment α) (bufs : List (Fin n))
    (cache : Cache n α) :
    KeepsVm cache (bufs.foldl (fun cache bp => cache.flushBuffer header env bp) cache) := by
  induction bufs generalizing cache with
  | nil => exact .refl cache
  | cons bp bufs ih => exact (flushBuffer_keepsVm header env cache bp).trans (ih _)

theorem lmfsFlushall_moves (env : Environment α) (faulty : Short header env → faults)
    {cache : Cache n α} (wellformed : cache.Wellformed header)
    (marked : Marked header marks cache) :
    Moves header faults marks marks cache (cache.lmfsFlushall header env) := by
  have flushed := lmfsFlushall_flushed env faulty wellformed.stocked marked
  have keepsVm : KeepsVm cache (cache.lmfsFlushall header env) :=
    flushBuffers_keepsVm header env (List.finRange n) cache
  exact ⟨flushed.steps, (lmfsFlushall_keeps cache).wellformed wellformed, flushed.marked,
    keepsVm.quiet⟩

/-- An edit, in terms of slots. -/
theorem view_edit (cache : Cache n α) (marks : Marks n) (bp : Fin n) (contents : α) :
    ({ cache with data := update cache.data bp (some contents) }.lmfsMarkdirty bp).view header
        { marks with unwritten := update marks.unwritten bp false } =
      (cache.view header marks).edit bp contents := by
  have dirts : (fun other => decide (update cache.lmfsDirt bp .dirty other = .dirty)) =
      update (fun other => decide (cache.lmfsDirt other = .dirty)) bp true := by
    funext other
    by_cases same : other = bp
    · simp [same]
    · simp [same]
  unfold view TwoLevel.State.edit
  rw [TwoLevel.State.mk.injEq]
  exact ⟨rfl, dirts, rfl, rfl, rfl, rfl⟩

theorem edit_marked {cache : Cache n α} (marked : Marked header marks cache) {bp : Fin n}
    (idle : marks.awaited bp = none) (contents : α) :
    Marked header { marks with unwritten := update marks.unwritten bp false }
      ({ cache with data := update cache.data bp (some contents) }.lmfsMarkdirty bp) := by
  have apart {other : Fin n} {waits : Dev} (awaited : marks.awaited other = some waits) :
      other ≠ bp := by
    intro same
    rw [same, idle] at awaited
    cases awaited
  constructor
  · intro other waits awaited
    obtain ⟨proper, unnamed, clean, settled, used⟩ := marked.awaited other waits awaited
    refine ⟨proper, unnamed, ?_, ?_, used⟩
    · exact (Function.update_of_ne (apart awaited) ..).trans clean
    · exact (Function.update_of_ne (apart awaited) ..).trans settled
  · intro other pending
    have before : update marks.unwritten bp false other = true := pending
    by_cases same : other = bp
    · rw [same, Function.update_self] at before
      cases before
    · rw [Function.update_of_ne same] at before
      exact marked.unwritten other before

end Cache

namespace Traced

theorem start_sound (header : Header) (n : Nat) (vmcache : Bool) (disk : Dev → Nat → α) :
    (start header (lmfsBufPool header n vmcache disk)).Sound header := by
  have free (bp : Fin n) : ((start header (lmfsBufPool header n vmcache disk)).cache.view header
      (start header (lmfsBufPool header n vmcache disk)).marks).slot bp = .free := by
    simp [Cache.view, Cache.slot, start, lmfsBufPool]
  have idle : Cache.Marked header (start header (lmfsBufPool header n vmcache disk)).marks
      (start header (lmfsBufPool header n vmcache disk)).cache := by
    constructor
    · intro bp dev waits
      cases waits
    · intro bp pending
      cases pending
  refine ⟨Cache.pool_wellformed header n vmcache disk, idle, ⟨fun bp other key owns => ?_,
    fun bp key owns => ?_, fun bp key named => ?_, fun key contents stored => ?_⟩, fun _ _ => rfl⟩
  · rw [free] at owns
    cases owns
  · rw [free] at owns
    cases owns
  · rw [free] at named
    cases named
  · cases stored

/-- The state that an edit leaves. -/
def afterEdit (traced : Traced n α) (bp : Fin n) (contents : α) : Traced n α :=
  { traced with
    cache := ({ traced.cache with
      data := update traced.cache.data bp (some contents) } : Cache n α).lmfsMarkdirty bp
    marks := { traced.marks with unwritten := update traced.marks.unwritten bp false }
    written := update traced.written (traced.asked bp) contents }

theorem Sound.edit {traced : Traced n α} (sound : traced.Sound header) {bp : Fin n}
    (idle : traced.marks.awaited bp = none) (contents : α) :
    (traced.afterEdit bp contents).Sound header := by
  have edited : Cache.KeepsLists header traced.cache
      { traced.cache with data := update traced.cache.data bp (some contents) } :=
    Cache.keepsLists_data traced.cache bp fun _ => rfl
  refine ⟨Cache.KeepsLists.wellformed ⟨edited.lists, edited.bytes, edited.data, edited.dev⟩
    sound.wellformed, Cache.edit_marked sound.marked idle contents, ?_, sound.quiet⟩
  unfold afterEdit
  rw [Cache.view_edit]
  exact sound.coherent.edit bp contents

end Traced

end Ve482.Bufcache
