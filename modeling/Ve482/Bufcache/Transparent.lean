import Ve482.Bufcache.Clients
import Ve482.Bufcache.LargerPool

set_option autoImplicit false

namespace Ve482.Bufcache

open Function (update)
open Runs
open TwoLevel (Coherent Steps Transparent)

variable {n : Nat} {α : Type} {header : Header} {env : Environment α}

theorem Succeeds.full (succeeds : Succeeds header env) : ¬ Cache.Short header env := by
  rintro ⟨call, blocks, short⟩
  exact short (succeeds.bdev call _)

namespace Cache

/-- Without faults no flush takes a name away. -/
theorem flushBuffers_names (full : ¬ Short header env) {marks : Marks n} (bufs : List (Fin n))
    {cache : Cache n α} (stocked : cache.Stocked header) (marked : Marked header marks cache)
    (bp : Fin n) :
    (bufs.foldl (fun cache bp => cache.flushBuffer header env bp) cache).lmfsDev bp =
      cache.lmfsDev bp := by
  induction bufs generalizing cache with
  | nil => rfl
  | cons first bufs ih =>
      have flushed : Flushed header env marks True [first] cache
          (cache.flushBuffer header env first) :=
        flushBuffer_flushed env (fun _ => trivial) stocked marked first
      rw [List.foldl_cons, ih ((flushBuffer_keeps env cache first).stocked stocked) flushed.marked]
      unfold flushBuffer
      by_cases flushes : cache.lmfsDev first ≠ header.noDev ∧ cache.lmfsDirt first = .dirty
      · rw [if_pos flushes]
        exact flushall_keepsNames full stocked marked flushes.1 bp
      · rw [if_neg flushes]

end Cache

namespace Traced

/-- What the clients ask for where the cache is to be transparent: blocks, holds, edits, flushes
and batches of prefetches; and they read no block that is still to be overwritten. -/
def Plain (traced : Traced n α) : Event n α → Prop
  | .get dev block onlySearch => onlySearch = .normal → ∀ bp, traced.marks.unwritten bp = true →
      traced.cache.lmfsDev bp = dev → traced.cache.lmfsBlocknr bp ≠ block
  | .put _ _ | .edit _ _ | .flushall | .readScattered _ _ => True
  | .markdirty _ | .markclean _ | .invalidate _ | .vmDrop _ => False

instance (traced : Traced n α) : (event : Event n α) → Decidable (traced.Plain event)
  | .get dev block onlySearch => inferInstanceAs (Decidable (onlySearch = .normal → ∀ bp,
      traced.marks.unwritten bp = true → traced.cache.lmfsDev bp = dev →
        traced.cache.lmfsBlocknr bp ≠ block))
  | .put _ _ | .edit _ _ | .flushall | .readScattered _ _ => .isTrue trivial
  | .markdirty _ | .markclean _ | .invalidate _ | .vmDrop _ => .isFalse id

/-- What holds between two calls while nothing fails: the slots show what was written, and what
is held has the name that it was got by, or is still to be read. -/
structure Steady (header : Header) (traced : Traced n α) : Prop where
  sound : traced.Sound header
  transparent : Transparent traced.written (traced.cache.view header traced.marks)
  named : ∀ bp, 0 < traced.cache.lmfsCount bp →
    traced.cache.lmfsDev bp ≠ header.noDev ∨ traced.marks.awaited bp ≠ none
  once : ∀ bp dev, traced.marks.awaited bp = some dev → traced.cache.lmfsCount bp = 1
  asked : ∀ bp, 0 < traced.cache.lmfsCount bp → traced.cache.lmfsDev bp ≠ header.noDev →
    traced.asked bp = (traced.cache.lmfsDev bp, traced.cache.lmfsBlocknr bp)

theorem start_steady (header : Header) (n : Nat) {vmcache : Bool} (disk : Dev → Nat → α) :
    (start header (lmfsBufPool header n vmcache disk)).Steady header := by
  have free (bp : Fin n) : ((start header (lmfsBufPool header n vmcache disk)).cache.view header
      (start header (lmfsBufPool header n vmcache disk)).marks).slot bp = .free := by
    simp [Cache.view, Cache.slot, start, lmfsBufPool]
  refine ⟨start_sound header n vmcache disk, ⟨fun key _ => rfl, fun bp key named => ?_,
    fun bp key named => ?_⟩, fun bp used => ?_, fun bp dev waits => ?_, fun bp used => ?_⟩
  · rw [free] at named
    cases named
  · rw [free] at named
    cases named
  · exact absurd used (Nat.lt_irrefl 0)
  · cases waits
  · exact absurd used (Nat.lt_irrefl 0)

/-- The state that a get leaves. -/
def afterGet (header : Header) (traced : Traced n α) (dev : Dev) (block : BlockNr)
    (onlySearch : OnlySearch) (taken : Fin n × Cache n α) : Traced n α :=
  { traced with
    cache := taken.2
    marks := traced.marks.got header taken.2 dev onlySearch taken.1
    asked := update traced.asked taken.1 (dev, block) }

theorem Steady.get (full : ¬ Cache.Short header env) {traced : Traced n α}
    (steady : traced.Steady header) {dev : Dev} {block : BlockNr} {onlySearch : OnlySearch}
    (client : Client header traced (.get dev block onlySearch)) {taken : Fin n × Cache n α}
    (got : Cache.Got header env traced.cache dev block onlySearch (.ok taken)) :
    (traced.afterGet header dev block onlySearch taken).Steady header := by
  have sound := steady.sound
  have faulty : Cache.Short header env → False := full
  have spares : traced.cache.Spares header env dev block onlySearch := by
    intro _ _
    cases traced.cache.oldest header env with
    | error stop => trivial
    | ok oldest => exact Cache.cleanable_of_full full _ _
  have moves := got.moves faulty sound.wellformed sound.marked sound.coherent sound.quiet client
    spares
  have held := got.held sound.marked sound.quiet
  have own (bp : Fin n) (apart : bp ≠ taken.1) :
      taken.2.lmfsCount bp = traced.cache.lmfsCount bp := by
    rw [held.counts, Function.update_of_ne apart]
  refine ⟨moves.sound sound _ _, moves.steps.transparent sound.coherent steady.transparent,
    fun bp used => ?_, fun bp waits awaited => ?_, fun bp used unnamed => ?_⟩
  · change taken.2.lmfsDev bp ≠ header.noDev ∨
      (traced.marks.got header taken.2 dev onlySearch taken.1).awaited bp ≠ none
    by_cases same : bp = taken.1
    · subst same
      cases held.device with
      | inl named =>
          rw [named]
          exact Or.inl held.proper
      | inr dropped =>
          obtain ⟨unnamed, prefetch, -⟩ := dropped
          have prefetches := prefetch.resolve_right full
          subst prefetches
          refine Or.inr ?_
          simp [Marks.got, unnamed]
    · have before : 0 < traced.cache.lmfsCount bp := own bp same ▸ used
      rw [Marks.got_awaited header traced.marks taken.2 dev onlySearch same,
        (held.others bp same).2 full]
      exact steady.named bp before
  · have waiting : (traced.marks.got header taken.2 dev onlySearch taken.1).awaited bp =
        some waits := awaited
    change taken.2.lmfsCount bp = 1
    by_cases same : bp = taken.1
    · subst same
      cases held.device with
      | inl named =>
          have idle := moves.marked.idle (named ▸ held.proper)
          rw [idle] at waiting
          cases waiting
      | inr dropped => rw [held.counts, Function.update_self, dropped.2.2]
    · rw [Marks.got_awaited header traced.marks taken.2 dev onlySearch same] at waiting
      rw [own bp same]
      exact steady.once bp waits waiting
  · change update traced.asked taken.1 (dev, block) bp =
      (taken.2.lmfsDev bp, taken.2.lmfsBlocknr bp)
    by_cases same : bp = taken.1
    · subst same
      cases held.device with
      | inl named => rw [Function.update_self, named, held.block]
      | inr dropped => exact absurd dropped.1 unnamed
    · have before : 0 < traced.cache.lmfsCount bp := own bp same ▸ used
      have still : traced.cache.lmfsDev bp ≠ header.noDev := (held.others bp same).2 full ▸ unnamed
      rw [Function.update_of_ne same, (held.others bp same).1, (held.others bp same).2 full]
      exact steady.asked bp before still

theorem Steady.put {traced : Traced n α} (steady : traced.Steady header) {bp : Fin n}
    {blockType : BitVec 32} (client : Client header traced (.put bp blockType)) :
    ({ traced with cache := traced.cache.lmfsPutBlock header bp blockType } :
      Traced n α).Steady header := by
  have sound := steady.sound
  have moves : Cache.Moves header False traced.marks traced.marks traced.cache
      (traced.cache.lmfsPutBlock header bp blockType) :=
    Cache.put_moves sound.wellformed sound.marked client.1 client.2.1 client.2.2 blockType
  have counts : (traced.cache.lmfsPutBlock header bp blockType).lmfsCount =
      update traced.cache.lmfsCount bp (traced.cache.lmfsCount bp - 1) := put_lmfsCount ..
  have numbers : (traced.cache.lmfsPutBlock header bp blockType).lmfsBlocknr =
      traced.cache.lmfsBlocknr := put_lmfsBlocknr ..
  have before {other : Fin n}
      (used : 0 < (traced.cache.lmfsPutBlock header bp blockType).lmfsCount other) :
      0 < traced.cache.lmfsCount other := by
    rw [counts] at used
    by_cases same : other = bp
    · rw [same]
      exact client.1
    · rwa [Function.update_of_ne same] at used
  refine ⟨moves.sound sound _ _, moves.steps.transparent sound.coherent steady.transparent,
    fun other used => steady.named other (before used), fun other waits awaited => ?_,
    fun other used named => ?_⟩
  · have apart : other ≠ bp := by
      intro same
      have waiting : traced.marks.awaited other = some waits := awaited
      rw [same, client.2.1] at waiting
      cases waiting
    change (traced.cache.lmfsPutBlock header bp blockType).lmfsCount other = 1
    rw [counts, Function.update_of_ne apart]
    exact steady.once other waits awaited
  · change traced.asked other = (traced.cache.lmfsDev other,
      (traced.cache.lmfsPutBlock header bp blockType).lmfsBlocknr other)
    rw [numbers]
    exact steady.asked other (before used) named

theorem Steady.edit {traced : Traced n α} (steady : traced.Steady header) {bp : Fin n}
    {contents : α} (client : Client header traced (.edit bp contents)) :
    (traced.afterEdit bp contents).Steady header := by
  have sound := steady.sound
  have named := (steady.named bp client.1).resolve_right fun waits => waits client.2
  refine ⟨sound.edit client.2 contents, ?_, steady.named, steady.once, steady.asked⟩
  unfold afterEdit
  rw [Cache.view_edit, steady.asked bp client.1 named]
  exact steady.transparent.edit sound.coherent (Cache.slot_of_named named) contents

theorem Steady.flushall (full : ¬ Cache.Short header env) {traced : Traced n α}
    (steady : traced.Steady header) :
    ({ traced with cache := traced.cache.lmfsFlushall header env } : Traced n α).Steady header := by
  have sound := steady.sound
  have faulty : Cache.Short header env → False := full
  have moves := Cache.lmfsFlushall_moves env faulty sound.wellformed sound.marked
  have lists : (traced.cache.lmfsFlushall header env).toLists = traced.cache.toLists :=
    (Cache.lmfsFlushall_keeps traced.cache).lists
  have names (bp : Fin n) : (traced.cache.lmfsFlushall header env).lmfsDev bp =
      traced.cache.lmfsDev bp :=
    Cache.flushBuffers_names full (List.finRange n) sound.wellformed.stocked sound.marked bp
  refine ⟨moves.sound sound _ _, moves.steps.transparent sound.coherent steady.transparent,
    fun bp used => ?_, fun bp waits awaited => ?_, fun bp used named => ?_⟩
  · change (traced.cache.lmfsFlushall header env).lmfsDev bp ≠ header.noDev ∨ _
    rw [names]
    exact steady.named bp (lists ▸ used)
  · change (traced.cache.lmfsFlushall header env).lmfsCount bp = 1
    rw [lists]
    exact steady.once bp waits awaited
  · change traced.asked bp = ((traced.cache.lmfsFlushall header env).lmfsDev bp,
      (traced.cache.lmfsFlushall header env).lmfsBlocknr bp)
    rw [names, lists]
    exact steady.asked bp (lists ▸ used) (names bp ▸ named)

theorem Steady.readScattered (env : Environment α) {traced : Traced n α}
    (steady : traced.Steady header) {dev : Dev} {bufq : List (Fin n)}
    (client : Client header traced (.readScattered dev bufq)) :
    ({ traced with
        cache := traced.cache.lmfsRwScattered header env dev bufq .reading
        marks := traced.marks.handed bufq } : Traced n α).Steady header := by
  have sound := steady.sound
  obtain ⟨distinct, awaited⟩ := client
  have moves : Cache.Moves header False traced.marks (traced.marks.handed bufq) traced.cache
      (traced.cache.lmfsRwScattered header env dev bufq .reading) :=
    Cache.readScattered_moves env sound.wellformed sound.marked sound.coherent distinct awaited
  have waiting (bp : Fin n) (member : bp ∈ bufq) :=
    sound.marked.awaited bp dev (awaited bp member)
  have counts := ((Cache.lmfsRwScattered_exact header env traced.cache dev bufq .reading distinct
    (fun _ bp member => (waiting bp member).2.2.2.2)
    fun _ bp member => (waiting bp member).2.1).reading rfl).count
  have reads := Cache.readScattered_readsBlocks header env dev distinct
    fun bp member => (waiting bp member).2.1
  revert moves counts reads
  generalize traced.cache.lmfsRwScattered header env dev bufq .reading = after
  intro moves counts reads
  -- the buffers of the batch are held by nobody any more
  have outside {bp : Fin n} (used : 0 < after.lmfsCount bp) : bp ∉ bufq := by
    intro member
    have count := counts bp
    have single := steady.once bp dev (awaited bp member)
    rw [if_pos member] at count
    omega
  have kept {bp : Fin n} (apart : bp ∉ bufq) : after.lmfsCount bp = traced.cache.lmfsCount bp := by
    have count := counts bp
    rw [if_neg apart, Nat.add_zero] at count
    exact count
  refine ⟨moves.sound sound _ _, moves.steps.transparent sound.coherent steady.transparent,
    fun bp used => ?_, fun bp waits still => ?_, fun bp used named => ?_⟩
  · have apart := outside used
    have marks : (traced.marks.handed bufq).awaited bp = traced.marks.awaited bp := if_neg apart
    change after.lmfsDev bp ≠ header.noDev ∨ (traced.marks.handed bufq).awaited bp ≠ none
    rw [(reads.others bp apart).2, marks]
    exact steady.named bp (kept apart ▸ used)
  · have before : (if bp ∈ bufq then none else traced.marks.awaited bp) = some waits := still
    by_cases member : bp ∈ bufq
    · rw [if_pos member] at before
      cases before
    · rw [if_neg member] at before
      exact (kept member).trans (steady.once bp waits before)
  · have apart := outside used
    change traced.asked bp = (after.lmfsDev bp, after.lmfsBlocknr bp)
    rw [(reads.others bp apart).2, reads.blocknr]
    exact steady.asked bp (kept apart ▸ used) ((reads.others bp apart).2 ▸ named)

theorem Steady.step (full : ¬ Cache.Short header env) {traced : Traced n α}
    (steady : traced.Steady header) {event : Event n α} (client : Client header traced event)
    (plain : traced.Plain event) :
    Outcome (Steady header) (traced.step header env event) := by
  cases event with
  | get dev block onlySearch =>
      rw [step_get]
      apply Outcome.map
      apply (Cache.lmfsGetBlock_got env steady.sound.wellformed dev block onlySearch).outcome
      intro taken got
      exact steady.get full client got
  | put bp blockType => exact steady.put client
  | edit bp contents => exact steady.edit client
  | flushall => exact steady.flushall full
  | readScattered dev bufq => exact steady.readScattered env client
  | markdirty bp => exact plain.elim
  | markclean bp => exact plain.elim
  | invalidate device => exact plain.elim
  | vmDrop kept => exact plain.elim

/-- What the cache shows of itself: a get that reads returns the last contents written, and a
flush leaves them on the devices. -/
def Shows (header : Header) (env : Environment α) (traced : Traced n α) : Event n α → Prop
  | .get dev block .normal =>
      Outcome (fun taken => taken.2.data taken.1 = some (traced.written (dev, block)))
        (traced.cache.lmfsGetBlock header env dev block .normal)
  | .flushall => ∀ dev (block : BlockNr),
      (traced.cache.lmfsFlushall header env).disk dev block.toNat = traced.written (dev, block)
  | _ => True

/-- A get that reads returns what was last written. -/
theorem Steady.reads (full : ¬ Cache.Short header env) {traced : Traced n α}
    (steady : traced.Steady header) {dev : Dev} {block : BlockNr}
    (client : Client header traced (.get dev block .normal))
    (plain : traced.Plain (.get dev block .normal)) {taken : Fin n × Cache n α}
    (got : Cache.Got header env traced.cache dev block .normal (.ok taken)) :
    taken.2.data taken.1 = some (traced.written (dev, block)) := by
  have held := got.held steady.sound.marked steady.sound.quiet
  have own : taken.2.lmfsDev taken.1 = dev := by
    cases held.device with
    | inl named => exact named
    | inr dropped =>
        have short := dropped.2.1.resolve_left (by decide)
        exact absurd short full
  have named : taken.2.slot header traced.marks.awaited taken.1 = .named (dev, block) := by
    rw [Cache.slot_of_named (own ▸ held.proper), own, held.block]
  apply (steady.get full client got).transparent.data taken.1 (dev, block) named
  cases pending : traced.marks.unwritten taken.1 with
  | false => exact pending
  | true =>
      obtain ⟨sameDev, sameBlock⟩ := held.pending pending
      exact absurd sameBlock (plain rfl taken.1 pending sameDev)

theorem Steady.shows (full : ¬ Cache.Short header env) {traced : Traced n α}
    (steady : traced.Steady header) {event : Event n α} (client : Client header traced event)
    (plain : traced.Plain event) : traced.Shows header env event := by
  have sound := steady.sound
  cases event with
  | get dev block onlySearch =>
      cases onlySearch with
      | normal =>
          apply (Cache.lmfsGetBlock_got env sound.wellformed dev block .normal).outcome
          intro taken got
          exact steady.reads full client plain got
      | noRead => trivial
      | prefetch => trivial
  | flushall =>
      intro dev block
      have faulty : Cache.Short header env → False := full
      have flushed := Cache.lmfsFlushall_flushed env faulty sound.wellformed.stocked sound.marked
      refine (steady.flushall full).transparent.disk (dev, block) fun bp named => ?_
      have clean := flushed.full full bp (List.mem_finRange bp) (Cache.slot_named.mp named).1
      simp [Cache.view, clean]
  | put bp blockType => trivial
  | edit bp contents => trivial
  | readScattered dev bufq => trivial
  | markdirty bp => trivial
  | markclean bp => trivial
  | invalidate device => trivial
  | vmDrop kept => trivial

end Traced

/-- The cache is transparent: in every run in which the drivers do all that they are asked for,
every get that reads returns what was last written to the block, or what its device held at the
start, and every flush leaves that on the devices. -/
theorem run_transparent (header : Header) (env : Environment α) (succeeds : Succeeds header env)
    (n : Nat) (disk : Dev → Nat → α) (events : List (Event n α))
    (clients : EveryStep (Traced.next header env)
      (Traced.While fun traced event => Traced.Client header traced event ∧ traced.Plain event)
      (.ok (Traced.start header (lmfsBufPool header n false disk))) events) :
    EveryStep (Traced.next header env) (Traced.While (Traced.Shows header env))
      (.ok (Traced.start header (lmfsBufPool header n false disk))) events := by
  have initial : Outcome (Traced.Steady header)
      (.ok (Traced.start header (lmfsBufPool header n false disk))) :=
    Traced.start_steady header n disk
  refine everyStep_imp (Outcome (Traced.Steady header)) ?_ ?_ initial clients
  · intro outcome event steady client
    cases outcome with
    | error stop => trivial
    | ok traced => exact Traced.Steady.shows succeeds.full steady client.1 client.2
  · intro outcome event steady client
    cases outcome with
    | error stop => exact steady
    | ok traced => exact Traced.Steady.step succeeds.full steady client.1 client.2

/-- A block is overwritten without being read, flushed, pushed out by a batch of prefetches and
read again. -/
theorem run_transparent_batch :
    EveryStep (Traced.next minixHeader smooth)
      (Traced.While (Traced.Shows minixHeader smooth))
      (.ok (Traced.start minixHeader (lmfsBufPool minixHeader 6 false fun _ block => block)))
      [.get 0x301 10 .noRead, .edit 0 77, .put 0 0, .flushall, .get 0x301 11 .prefetch,
        .get 0x301 12 .prefetch, .readScattered 0x301 [1, 2], .get 0x301 10 .normal] :=
  run_transparent minixHeader smooth smooth_succeeds 6 (fun _ block => block) _ (by decide +kernel)

end Ve482.Bufcache
