import Ve482.Bufcache.Represented
import Ve482.Lib.Replacement

set_option autoImplicit false

namespace Ve482.Bufcache

open Function (update)

variable {n : Nat} {α : Type} {header : Header} {env : Environment α}

namespace Cache

theorem oldest_nil {cache : Cache n α} (chain : cache.toLists.Free []) :
    cache.oldest header env = .error .allBuffersInUse := by
  have front : cache.front = none := chain.1.forward.head_eq
  rw [oldest, front]

/-- The first free buffer is taken if it has memory or is given some. -/
theorem oldest_front (header : Header) {cache : Cache n α} {first : Fin n} {rest : List (Fin n)}
    (chain : cache.toLists.Free (first :: rest))
    (memory : cache.lmfsBytes first < header.fsBlockSize →
      (env.alloc cache.allocCalls).isSome) :
    ∃ equipped, cache.oldest header env = .ok (first, equipped) := by
  have front : cache.front = some first := chain.1.forward.head_eq
  unfold oldest
  rw [front]
  dsimp only
  by_cases small : cache.lmfsBytes first < header.fsBlockSize
  · obtain ⟨contents, given⟩ := Option.isSome_iff_exists.1 (memory small)
    rw [if_pos small, given]
    exact ⟨_, rfl⟩
  · rw [if_neg small]
    exact ⟨_, rfl⟩

/-- The buffer that `lmfs_get_block` returns is off the chain of free buffers. -/
theorem Got.free {cache cache' : Cache n α} {free : List (Fin n)}
    (chain : cache.toLists.Free free) {dev : Dev} {block : BlockNr}
    {onlySearch : OnlySearch} {bp : Fin n}
    (got : Got header env cache dev block onlySearch (.ok (bp, cache'))) :
    cache'.toLists.Free (free.erase bp) ∧
      cache'.lmfsCount = update cache.lmfsCount bp (cache.lmfsCount bp + 1) ∧
      ∀ other, other ≠ bp →
        cache'.lmfsDev other = cache.lmfsDev other ∨ cache'.lmfsDev other = header.noDev := by
  cases got with
  | hit _ _ _ => exact ⟨chain.hold bp, hold_lmfsCount _ bp, fun _ _ => .inl rfl⟩
  | @miss _ equipped evicted lists yieldid device absent taken unused equips allocated unhashed
      numbers counts rehashed moved cleaned keeps =>
      have fetched : KeepsLists header (evicted.claim bp dev block)
          ((evicted.claim bp dev block).fetch header env onlySearch yieldid (make64 dev block) bp) :=
        fetch_keeps _ onlySearch yieldid _ bp
      have claimed : (evicted.claim bp dev block).toLists = lists.rehash bp block := by
        show evicted.toLists.rehash bp block = _
        rw [keeps.lists]
      refine ⟨?_, ?_, fun other different => ?_⟩
      · rw [fetched.lists, claimed]
        exact moved block free chain
      · rw [fetched.lists, claimed]
        show update lists.lmfsCount bp (lists.lmfsCount bp + 1) = _
        rw [counts]
      · have before : (evicted.claim bp dev block).lmfsDev other = evicted.lmfsDev other :=
          Function.update_of_ne different _ _
        have kept := keeps.dev other
        rw [show ({ equipped with toLists := lists } : Cache n α).lmfsDev = cache.lmfsDev from
          equips.dev] at kept
        cases fetched.dev other with
        | inl same => rw [same, before]; exact kept
        | inr dropped => exact .inr dropped

/-- The buffer that is taken for a missing block is the first one, if that has memory. -/
theorem Got.takes_front {cache cache' : Cache n α} {free : List (Fin n)}
    (chain : cache.toLists.Free free) {dev : Dev} {block : BlockNr} {onlySearch : OnlySearch}
    {bp : Fin n} (got : Got header env cache dev block onlySearch (.ok (bp, cache')))
    (absent : ∀ other, cache.lmfsDev other = dev → cache.lmfsBlocknr other ≠ block)
    (memory : ∀ first ∈ free, cache.lmfsBytes first < header.fsBlockSize →
      (env.alloc cache.allocCalls).isSome) : ∃ rest, free = bp :: rest := by
  cases got with
  | hit _ sameDev sameBlock => exact absurd sameBlock (absent bp sameDev)
  | miss _ _ taken =>
      cases free with
      | nil => cases taken.symm.trans (oldest_nil chain)
      | cons first rest =>
          obtain ⟨equipped, front⟩ := oldest_front header chain (memory first List.mem_cons_self)
          have same := Except.ok.inj (taken.symm.trans front)
          exact ⟨rest, by rw [(Prod.mk.inj same).1]⟩

end Cache

/-- A cache with a clock, and the time at which each buffer was released last; 0 is never. -/
structure Timed (n : Nat) (α : Type) where
  cache : Cache n α
  now : Nat
  released : Fin n → Nat

namespace Timed

def pool (header : Header) (n : Nat) (vmcache : Bool) (disk : Dev → Nat → α) : Timed n α where
  cache := lmfsBufPool header n vmcache disk
  now := 1
  released _ := 0

/-- A buffer is released when its last user puts it. -/
def step (header : Header) (env : Environment α) (timed : Timed n α) (event : Event n α) :
    Except Stop (Timed n α) :=
  (timed.cache.step header env event).map fun cache =>
    { cache
      now := timed.now + 1
      released := match event with
        | .put bp _ =>
            if cache.lmfsCount bp = 0 then update timed.released bp timed.now else timed.released
        | _ => timed.released }

def next (header : Header) (env : Environment α) (outcome : Except Stop (Timed n α))
    (event : Event n α) : Except Stop (Timed n α) :=
  outcome.bind fun timed => timed.step header env event

/-- Gets, and puts by a holder that go on the rear of the chain. -/
def GetsAndPuts (header : Header) : Except Stop (Timed n α) → Event n α → Prop
  | .error _, _ => True
  | .ok _, .get _ _ _ => True
  | .ok timed, .put bp blockType =>
      0 < timed.cache.lmfsCount bp ∧ timed.cache.lmfsDev bp ≠ header.devRam ∧
        blockType &&& header.oneShot = 0
  | .ok _, _ => False

/-- The free buffers are chained in the order of their releases, those that were never
released first; and these have no name. -/
structure Ordered (header : Header) (timed : Timed n α) : Prop where
  wellformed : timed.cache.Wellformed header
  past : ∀ bp, timed.released bp < timed.now
  free : ∃ free, timed.cache.toLists.Free free ∧ free.Pairwise fun left right =>
    timed.released left < timed.released right ∨ timed.released right = 0
  named : ∀ bp, timed.cache.lmfsCount bp = 0 → timed.cache.lmfsDev bp ≠ header.noDev →
    0 < timed.released bp

theorem pool_ordered (header : Header) (n : Nat) (vmcache : Bool) (disk : Dev → Nat → α) :
    (pool header n vmcache disk).Ordered header := by
  obtain ⟨free, chain⟩ := (pool_represented n).free
  refine ⟨Cache.pool_wellformed header n vmcache disk, fun _ => Nat.one_pos, ⟨free, chain, ?_⟩, ?_⟩
  · exact List.pairwise_of_forall fun _ _ => .inr rfl
  · exact fun _ _ named => absurd rfl named

theorem Ordered.get {timed : Timed n α} (ordered : timed.Ordered header) {dev : Dev}
    {block : BlockNr} {onlySearch : OnlySearch} {bp : Fin n} {cache : Cache n α}
    (got : timed.cache.lmfsGetBlock header env dev block onlySearch = .ok (bp, cache)) :
    Ordered header { cache, now := timed.now + 1, released := timed.released } := by
  obtain ⟨free, chain, order⟩ := ordered.free
  have outcome := Cache.lmfsGetBlock_got env ordered.wellformed dev block onlySearch
  rw [got] at outcome
  obtain ⟨chain', counts, devs⟩ := outcome.free chain
  refine ⟨outcome.wellformed ordered.wellformed, fun other => ?_,
    ⟨free.erase bp, chain', order.sublist List.erase_sublist⟩, fun other unused named => ?_⟩
  · exact Nat.lt_succ_of_lt (ordered.past other)
  · by_cases same : other = bp
    · subst same
      simp [counts] at unused
    · rw [counts, Function.update_of_ne same] at unused
      refine ordered.named other unused ?_
      cases devs other same with
      | inl kept => rw [← kept]; exact named
      | inr dropped => exact absurd dropped named

theorem Ordered.put {timed : Timed n α} (ordered : timed.Ordered header) {bp : Fin n}
    {blockType : BitVec 32} (held : 0 < timed.cache.lmfsCount bp)
    (slow : timed.cache.lmfsDev bp ≠ header.devRam) (kept : blockType &&& header.oneShot = 0) :
    Ordered header
      { cache := timed.cache.lmfsPutBlock header bp blockType
        now := timed.now + 1
        released := if (timed.cache.lmfsPutBlock header bp blockType).lmfsCount bp = 0 then
          update timed.released bp timed.now else timed.released } := by
  obtain ⟨free, chain, order⟩ := ordered.free
  have rear : (decide (timed.cache.lmfsDev bp = header.devRam ∨
      blockType &&& header.oneShot ≠ 0)) = false := by
    simp [slow, kept]
  have chain' : (timed.cache.lmfsPutBlock header bp blockType).toLists.Free
      (if timed.cache.lmfsCount bp - 1 ≠ 0 then free else free ++ [bp]) := by
    have moved := chain.put held false
    unfold Cache.lmfsPutBlock
    rw [rear]
    simpa using moved
  have counts : (timed.cache.lmfsPutBlock header bp blockType).lmfsCount =
      update timed.cache.lmfsCount bp (timed.cache.lmfsCount bp - 1) := put_lmfsCount _ bp _
  have wellformed := ordered.wellformed.put held blockType
  rw [counts, Function.update_self]
  by_cases last : timed.cache.lmfsCount bp - 1 = 0
  · rw [if_neg (not_not.mpr last)] at chain'
    rw [if_pos last]
    have outside : bp ∉ free := by
      intro member
      have unused := (chain.2.2 bp).mp member
      omega
    refine ⟨wellformed, fun other => ?_, ⟨_, chain', ?_⟩, fun other unused named => ?_⟩
    · by_cases same : other = bp
      · subst same
        simp
      · simpa [same] using Nat.lt_succ_of_lt (ordered.past other)
    · apply List.pairwise_append.2
      refine ⟨?_, List.pairwise_singleton _ _, ?_⟩
      · apply order.imp_of_mem
        intro left right inLeft inRight before
        have notLeft : left ≠ bp := fun same => outside (same ▸ inLeft)
        have notRight : right ≠ bp := fun same => outside (same ▸ inRight)
        simpa [notLeft, notRight] using before
      · intro left inLeft right inRight
        have notLeft : left ≠ bp := fun same => outside (same ▸ inLeft)
        have isLast : right = bp := List.mem_singleton.1 inRight
        subst isLast
        simpa [notLeft] using Or.inl (ordered.past left)
    · by_cases same : other = bp
      · subst same
        have := ordered.past other
        simp
        omega
      · have before : timed.cache.lmfsCount other = 0 := by
          have counted : (timed.cache.lmfsPutBlock header bp blockType).lmfsCount other = 0 := unused
          rwa [counts, Function.update_of_ne same] at counted
        simpa [same] using ordered.named other before named
  · rw [if_pos last] at chain'
    rw [if_neg last]
    refine ⟨wellformed, fun other => Nat.lt_succ_of_lt (ordered.past other),
      ⟨free, chain', order⟩, fun other unused named => ?_⟩
    have counted : (timed.cache.lmfsPutBlock header bp blockType).lmfsCount other = 0 := unused
    rw [counts] at counted
    by_cases same : other = bp
    · subst same
      rw [Function.update_self] at counted
      exact absurd counted last
    · rw [Function.update_of_ne same] at counted
      exact ordered.named other counted named

/-- The state of a run that has not been stopped is in order. -/
def InOrder (header : Header) : Except Stop (Timed n α) → Prop
  | .ok timed => timed.Ordered header
  | .error _ => True

theorem next_inOrder {outcome : Except Stop (Timed n α)} {event : Event n α}
    (ordered : InOrder header outcome) (permitted : GetsAndPuts header outcome event) :
    InOrder header (next header env outcome event) := by
  cases outcome with
  | error stop => trivial
  | ok timed =>
      cases event with
      | get dev block onlySearch =>
          show InOrder header (timed.step header env (.get dev block onlySearch))
          rw [step, Cache.step]
          cases got : timed.cache.lmfsGetBlock header env dev block onlySearch with
          | error stop => trivial
          | ok result => exact Ordered.get ordered got
      | put bp blockType =>
          obtain ⟨held, slow, kept⟩ := permitted
          exact Ordered.put ordered held slow kept
      | edit | markdirty | markclean | invalidate | flushall | readScattered | vmDrop =>
          exact permitted.elim

/-- Whenever a block is missing while every free buffer holds one, the buffer that is reused
was released before all other free ones, in the sense of `before`. -/
def ReusesFirst (before : Nat → Nat → Prop) (header : Header) (env : Environment α) (n : Nat)
    (vmcache : Bool) (disk : Dev → Nat → α) : Prop :=
  ∀ (events : List (Event n α)) (timed : Timed n α) (dev : Dev) (block : BlockNr)
    (onlySearch : OnlySearch) (bp : Fin n) (cache : Cache n α),
    Runs.EveryStep (next header env) (GetsAndPuts header) (.ok (pool header n vmcache disk)) events →
    Runs.run (next header env) (.ok (pool header n vmcache disk)) events = .ok timed →
    timed.cache.lmfsGetBlock header env dev block onlySearch = .ok (bp, cache) →
    (∀ other, timed.cache.lmfsDev other = dev → timed.cache.lmfsBlocknr other ≠ block) →
    (∀ other, timed.cache.lmfsCount other = 0 → timed.cache.lmfsDev other ≠ header.noDev) →
    timed.cache.lmfsCount bp = 0 ∧ ∀ other, timed.cache.lmfsCount other = 0 → other ≠ bp →
      before (timed.released bp) (timed.released other)

/-- The cache replaces the block that was released least recently. -/
theorem reuses_least_recent (header : Header) (env : Environment α) (n : Nat) (vmcache : Bool)
    (disk : Dev → Nat → α) : ReusesFirst (· < ·) header env n vmcache disk := by
  intro events timed dev block onlySearch bp cache permitted reached got absent allNamed
  have initial : InOrder header (.ok (pool header n vmcache disk)) :=
    pool_ordered header n vmcache disk
  have inOrder := Runs.run_invariant (InOrder header) (fun _ _ => next_inOrder) initial permitted
  rw [reached] at inOrder
  have ordered : timed.Ordered header := inOrder
  obtain ⟨free, chain, order⟩ := ordered.free
  have outcome := Cache.lmfsGetBlock_got env ordered.wellformed dev block onlySearch
  rw [got] at outcome
  obtain ⟨rest, split⟩ := outcome.takes_front chain absent fun first member small => by
    have unused := (chain.2.2 first).mp member
    have memory := (ordered.wellformed.stocked.named first (allNamed first unused)).1
    omega
  subst split
  refine ⟨(chain.2.2 bp).mp List.mem_cons_self, fun other unused different => ?_⟩
  have inRest : other ∈ rest :=
    (List.mem_cons.1 ((chain.2.2 other).mpr unused)).resolve_left different
  cases List.rel_of_pairwise_cons order inRest with
  | inl before => exact before
  | inr never =>
      have positive := ordered.named other unused (allNamed other unused)
      omega

end Timed

end Ve482.Bufcache
