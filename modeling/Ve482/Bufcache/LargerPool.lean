import Ve482.Bufcache.Replacement

set_option autoImplicit false

namespace Ve482.Bufcache

open Function (update)

variable {n : Nat} {α : Type} {header : Header} {env : Environment α}

/-- A block is got and released at once. -/
structure Access where
  dev : Dev
  block : BlockNr
  blockType : BitVec 32

namespace Cache

def access (header : Header) (env : Environment α) (cache : Cache n α) (access : Access) :
    Except Stop (Cache n α) :=
  (cache.lmfsGetBlock header env access.dev access.block .normal).map fun got =>
    got.2.lmfsPutBlock header got.1 access.blockType

def nextAccess (header : Header) (env : Environment α) (outcome : Except Stop (Cache n α))
    (access : Access) : Except Stop (Cache n α) :=
  outcome.bind fun cache => cache.access header env access

/-- The block that a buffer holds, if it holds one. -/
def name (header : Header) (cache : Cache n α) (bp : Fin n) : Option (Dev × BlockNr) :=
  if cache.lmfsDev bp = header.noDev then none else some (cache.lmfsDev bp, cache.lmfsBlocknr bp)

/-- The blocks that are validly cached. -/
def cached (header : Header) (cache : Cache n α) : Set (Dev × BlockNr) :=
  { key | ∃ bp, cache.name header bp = some key }

theorem name_eq_some {cache : Cache n α} {bp : Fin n} {dev : Dev} {block : BlockNr} :
    cache.name header bp = some (dev, block) ↔
      dev ≠ header.noDev ∧ cache.lmfsDev bp = dev ∧ cache.lmfsBlocknr bp = block := by
  unfold name
  by_cases none : cache.lmfsDev bp = header.noDev
  · rw [if_pos none]
    refine ⟨fun impossible => by simp at impossible, ?_⟩
    rintro ⟨device, same, -⟩
    exact absurd (same.symm.trans none) device
  · rw [if_neg none, Option.some.injEq, Prod.mk.injEq]
    constructor
    · rintro ⟨same, block⟩
      exact ⟨same ▸ none, same, block⟩
    · exact fun both => both.2

/-- All buffers are free and clean, and VM is not used. -/
structure Idle (header : Header) (free : List (Fin n)) (cache : Cache n α) : Prop where
  wellformed : cache.Wellformed header
  chain : cache.toLists.Free free
  idle : ∀ bp, cache.lmfsCount bp = 0
  clean : ∀ bp, cache.lmfsDirt bp = .clean
  alone : cache.vmcache = false

end Cache

/-- Allocation and the drivers succeed. -/
structure Succeeds (header : Header) (env : Environment α) : Prop where
  alloc : ∀ call, (env.alloc call).isSome
  bdev : ∀ call bytes, (env.bdev call bytes).result = bytes

namespace Cache

/-- What a get leaves of an idle cache: one buffer is held and has the name. -/
structure OneHeld (header : Header) (dev : Dev) (block : BlockNr) (bp : Fin n)
    (cache cache' : Cache n α) : Prop where
  counts : cache'.lmfsCount = update cache.lmfsCount bp 1
  clean : ∀ other, cache'.lmfsDirt other = .clean
  alone : cache'.vmcache = false
  own : cache'.name header bp = some (dev, block)
  others : ∀ other, other ≠ bp → cache'.name header other = cache.name header other

theorem evict_clean {cache : Cache n α} {bp : Fin n} {yieldid : BlockId} {evicted : Cache n α}
    (clean : cache.lmfsDirt bp = .clean)
    (result : cache.evict header env bp = .ok (yieldid, evicted)) :
    evicted = cache.setDev bp header.noDev := by
  unfold evict at result
  by_cases named : cache.lmfsDev bp ≠ header.noDev
  · rw [if_pos named] at result
    simp only [clean, reduceCtorEq, if_false] at result
    by_cases short : cache.lmfsBytes bp ≠ header.fsBlockSize
    · rw [if_pos short] at result
      cases result
    · rw [if_neg short] at result
      exact (Prod.mk.inj (Except.ok.inj result)).2.symm
  · rw [if_neg named] at result
    have same : update cache.lmfsDev bp header.noDev = cache.lmfsDev :=
      Function.update_eq_self_iff.2 (not_not.mp named).symm
    rw [← (Prod.mk.inj (Except.ok.inj result)).2, setDev, same]

/-- A read that succeeds changes nothing but the contents. -/
theorem readBlock_succeeds (succeeds : Succeeds header env) (cache : Cache n α) (bp : Fin n) :
    ∃ data requests, cache.readBlock header env bp = { cache with data, requests } := by
  have result : (cache.bdevGather header env (cache.lmfsDev bp) (cache.lmfsBlocknr bp).toNat
      [bp]).1 = header.fsBlockSize := by
    show (env.bdev _ _).result = _
    rw [succeeds.bdev]
    simp
  unfold readBlock
  dsimp only
  rw [result, if_neg (by omega), if_neg (by simp)]
  exact ⟨_, _, rfl⟩

theorem Got.oneHeld (succeeds : Succeeds header env) {free : List (Fin n)}
    {cache cache' : Cache n α}
    (idle : Idle header free cache) {dev : Dev} {block : BlockNr} {bp : Fin n}
    (got : Got header env cache dev block .normal (.ok (bp, cache'))) :
    OneHeld header dev block bp cache cache' := by
  have unused := idle.idle bp
  cases got with
  | hit device sameDev sameBlock =>
      have numbers : (cache.hold bp).lmfsBlocknr = cache.lmfsBlocknr := hold_lmfsBlocknr _ bp
      refine ⟨?_, idle.clean, idle.alone, ?_, fun other _ => ?_⟩
      · show (cache.hold bp).lmfsCount = _
        rw [hold_lmfsCount, unused]
      · refine name_eq_some.2 ⟨device, sameDev, ?_⟩
        rw [numbers]
        exact sameBlock
      · unfold name
        rw [numbers]
  | @miss _ equipped evicted lists yieldid device absent taken unused equips allocated unhashed
      numbers counts rehashed moved cleaned keeps =>
      have clean : ({ equipped with toLists := lists } : Cache n α).lmfsDirt bp = .clean := by
        show equipped.lmfsDirt bp = _
        rw [equips.dirt]
        exact idle.clean bp
      have result := evict_clean clean cleaned
      subst result
      have alone : equipped.vmcache = false := equips.vmcache.trans idle.alone
      obtain ⟨data, requests, read⟩ := readBlock_succeeds succeeds
        ((({ equipped with toLists := lists } : Cache n α).setDev bp header.noDev).claim bp dev block)
        bp
      have fetched : ((({ equipped with toLists := lists } : Cache n α).setDev bp
          header.noDev).claim bp dev block).fetch header env .normal yieldid (make64 dev block) bp =
          { (({ equipped with toLists := lists } : Cache n α).setDev bp header.noDev).claim bp dev
            block with data, requests } := by
        rw [← read, fetch, if_neg]
        · rfl
        · intro asks
          have uses : equipped.vmcache = true := asks.2
          rw [alone] at uses
          cases uses
      rw [fetched]
      refine ⟨?_, fun other => ?_, alone, ?_, fun other different => ?_⟩
      · show update lists.lmfsCount bp (lists.lmfsCount bp + 1) = _
        rw [counts, unused]
      · show update equipped.lmfsDirt bp .clean other = _
        rw [equips.dirt]
        by_cases same : other = bp
        · rw [same, Function.update_self]
        · rw [Function.update_of_ne same]
          exact idle.clean other
      · refine name_eq_some.2 ⟨device, Function.update_self _ _ _, Function.update_self _ _ _⟩
      · have devs : update (update equipped.lmfsDev bp header.noDev) bp dev other =
            cache.lmfsDev other := by
          rw [Function.update_of_ne different, Function.update_of_ne different, equips.dev]
        have blocks : update lists.lmfsBlocknr bp block other = cache.lmfsBlocknr other := by
          rw [Function.update_of_ne different, numbers]
        show (if update (update equipped.lmfsDev bp header.noDev) bp dev other = header.noDev
          then none else some (update (update equipped.lmfsDev bp header.noDev) bp dev other,
            update lists.lmfsBlocknr bp block other)) = _
        rw [devs, blocks]
        rfl

/-- The names of the buffers, from front to rear. -/
def names (header : Header) (cache : Cache n α) (free : List (Fin n)) :
    List (Option (Dev × BlockNr)) :=
  free.map (cache.name header)

/-- The end of the chain on which the buffer is put. -/
def toFront (header : Header) (access : Access) : Bool :=
  access.dev = header.devRam ∨ access.blockType &&& header.oneShot ≠ 0

/-- What is left on the chain when the block has been got: the names before, less that of the
block, or less the first one. -/
theorem Got.names (succeeds : Succeeds header env) {free : List (Fin n)} {cache cache' : Cache n α}
    (idle : Idle header free cache) (distinct : Replacement.Distinct (cache.names header free))
    {dev : Dev} {block : BlockNr} {bp : Fin n}
    (got : Got header env cache dev block .normal (.ok (bp, cache'))) :
    cache'.names header (free.erase bp) =
      if some (dev, block) ∈ cache.names header free then
        (cache.names header free).erase (some (dev, block))
      else (cache.names header free).tail := by
  have held := got.oneHeld succeeds idle
  have nodup := idle.chain.2.1
  have kept : cache'.names header (free.erase bp) = cache.names header (free.erase bp) := by
    apply List.map_congr_left
    intro other member
    exact held.others other (fun same => (List.Nodup.not_mem_erase nodup) (same ▸ member))
  rw [kept]
  by_cases found : ∃ other, cache.lmfsDev other = dev ∧ cache.lmfsBlocknr other = block
  · have member : bp ∈ free := (idle.chain.2.2 bp).mpr (idle.idle bp)
    have own : cache.name header bp = some (dev, block) := by
      cases got with
      | hit device sameDev sameBlock => exact name_eq_some.2 ⟨device, sameDev, sameBlock⟩
      | miss _ absent =>
          obtain ⟨other, sameDev, sameBlock⟩ := found
          exact absurd sameBlock (absent other sameDev)
    have hit : some (dev, block) ∈ cache.names header free := List.mem_map.2 ⟨bp, member, own⟩
    rw [if_pos hit]
    exact distinct.map_erase member own
  · have absent : ∀ other, cache.lmfsDev other = dev → cache.lmfsBlocknr other ≠ block :=
      fun other device same => found ⟨other, device, same⟩
    obtain ⟨rest, split⟩ := got.takes_front idle.chain absent fun _ _ _ =>
      succeeds.alloc cache.allocCalls
    have missing : some (dev, block) ∉ cache.names header free := by
      intro member
      obtain ⟨other, -, named⟩ := List.mem_map.1 member
      obtain ⟨-, sameDev, sameBlock⟩ := name_eq_some.1 named
      exact absent other sameDev sameBlock
    rw [if_neg missing, split, List.erase_cons_head]
    rfl

/-- An access to an idle cache leaves it idle, and rearranges the names on the chain. -/
theorem Idle.access (succeeds : Succeeds header env) {free : List (Fin n)} {cache : Cache n α}
    (idle : Idle header free cache) (some_buf : 0 < n)
    (distinct : Replacement.Distinct (cache.names header free)) {access : Access}
    (device : access.dev ≠ header.noDev) :
    ∃ free' cache', cache.access header env access = .ok cache' ∧ Idle header free' cache' ∧
      cache'.names header free' = Replacement.access (cache.names header free)
        (access.dev, access.block) (toFront header access) := by
  have got := lmfsGetBlock_got env idle.wellformed access.dev access.block .normal
  unfold Cache.access
  cases outcome : cache.lmfsGetBlock header env access.dev access.block .normal with
  | error stop =>
      rw [outcome] at got
      cases got with
      | stop _ reason =>
          have refused := reason.resolve_left device
          cases free with
          | nil => 
              have member := (idle.chain.2.2 ⟨0, some_buf⟩).mpr (idle.idle _)
              simp at member
          | cons first rest =>
              obtain ⟨equipped, front⟩ := oldest_front header idle.chain
                fun _ => succeeds.alloc cache.allocCalls
              cases refused.symm.trans front
  | ok result =>
      obtain ⟨bp, cache'⟩ := result
      rw [outcome] at got
      have held := got.oneHeld succeeds idle
      obtain ⟨chain, -, -⟩ := got.free idle.chain
      have names := got.names succeeds idle distinct
      have outside : bp ∉ free.erase bp := idle.chain.2.1.not_mem_erase
      have used : cache'.lmfsCount bp = 1 := by rw [held.counts, Function.update_self]
      obtain ⟨-, sameDev, -⟩ := name_eq_some.1 held.own
      have held' : 0 < cache'.lmfsCount bp := by
        rw [used]
        exact Nat.one_pos
      have moved := chain.put held' (toFront header access)
      rw [used, if_neg (by decide)] at moved
      have put : cache'.lmfsPutBlock header bp access.blockType =
          { cache' with toLists := cache'.put bp (toFront header access) } := by
        unfold lmfsPutBlock
        rw [sameDev]
        rfl
      have counts : (cache'.put bp (toFront header access)).lmfsCount =
          update cache'.lmfsCount bp (cache'.lmfsCount bp - 1) := put_lmfsCount _ _ _
      have numbers : (cache'.put bp (toFront header access)).lmfsBlocknr = cache'.lmfsBlocknr :=
        put_lmfsBlocknr _ _ _
      have same : ∀ other, (cache'.lmfsPutBlock header bp access.blockType).name header other =
          cache'.name header other := by
        intro other
        rw [put]
        unfold name
        rw [numbers]
      refine ⟨if toFront header access then bp :: free.erase bp else free.erase bp ++ [bp],
        cache'.lmfsPutBlock header bp access.blockType, rfl, ?_, ?_⟩
      · refine ⟨(got.wellformed idle.wellformed).put held' access.blockType, ?_, fun other => ?_,
          held.clean, held.alone⟩
        · rw [put]
          exact moved
        · rw [put]
          show (cache'.put bp (toFront header access)).lmfsCount other = 0
          rw [counts, held.counts, Function.update_self]
          by_cases own : other = bp
          · rw [own, Function.update_self]
          · rw [Function.update_of_ne own, Function.update_of_ne own]
            exact idle.idle other
      · unfold Replacement.access
        dsimp only
        rw [← names]
        unfold Cache.names
        rw [List.map_congr_left fun other _ => same other]
        cases toFront header access with
        | true => simp [held.own]
        | false => simp [held.own]

/-- A pool after any accesses: all its buffers are on the chain, no block twice. -/
structure Settled (header : Header) (free : List (Fin n)) (cache : Cache n α) : Prop where
  idle : Idle header free cache
  distinct : Replacement.Distinct (cache.names header free)

theorem mem_cached {free : List (Fin n)} {cache : Cache n α} (idle : Idle header free cache)
    {key : Dev × BlockNr} : key ∈ cache.cached header ↔ some key ∈ cache.names header free := by
  constructor
  · rintro ⟨bp, named⟩
    exact List.mem_map.2 ⟨bp, (idle.chain.2.2 bp).mpr (idle.idle bp), named⟩
  · intro member
    obtain ⟨bp, -, named⟩ := List.mem_map.1 member
    exact ⟨bp, named⟩

theorem pool_settled (header : Header) (n : Nat) (disk : Dev → Nat → α) :
    Settled header (List.finRange n) (lmfsBufPool header n false disk) ∧
      (lmfsBufPool header n false disk).names header (List.finRange n) = List.replicate n none := by
  have nameless : (lmfsBufPool header n false disk).names header (List.finRange n) =
      List.replicate n none := by
    have all : ∀ bp, (lmfsBufPool header n false disk).name header bp = none := fun _ => if_pos rfl
    unfold names
    rw [List.map_congr_left fun bp _ => all bp, List.map_const', List.length_finRange]
  refine ⟨⟨⟨pool_wellformed header n false disk, ?_, fun _ => rfl, fun _ => rfl, rfl⟩, ?_⟩, nameless⟩
  · exact (pool_free n)
  · rw [nameless]
    intro key
    simp [List.count_replicate]

/-- Two pools of which the larger one is ahead of the smaller one by a single buffer. -/
def Ahead (header : Header) (small : Cache n α) (large : Cache (n + 1) α) : Prop :=
  ∃ free free', Settled header free small ∧ Settled header free' large ∧
    Replacement.Extends (small.names header free) (large.names header free')

theorem Ahead.access {env env' : Environment α} (succeeds : Succeeds header env)
    (succeeds' : Succeeds header env') (some_buf : 0 < n) {small : Cache n α}
    {large : Cache (n + 1) α} (ahead : Ahead header small large) {access : Access}
    (device : access.dev ≠ header.noDev) :
    ∃ small' large', small.access header env access = .ok small' ∧
      large.access header env' access = .ok large' ∧ Ahead header small' large' := by
  obtain ⟨free, free', settled, settled', extend⟩ := ahead
  obtain ⟨after, small', result, idle, names⟩ :=
    settled.idle.access succeeds some_buf settled.distinct device
  obtain ⟨after', large', result', idle', names'⟩ :=
    settled'.idle.access succeeds' n.succ_pos settled'.distinct device
  have nonempty : small.names header free ≠ [] := by
    have member := (settled.idle.chain.2.2 ⟨0, some_buf⟩).mpr (settled.idle.idle _)
    intro empty
    rw [List.map_eq_nil_iff.1 empty] at member
    simp at member
  refine ⟨small', large', result, result', after, after', ⟨idle, ?_⟩, ⟨idle', ?_⟩, ?_⟩
  · rw [names]
    exact settled.distinct.access _ _
  · rw [names']
    exact settled'.distinct.access _ _
  · rw [names, names']
    exact extend.access nonempty settled'.distinct _ _

theorem Ahead.run {env env' : Environment α} (succeeds : Succeeds header env)
    (succeeds' : Succeeds header env') (some_buf : 0 < n) {small : Cache n α}
    {large : Cache (n + 1) α} (ahead : Ahead header small large) {accesses : List Access}
    (devices : ∀ access ∈ accesses, access.dev ≠ header.noDev) :
    ∃ small' large', Runs.run (nextAccess header env) (.ok small) accesses = .ok small' ∧
      Runs.run (nextAccess header env') (.ok large) accesses = .ok large' ∧
      Ahead header small' large' := by
  induction accesses generalizing small large with
  | nil => exact ⟨small, large, rfl, rfl, ahead⟩
  | cons access rest ih =>
      obtain ⟨small', large', result, result', ahead'⟩ :=
        ahead.access succeeds succeeds' some_buf (devices access List.mem_cons_self)
      obtain ⟨last, last', ran, ran', final⟩ :=
        ih ahead' fun other member => devices other (List.mem_cons_of_mem access member)
      refine ⟨last, last', ?_, ?_, final⟩
      · rw [Runs.run_cons, ← ran]
        congr 1
      · rw [Runs.run_cons, ← ran']
        congr 1

theorem Ahead.cached_subset {small : Cache n α} {large : Cache (n + 1) α}
    (ahead : Ahead header small large) : small.cached header ⊆ large.cached header := by
  obtain ⟨free, free', settled, settled', extend⟩ := ahead
  intro key member
  rw [mem_cached settled'.idle]
  exact extend.mem ((mem_cached settled.idle).1 member)

/-- A block is found exactly if it is validly cached. -/
theorem searchHash_iff {cache : Cache n α} (wellformed : cache.Wellformed header) {dev : Dev}
    {block : BlockNr} (device : dev ≠ header.noDev) :
    (∃ bp, cache.searchHash dev block = some (some bp)) ↔ (dev, block) ∈ cache.cached header := by
  constructor
  · rintro ⟨bp, found⟩
    obtain ⟨sameDev, sameBlock⟩ := searchHash_some wellformed.lists found
    exact ⟨bp, name_eq_some.2 ⟨device, sameDev, sameBlock⟩⟩
  · rintro ⟨bp, named⟩
    obtain ⟨-, sameDev, sameBlock⟩ := name_eq_some.1 named
    obtain ⟨chain, search, -⟩ := searchHash_eq wellformed.lists dev block
    cases hit : chain.find? fun bp => cache.lmfsBlocknr bp = block ∧ cache.lmfsDev bp = dev with
    | some other => exact ⟨other, search.trans (by rw [hit])⟩
    | none =>
        have absent := searchHash_none wellformed.lists (search.trans (by rw [hit])) bp sameDev
        exact absurd sameBlock absent

end Cache

/-- A larger pool never loses a hit: after any accesses it holds every block that the smaller
one holds. -/
theorem larger_pool_holds (header : Header) (env env' : Environment α)
    (succeeds : Succeeds header env) (succeeds' : Succeeds header env') (n : Nat) (minbufs : 6 ≤ n)
    (disk : Dev → Nat → α) (accesses : List Access)
    (devices : ∀ access ∈ accesses, access.dev ≠ header.noDev) :
    ∃ small large,
      Runs.run (Cache.nextAccess header env) (.ok (lmfsBufPool header n false disk)) accesses =
        .ok small ∧
      Runs.run (Cache.nextAccess header env') (.ok (lmfsBufPool header (n + 1) false disk))
        accesses = .ok large ∧
      small.cached header ⊆ large.cached header ∧
      ∀ dev block, dev ≠ header.noDev →
        (∃ bp, small.searchHash dev block = some (some bp)) →
        ∃ bp, large.searchHash dev block = some (some bp) := by
  obtain ⟨settled, names⟩ := Cache.pool_settled header n disk
  obtain ⟨settled', names'⟩ := Cache.pool_settled header (n + 1) disk
  have ahead : Cache.Ahead header (lmfsBufPool header n false disk)
      (lmfsBufPool header (n + 1) false disk) := by
    refine ⟨_, _, settled, settled', ?_⟩
    rw [names, names', List.replicate_succ]
    exact Replacement.extends_cons none _
  obtain ⟨small, large, ran, ran', final⟩ := ahead.run succeeds succeeds' (by omega) devices
  have subset := final.cached_subset
  obtain ⟨free, free', last, last', -⟩ := final
  refine ⟨small, large, ran, ran', subset, fun dev block device hit => ?_⟩
  rw [Cache.searchHash_iff last'.idle.wellformed device]
  exact subset ((Cache.searchHash_iff last.idle.wellformed device).1 hit)

theorem smooth_succeeds : Succeeds minixHeader smooth := ⟨fun _ => rfl, fun _ _ => rfl⟩

/-- More blocks than either pool has buffers for; the third goes on the front. -/
def eightAccesses : List Access :=
  [⟨0x301, 1, 0⟩, ⟨0x301, 2, 0⟩, ⟨0x301, 3, 0o200⟩, ⟨0x301, 4, 0⟩, ⟨0x301, 5, 0⟩, ⟨0x301, 6, 0⟩,
    ⟨0x301, 7, 0⟩, ⟨0x301, 8, 0⟩]

theorem larger_pool_holds_eight :
    ∃ small large,
      Runs.run (Cache.nextAccess minixHeader smooth)
        (.ok (lmfsBufPool minixHeader 6 false fun _ block => block)) eightAccesses = .ok small ∧
      Runs.run (Cache.nextAccess minixHeader smooth)
        (.ok (lmfsBufPool minixHeader 7 false fun _ block => block)) eightAccesses = .ok large ∧
      small.cached minixHeader ⊆ large.cached minixHeader := by
  obtain ⟨small, large, ran, ran', subset, -⟩ := larger_pool_holds minixHeader smooth smooth
    smooth_succeeds smooth_succeeds 6 (by decide) (fun _ block => block) eightAccesses (by decide)
  exact ⟨small, large, ran, ran', subset⟩

end Ve482.Bufcache
