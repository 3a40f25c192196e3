import Ve482.Bufcache.Evictions

set_option autoImplicit false

namespace Ve482.Bufcache

open Function (update)
open TwoLevel (Coherent Slot State Step Steps Takes)

variable {n : Nat} {α : Type} {header : Header} {env : Environment α}

/-- The marks when a get has returned a buffer: its client is to overwrite it, or to have it
read if it came back unnamed. -/
def Marks.got (header : Header) (marks : Marks n) (cache : Cache n α) (dev : Dev)
    (onlySearch : OnlySearch) (bp : Fin n) : Marks n :=
  match onlySearch with
  | .normal => marks
  | .noRead => { marks with unwritten := update marks.unwritten bp true }
  | .prefetch =>
      if cache.lmfsDev bp = header.noDev then
        { marks with awaited := update marks.awaited bp (some dev) }
      else marks

theorem Marks.got_awaited (header : Header) (marks : Marks n) (cache : Cache n α) (dev : Dev)
    (onlySearch : OnlySearch) {bp other : Fin n} (apart : other ≠ bp) :
    (marks.got header cache dev onlySearch bp).awaited other = marks.awaited other := by
  unfold Marks.got
  cases onlySearch with
  | normal => rfl
  | noRead => rfl
  | prefetch =>
      dsimp only
      by_cases unnamed : cache.lmfsDev bp = header.noDev
      · rw [if_pos unnamed]
        exact Function.update_of_ne apart ..
      · rw [if_neg unnamed]

theorem Marks.got_unwritten (header : Header) (marks : Marks n) (cache : Cache n α) (dev : Dev)
    (onlySearch : OnlySearch) {bp other : Fin n} (apart : other ≠ bp) :
    (marks.got header cache dev onlySearch bp).unwritten other = marks.unwritten other := by
  unfold Marks.got
  cases onlySearch with
  | normal => rfl
  | noRead => exact Function.update_of_ne apart ..
  | prefetch =>
      dsimp only
      by_cases unnamed : cache.lmfsDev bp = header.noDev
      · rw [if_pos unnamed]
      · rw [if_neg unnamed]

namespace Cache

variable {marks : Marks n} {faults : Prop}

/-- A buffer that is taken when it has been renamed: clean, with contents that may be new. -/
structure Filled (evicted filled : Cache n α) (bp : Fin n) (block : BlockNr) : Prop where
  lists : filled.toLists = evicted.rehash bp block
  dirt : filled.lmfsDirt = update evicted.lmfsDirt bp .clean
  dev : ∀ other, other ≠ bp → filled.lmfsDev other = evicted.lmfsDev other
  data : ∀ other, other ≠ bp → filled.data other = evicted.data other
  disk : filled.disk = evicted.disk
  vmcache : filled.vmcache = evicted.vmcache

theorem Filled.view {evicted filled : Cache n α} {bp : Fin n} {block : BlockNr}
    (fills : Filled evicted filled bp block) (marks marks' : Marks n)
    (awaited : ∀ other, other ≠ bp → marks'.awaited other = marks.awaited other)
    (unwritten : ∀ other, other ≠ bp → marks'.unwritten other = marks.unwritten other) :
    filled.view header marks' = (evicted.view header marks).take bp
      (filled.slot header marks'.awaited bp) (filled.data bp) (marks'.unwritten bp)
      (fun key => filled.vm (make64 key.1 key.2)) := by
  have numbers : filled.lmfsBlocknr = update evicted.lmfsBlocknr bp block := by
    rw [fills.lists]
    rfl
  have slots : filled.slot header marks'.awaited =
      update (evicted.slot header marks.awaited) bp (filled.slot header marks'.awaited bp) := by
    funext other
    by_cases same : other = bp
    · rw [same, Function.update_self]
    · rw [Function.update_of_ne same, slot, slot, fills.dev other same, awaited other same, numbers,
        Function.update_of_ne same]
  have dirts : (fun other => decide (filled.lmfsDirt other = .dirty)) =
      update (fun other => decide (evicted.lmfsDirt other = .dirty)) bp false := by
    funext other
    rw [fills.dirt]
    by_cases same : other = bp
    · simp [same]
    · simp [same]
  have contents : filled.data = update evicted.data bp (filled.data bp) := by
    funext other
    by_cases same : other = bp
    · rw [same, Function.update_self]
    · rw [Function.update_of_ne same, fills.data other same]
  have pending : marks'.unwritten = update marks.unwritten bp (marks'.unwritten bp) := by
    funext other
    by_cases same : other = bp
    · rw [same, Function.update_self]
    · rw [Function.update_of_ne same, unwritten other same]
  unfold Cache.view State.take
  rw [fills.disk, TwoLevel.State.mk.injEq]
  exact ⟨slots, dirts, pending, contents, rfl, rfl⟩

theorem claim_filled (evicted : Cache n α) (bp : Fin n) (dev : Dev) (block : BlockNr) :
    Filled evicted (evicted.claim bp dev block) bp block :=
  ⟨rfl, rfl, fun _ apart => Function.update_of_ne apart .., fun _ _ => rfl, rfl, rfl⟩

/-- A read of one block, or the failure of it. -/
structure BlockRead (header : Header) (env : Environment α) (cache read : Cache n α) (bp : Fin n) :
    Prop where
  lists : read.toLists = cache.toLists
  dirt : read.lmfsDirt = cache.lmfsDirt
  dev : ∀ other, other ≠ bp → read.lmfsDev other = cache.lmfsDev other
  data : ∀ other, other ≠ bp → read.data other = cache.data other
  disk : read.disk = cache.disk
  vm : read.vm = cache.vm
  vmcache : read.vmcache = cache.vmcache
  own : read.lmfsDev bp = cache.lmfsDev bp ∧
      read.data bp = some (cache.disk (cache.lmfsDev bp) (cache.lmfsBlocknr bp).toNat) ∨
    read.lmfsDev bp = header.noDev ∧ Short header env

theorem readBlock_read (header : Header) (env : Environment α) (cache : Cache n α) (bp : Fin n) :
    BlockRead header env cache (cache.readBlock header env bp) bp := by
  have short (partly : (cache.answerTo header env [bp]).result ≠ header.fsBlockSize) :
      Short header env := by
    refine ⟨cache.requests.length, 1, fun whole => partly ?_⟩
    rw [Nat.one_mul] at whole
    unfold answerTo
    rw [List.length_singleton, Nat.one_mul]
    exact whole
  unfold readBlock bdevGather gatherBufs gatherBufs
  dsimp only
  by_cases failed : (cache.answerTo header env [bp]).result < 0
  · rw [if_pos failed]
    refine ⟨rfl, rfl, fun _ apart => Function.update_of_ne apart ..,
      fun _ apart => Function.update_of_ne apart .., rfl, rfl, rfl,
      Or.inr ⟨Function.update_self .., short fun whole => ?_⟩⟩
    omega
  rw [if_neg failed]
  by_cases partly : (cache.answerTo header env [bp]).result ≠ header.fsBlockSize
  · rw [if_pos partly]
    exact ⟨rfl, rfl, fun _ apart => Function.update_of_ne apart ..,
      fun _ apart => Function.update_of_ne apart .., rfl, rfl, rfl,
      Or.inr ⟨Function.update_self .., short partly⟩⟩
  · rw [if_neg partly]
    refine ⟨rfl, rfl, fun _ _ => rfl, fun _ apart => Function.update_of_ne apart .., rfl, rfl, rfl,
      Or.inl ⟨rfl, ?_⟩⟩
    have completed : Completed header (cache.answerTo header env [bp]) 0 := by
      unfold Completed
      rw [not_not.mp partly, Nat.zero_add, Nat.one_mul]
    refine (Function.update_self ..).trans ?_
    rw [readBuffer, if_pos completed, Nat.add_zero]

/-- The get asks VM for the block, and gives it the buffer that it takes. -/
def Asks (cache : Cache n α) (onlySearch : OnlySearch) : Prop :=
  (onlySearch = .prefetch ∨ onlySearch = .normal) ∧ cache.vmcache = true

instance (cache : Cache n α) (onlySearch : OnlySearch) : Decidable (cache.Asks onlySearch) :=
  inferInstanceAs (Decidable (_ ∧ _))

/-- The state when a buffer has been taken, and given to VM if that is asked. -/
def takenView (header : Header) (marks : Marks n) (cache : Cache n α) (yieldid : BlockId)
    (bp : Fin n) (onlySearch : OnlySearch) : State (Fin n) Key α :=
  if cache.Asks onlySearch then cache.givenView header marks yieldid bp
  else cache.view header marks

theorem takenView_take (cache : Cache n α) (yieldid : BlockId) (bp bp' : Fin n)
    (onlySearch : OnlySearch) (slot : Slot Key) (data : Option α) (unwritten : Bool)
    (second : Key → Option α) :
    (cache.takenView header marks yieldid bp onlySearch).take bp' slot data unwritten second =
      (cache.view header marks).take bp' slot data unwritten second := by
  unfold takenView
  by_cases asks : cache.Asks onlySearch
  · rw [if_pos asks]
    rfl
  · rw [if_neg asks]

/-- The answer of VM, if it is asked. -/
def ask (header : Header) (env : Environment α) (cache : Cache n α) (onlySearch : OnlySearch)
    (yieldid getid : BlockId) (bp : Fin n) : Bool × Cache n α :=
  if (onlySearch = .prefetch ∨ onlySearch = .normal) ∧ cache.vmcache then
    cache.vmYieldBlockGetBlock header env yieldid getid bp
  else (false, cache)

/-- What is known once VM has answered. -/
structure Asked (header : Header) (marks : Marks n) (evicted cache : Cache n α) (dev : Dev)
    (block : BlockNr) (onlySearch : OnlySearch) (yieldid : BlockId) (bp : Fin n) (served : Bool) :
    Prop where
  filled : Filled evicted cache bp block
  own : cache.lmfsDev bp = dev
  left : ∀ key : Key, cache.vm (make64 key.1 key.2) = none ∨ cache.vm (make64 key.1 key.2) =
    (evicted.takenView header marks yieldid bp onlySearch).second key
  hit : served = true → cache.vm (make64 dev block) = none ∧ ∃ contents,
    (evicted.takenView header marks yieldid bp onlySearch).second (dev, block) = some contents ∧
      cache.data bp = some contents
  missed : served = false → onlySearch ≠ .noRead → cache.vm (make64 dev block) = none

/-- What a call to VM does. -/
structure VmAnswered (header : Header) (cache answered : Cache n α) (yieldid getid : BlockId)
    (bp : Fin n) (served : Bool) : Prop where
  lists : answered.toLists = cache.toLists
  dirt : answered.lmfsDirt = cache.lmfsDirt
  dev : answered.lmfsDev = cache.lmfsDev
  data : ∀ other, other ≠ bp → answered.data other = cache.data other
  disk : answered.disk = cache.disk
  vmcache : answered.vmcache = cache.vmcache
  left : ∀ id, answered.vm id = none ∨ answered.vm id = cache.yielded header yieldid bp id
  gone : answered.vm getid = none
  hit : served = true → ∃ contents, cache.yielded header yieldid bp getid = some contents ∧
    answered.data bp = some contents

theorem vmYieldBlockGetBlock_answered (header : Header) (env : Environment α) (cache : Cache n α)
    (yieldid getid : BlockId) (bp : Fin n) :
    VmAnswered header cache (cache.vmYieldBlockGetBlock header env yieldid getid bp).2 yieldid getid
      bp (cache.vmYieldBlockGetBlock header env yieldid getid bp).1 := by
  have kept (id : BlockId) :
      (if env.vmKeeps cache.vmCalls id then cache.yielded header yieldid bp id else none) = none ∨
        (if env.vmKeeps cache.vmCalls id then cache.yielded header yieldid bp id else none) =
          cache.yielded header yieldid bp id := by
    by_cases keeps : env.vmKeeps cache.vmCalls id = true
    · exact Or.inr (if_pos keeps)
    · exact Or.inl (if_neg keeps)
  unfold vmYieldBlockGetBlock
  dsimp only
  split
  · rename_i contents found
    change (if env.vmKeeps cache.vmCalls getid then cache.yielded header yieldid bp getid else none) =
      some contents at found
    refine ⟨rfl, rfl, rfl, fun _ apart => Function.update_of_ne apart .., rfl, rfl, fun id => ?_,
      ?_, fun _ => ?_⟩
    · dsimp only
      by_cases same : id = getid
      · rw [same, Function.update_self]
        exact Or.inl rfl
      · rw [Function.update_of_ne same]
        exact kept id
    · dsimp only
      rw [Function.update_self]
    · dsimp only
      rw [Function.update_self]
      refine ⟨contents, ?_, rfl⟩
      cases kept getid with
      | inl lost =>
          rw [found] at lost
          cases lost
      | inr same => rw [← same, found]
  · rename_i found
    exact ⟨rfl, rfl, rfl, fun _ _ => rfl, rfl, rfl, kept, found, fun served => by cases served⟩

theorem ask_asked (header : Header) (env : Environment α) (marks : Marks n) (evicted : Cache n α)
    (dev : Dev) (block : BlockNr) (onlySearch : OnlySearch) (yieldid : BlockId) (bp : Fin n)
    (quiet : evicted.vmcache = false → ∀ id, evicted.vm id = none) :
    Asked header marks evicted
      ((evicted.claim bp dev block).ask header env onlySearch yieldid (make64 dev block) bp).2
      dev block onlySearch yieldid bp
      ((evicted.claim bp dev block).ask header env onlySearch yieldid (make64 dev block) bp).1 := by
  have claimed := claim_filled evicted bp dev block
  have own : (evicted.claim bp dev block).lmfsDev bp = dev := Function.update_self ..
  by_cases asks : evicted.Asks onlySearch
  · have taken (key : Key) : (evicted.takenView header marks yieldid bp onlySearch).second key =
        evicted.yielded header yieldid bp (make64 key.1 key.2) := by
      rw [takenView, if_pos asks]
      rfl
    have answer := vmYieldBlockGetBlock_answered header env (evicted.claim bp dev block) yieldid
      (make64 dev block) bp
    unfold ask
    rw [if_pos (show (onlySearch = .prefetch ∨ onlySearch = .normal) ∧
      (evicted.claim bp dev block).vmcache = true from asks)]
    refine ⟨⟨answer.lists.trans claimed.lists, answer.dirt.trans claimed.dirt, fun other apart => ?_,
      fun other apart => (answer.data other apart).trans (claimed.data other apart),
      answer.disk.trans claimed.disk, answer.vmcache.trans claimed.vmcache⟩,
      (congrFun answer.dev bp).trans own, fun key => ?_, fun served => ⟨answer.gone, ?_⟩,
      fun _ _ => answer.gone⟩
    · rw [answer.dev]
      exact claimed.dev other apart
    · rw [taken]
      exact answer.left _
    · rw [taken]
      exact answer.hit served
  · have taken (key : Key) : (evicted.takenView header marks yieldid bp onlySearch).second key =
        evicted.vm (make64 key.1 key.2) := by
      rw [takenView, if_neg asks]
      rfl
    unfold ask
    rw [if_neg (show ¬ ((onlySearch = .prefetch ∨ onlySearch = .normal) ∧
      (evicted.claim bp dev block).vmcache = true) from asks)]
    refine ⟨claimed, own, fun key => Or.inr (taken key).symm, fun served => ?_, fun _ reads => ?_⟩
    · cases served
    apply quiet
    cases uses : evicted.vmcache with
    | false => rfl
    | true =>
        refine absurd ⟨?_, uses⟩ asks
        cases onlySearch with
        | normal => exact Or.inr rfl
        | noRead => exact absurd rfl reads
        | prefetch => exact Or.inl rfl

/-- The buffer that a get returns when it had to take one. -/
structure Fetched (header : Header) (env : Environment α) (marks : Marks n)
    (evicted fetched : Cache n α) (dev : Dev) (block : BlockNr) (onlySearch : OnlySearch)
    (yieldid : BlockId) (bp : Fin n) : Prop where
  filled : Filled evicted fetched bp block
  left : ∀ key : Key, fetched.vm (make64 key.1 key.2) = none ∨ fetched.vm (make64 key.1 key.2) =
    (evicted.takenView header marks yieldid bp onlySearch).second key
  takes : Coherent (Proper header) (evicted.takenView header marks yieldid bp onlySearch) →
    (evicted.view header marks).NoOther bp (dev, block) →
    Takes (Proper header) (evicted.takenView header marks yieldid bp onlySearch) bp
      (fetched.data bp) ((marks.got header fetched dev onlySearch bp).unwritten bp)
      (fun key => fetched.vm (make64 key.1 key.2))
      (fetched.slot header (marks.got header fetched dev onlySearch bp).awaited bp)
  device : fetched.lmfsDev bp = dev ∨
    fetched.lmfsDev bp = header.noDev ∧ (onlySearch = .prefetch ∨ Short header env)

theorem takenView_slot (cache : Cache n α) (yieldid : BlockId) (bp : Fin n)
    (onlySearch : OnlySearch) :
    (cache.takenView header marks yieldid bp onlySearch).slot = (cache.view header marks).slot := by
  unfold takenView
  by_cases asks : cache.Asks onlySearch
  · rw [if_pos asks]
    rfl
  · rw [if_neg asks]

theorem takenView_disk (cache : Cache n α) (yieldid : BlockId) (bp : Fin n)
    (onlySearch : OnlySearch) :
    (cache.takenView header marks yieldid bp onlySearch).disk = (cache.view header marks).disk := by
  unfold takenView
  by_cases asks : cache.Asks onlySearch
  · rw [if_pos asks]
    rfl
  · rw [if_neg asks]

theorem Filled.trans_read {evicted cache read : Cache n α} {bp : Fin n} {block : BlockNr}
    (fills : Filled evicted cache bp block) (reads : BlockRead header env cache read bp) :
    Filled evicted read bp block := by
  refine ⟨reads.lists.trans fills.lists, reads.dirt.trans fills.dirt, fun other apart => ?_,
    fun other apart => ?_, reads.disk.trans fills.disk, reads.vmcache.trans fills.vmcache⟩
  · rw [reads.dev other apart]
    exact fills.dev other apart
  · rw [reads.data other apart]
    exact fills.data other apart

theorem Filled.setDev {evicted cache : Cache n α} {bp : Fin n} {block : BlockNr}
    (fills : Filled evicted cache bp block) (dev : Dev) :
    Filled evicted (cache.setDev bp dev) bp block := by
  refine ⟨fills.lists, fills.dirt, fun other apart => ?_, fills.data, fills.disk, fills.vmcache⟩
  rw [← fills.dev other apart]
  exact Function.update_of_ne apart ..

theorem Filled.blocknr {evicted filled : Cache n α} {bp : Fin n} {block : BlockNr}
    (fills : Filled evicted filled bp block) : filled.lmfsBlocknr bp = block := by
  rw [fills.lists]
  exact Function.update_self ..

/-- A buffer that has the name of the block. -/
theorem slot_filled {evicted filled : Cache n α} {bp : Fin n} {dev : Dev} {block : BlockNr}
    (fills : Filled evicted filled bp block) (device : dev ≠ header.noDev)
    (own : filled.lmfsDev bp = dev) (awaited : Fin n → Option Dev) :
    filled.slot header awaited bp = .named (dev, block) := by
  rw [slot_of_named (own ▸ device), own, fills.blocknr]

theorem Fetched.served {evicted cache : Cache n α} {dev : Dev} {block : BlockNr}
    {onlySearch : OnlySearch} {yieldid : BlockId} {bp : Fin n} {served : Bool}
    (asked : Asked header marks evicted cache dev block onlySearch yieldid bp served)
    (device : dev ≠ header.noDev) (hit : served = true) :
    Fetched header env marks evicted cache dev block onlySearch yieldid bp := by
  have own := asked.own
  obtain ⟨moved, contents, stored, data⟩ := asked.hit hit
  refine ⟨asked.filled, asked.left, fun coherent fresh => ?_, Or.inl own⟩
  rw [slot_filled asked.filled device own]
  refine .named ?_ device moved (Or.inr ?_)
  · intro other apart
    rw [takenView_slot]
    exact fresh other apart
  · rw [data, (coherent.second _ _ stored).2.2]

theorem Fetched.normal {evicted cache : Cache n α} {dev : Dev} {block : BlockNr}
    {yieldid : BlockId} {bp : Fin n}
    (asked : Asked header marks evicted cache dev block .normal yieldid bp false)
    (device : dev ≠ header.noDev) (idle : marks.awaited bp = none) :
    Fetched header env marks evicted (cache.readBlock header env bp) dev block .normal yieldid
      bp := by
  have reads := readBlock_read header env cache bp
  have fills := asked.filled.trans_read reads
  have moved : (cache.readBlock header env bp).vm (make64 dev block) = none := by
    rw [reads.vm]
    exact asked.missed rfl (by decide)
  refine ⟨fills, fun key => ?_, fun coherent fresh => ?_, ?_⟩
  · rw [reads.vm]
    exact asked.left key
  · cases reads.own with
    | inl read =>
        have own := read.1.trans asked.own
        rw [slot_filled fills device own]
        refine .named ?_ device moved (Or.inr ?_)
        · intro other apart
          rw [takenView_slot]
          exact fresh other apart
        · rw [read.2, asked.own, asked.filled.blocknr, asked.filled.disk, takenView_disk]
          rfl
    | inr failed =>
        have freed : (cache.readBlock header env bp).slot header marks.awaited bp = .free := by
          unfold slot
          rw [if_neg (not_not.mpr failed.1), idle]
        change Takes _ _ bp _ _ _ ((cache.readBlock header env bp).slot header marks.awaited bp)
        rw [freed]
        exact .free
  · cases reads.own with
    | inl read => exact Or.inl (read.1.trans asked.own)
    | inr failed => exact Or.inr ⟨failed.1, Or.inr failed.2⟩

theorem Fetched.prefetch {evicted cache : Cache n α} {dev : Dev} {block : BlockNr}
    {yieldid : BlockId} {bp : Fin n}
    (asked : Asked header marks evicted cache dev block .prefetch yieldid bp false)
    (device : dev ≠ header.noDev) :
    Fetched header env marks evicted (cache.setDev bp header.noDev) dev block .prefetch yieldid
      bp := by
  have unnamed : (cache.setDev bp header.noDev).lmfsDev bp = header.noDev :=
    Function.update_self ..
  have fills := asked.filled.setDev header.noDev
  refine ⟨fills, asked.left, fun coherent fresh => ?_, Or.inr ⟨unnamed, Or.inl rfl⟩⟩
  have waits : (cache.setDev bp header.noDev).slot header
      (marks.got header (cache.setDev bp header.noDev) dev .prefetch bp).awaited bp =
        .reserved (dev, block) := by
    unfold slot Marks.got
    simp only [unnamed, if_true, ne_eq, not_true_eq_false, if_false, Function.update_self,
      fills.blocknr]
  rw [waits]
  refine .reserved ?_ device (asked.missed rfl (by decide))
  intro other apart
  rw [takenView_slot]
  exact fresh other apart

theorem Fetched.noRead {evicted cache : Cache n α} {dev : Dev} {block : BlockNr}
    {yieldid : BlockId} {bp : Fin n}
    (asked : Asked header marks evicted cache dev block .noRead yieldid bp false)
    (device : dev ≠ header.noDev)
    (quiet : cache.vmcache = false → ∀ id, cache.vm id = none) :
    Fetched header env marks evicted
      (if cache.vmcache then cache.vmForgetblock (make64 dev block) else cache) dev block .noRead
      yieldid bp := by
  have forgotten : Filled evicted
      (if cache.vmcache then cache.vmForgetblock (make64 dev block) else cache) bp block ∧
      (if cache.vmcache then cache.vmForgetblock (make64 dev block) else cache).lmfsDev bp = dev ∧
      (if cache.vmcache then cache.vmForgetblock (make64 dev block) else cache).vm
        (make64 dev block) = none ∧
      ∀ id, (if cache.vmcache then cache.vmForgetblock (make64 dev block) else cache).vm id = none ∨
        (if cache.vmcache then cache.vmForgetblock (make64 dev block) else cache).vm id =
          cache.vm id := by
    have fills := asked.filled
    by_cases uses : cache.vmcache = true
    · rw [if_pos uses]
      refine ⟨⟨fills.lists, fills.dirt, fills.dev, fills.data, fills.disk, fills.vmcache⟩, asked.own,
        Function.update_self .., fun id => ?_⟩
      by_cases same : id = make64 dev block
      · rw [same]
        exact Or.inl (Function.update_self ..)
      · exact Or.inr (Function.update_of_ne same ..)
    · rw [if_neg uses]
      exact ⟨fills, asked.own, quiet (Bool.eq_false_iff.mpr uses) _, fun _ => Or.inr rfl⟩
  revert forgotten
  generalize (if cache.vmcache then cache.vmForgetblock (make64 dev block) else cache) = forgot
  intro forgotten
  obtain ⟨fills, own, moved, kept⟩ := forgotten
  refine ⟨fills, fun key => ?_, fun coherent fresh => ?_, Or.inl own⟩
  · cases kept (make64 key.1 key.2) with
    | inl gone => exact Or.inl gone
    | inr same =>
        rw [same]
        exact asked.left key
  · rw [slot_filled fills device own]
    refine .named ?_ device moved (Or.inl (Function.update_self ..))
    intro other apart
    rw [takenView_slot]
    exact fresh other apart

theorem fetch_fetched (header : Header) (env : Environment α) (marks : Marks n)
    (evicted : Cache n α) {dev : Dev} (block : BlockNr) (onlySearch : OnlySearch)
    (yieldid : BlockId) {bp : Fin n} (device : dev ≠ header.noDev)
    (idle : marks.awaited bp = none)
    (quiet : evicted.vmcache = false → ∀ id, evicted.vm id = none) :
    Fetched header env marks evicted ((evicted.claim bp dev block).fetch header env onlySearch
      yieldid (make64 dev block) bp) dev block onlySearch yieldid bp := by
  have asked := ask_asked header env marks evicted dev block onlySearch yieldid bp quiet
  obtain ⟨answer, question⟩ : ∃ answer, (evicted.claim bp dev block).ask header env onlySearch
      yieldid (make64 dev block) bp = answer := ⟨_, rfl⟩
  rw [question] at asked
  -- Where VM serves the block, the rest of the call does not matter.
  have branch (missed : Cache n α)
      (whole : (evicted.claim bp dev block).fetch header env onlySearch yieldid (make64 dev block)
        bp = if answer.1 then answer.2 else missed)
      (rest : answer.1 = false →
        Fetched header env marks evicted missed dev block onlySearch yieldid bp) :
      Fetched header env marks evicted ((evicted.claim bp dev block).fetch header env onlySearch
        yieldid (make64 dev block) bp) dev block onlySearch yieldid bp := by
    rw [whole]
    cases served : answer.1 with
    | true =>
        rw [if_pos rfl]
        exact Fetched.served asked device served
    | false =>
        rw [if_neg (by decide)]
        exact rest served
  cases onlySearch with
  | normal =>
      refine branch (answer.2.readBlock header env bp) (by rw [← question]; rfl) fun unserved => ?_
      rw [unserved] at asked
      exact Fetched.normal asked device idle
  | prefetch =>
      refine branch (answer.2.setDev bp header.noDev) (by rw [← question]; rfl) fun unserved => ?_
      rw [unserved] at asked
      exact Fetched.prefetch asked device
  | noRead =>
      have plain : answer.2 = evicted.claim bp dev block := by
        rw [← question]
        rfl
      refine branch (if answer.2.vmcache then answer.2.vmForgetblock (make64 dev block)
        else answer.2) (by rw [← question]; rfl) fun unserved => ?_
      rw [unserved] at asked
      refine Fetched.noRead asked device fun unused => ?_
      rw [plain] at unused ⊢
      exact quiet unused

/-- What a call of the cache comes to: permitted steps, in a state that is as it should be. -/
structure Moves (header : Header) (faults : Prop) (marks marks' : Marks n) (cache cache' : Cache n α) :
    Prop where
  steps : Steps (Proper header) faults (cache.view header marks) (cache'.view header marks')
  wellformed : cache'.Wellformed header
  marked : Marked header marks' cache'
  quiet : (cache.vmcache = false → ∀ id, cache.vm id = none) →
    cache'.vmcache = false → ∀ id, cache'.vm id = none

/-- No buffer has the block or waits for it. -/
def Absent (header : Header) (marks : Marks n) (cache : Cache n α) (key : Key) : Prop :=
  ∀ bp, (cache.slot header marks.awaited bp).key ≠ some key

theorem KeepsLists.absent {cache cache' : Cache n α} (keeps : KeepsLists header cache cache')
    (marked : Marked header marks cache) {key : Key} (absent : cache.Absent header marks key) :
    cache'.Absent header marks key := by
  intro bp
  have before := absent bp
  cases keeps.dev bp with
  | inl same =>
      unfold slot at before ⊢
      rw [same, keeps.lists]
      exact before
  | inr dropped =>
      by_cases named : cache.lmfsDev bp ≠ header.noDev
      · unfold slot
        rw [if_neg (not_not.mpr dropped), marked.idle named]
        exact fun same => by cases same
      · unfold slot at before ⊢
        rw [not_not.mp named] at before
        rw [dropped, keeps.lists]
        exact before

theorem absent_of_client {cache : Cache n α} {dev : Dev} {block : BlockNr}
    (unnamed : ∀ other, cache.lmfsDev other = dev → cache.lmfsBlocknr other ≠ block)
    (unawaited : ∀ other, marks.awaited other = some dev → cache.lmfsBlocknr other ≠ block) :
    cache.Absent header marks (dev, block) := by
  intro bp
  unfold slot
  by_cases named : cache.lmfsDev bp ≠ header.noDev
  · rw [if_pos named]
    intro same
    obtain ⟨sameDev, sameBlock⟩ := Prod.mk.inj (Option.some.inj same)
    exact unnamed bp sameDev sameBlock
  · rw [if_neg named]
    cases waits : marks.awaited bp with
    | none => exact fun same => by cases same
    | some device =>
        intro same
        obtain ⟨sameDev, sameBlock⟩ := Prod.mk.inj (Option.some.inj same)
        exact unawaited bp (sameDev ▸ waits) sameBlock

theorem Filled.marked {evicted filled : Cache n α} {bp : Fin n} {dev : Dev} {block : BlockNr}
    (fills : Filled evicted filled bp block) (marked : Marked header marks evicted)
    (device : dev ≠ header.noDev) (unused : evicted.lmfsCount bp = 0) (onlySearch : OnlySearch) :
    Marked header (marks.got header filled dev onlySearch bp) filled := by
  have counts : filled.lmfsCount = update evicted.lmfsCount bp (evicted.lmfsCount bp + 1) := by
    rw [fills.lists]
    rfl
  have held : 0 < filled.lmfsCount bp := by
    rw [counts, Function.update_self]
    exact Nat.succ_pos _
  have apart {other : Fin n} (used : 0 < evicted.lmfsCount other) : other ≠ bp := by
    intro same
    rw [same, unused] at used
    exact absurd used (Nat.lt_irrefl 0)
  have kept {other : Fin n} (used : 0 < evicted.lmfsCount other) : 0 < filled.lmfsCount other := by
    rw [counts, Function.update_of_ne (apart used)]
    exact used
  have waiting (other : Fin n) (waits : Dev) (awaited : marks.awaited other = some waits) :
      other ≠ bp ∧ waits ≠ header.noDev ∧ filled.lmfsDev other = header.noDev ∧
        filled.lmfsDirt other = .clean ∧ marks.unwritten other = false ∧
        0 < filled.lmfsCount other := by
    obtain ⟨proper, unnamed, clean, written, used⟩ := marked.awaited other waits awaited
    refine ⟨apart used, proper, ?_, ?_, written, kept used⟩
    · rw [fills.dev other (apart used)]
      exact unnamed
    · rw [fills.dirt, Function.update_of_ne (apart used)]
      exact clean
  cases onlySearch with
  | normal =>
      exact ⟨fun other waits awaited => (waiting other waits awaited).2,
        fun other pending => kept (marked.unwritten other pending)⟩
  | noRead =>
      constructor
      · intro other waits awaited
        obtain ⟨different, proper, unnamed, clean, written, used⟩ := waiting other waits awaited
        refine ⟨proper, unnamed, clean, ?_, used⟩
        exact (Function.update_of_ne different ..).trans written
      · intro other pending
        by_cases same : other = bp
        · rw [same]
          exact held
        · have before : update marks.unwritten bp true other = true := pending
          rw [Function.update_of_ne same] at before
          exact kept (marked.unwritten other before)
  | prefetch =>
      unfold Marks.got
      dsimp only
      by_cases unnamed : filled.lmfsDev bp = header.noDev
      · rw [if_pos unnamed]
        constructor
        · intro other waits awaited
          by_cases same : other = bp
          · subst same
            have waitsFor : update marks.awaited other (some dev) other = some waits := awaited
            rw [Function.update_self] at waitsFor
            refine ⟨Option.some.inj waitsFor ▸ device, unnamed, ?_, ?_, held⟩
            · rw [fills.dirt, Function.update_self]
            · cases pending : marks.unwritten other with
              | false => rfl
              | true =>
                  have used := marked.unwritten other pending
                  omega
          · have before : update marks.awaited bp (some dev) other = some waits := awaited
            rw [Function.update_of_ne same] at before
            exact (waiting other waits before).2
        · exact fun other pending => kept (marked.unwritten other pending)
      · rw [if_neg unnamed]
        exact ⟨fun other waits awaited => (waiting other waits awaited).2,
          fun other pending => kept (marked.unwritten other pending)⟩

theorem flushReaches_congr {cache cache' : Cache n α}
    (blocknr : cache'.lmfsBlocknr = cache.lmfsBlocknr)
    (dirt : cache'.lmfsDirt = cache.lmfsDirt) (dev : cache'.lmfsDev = cache.lmfsDev)
    (requests : cache'.requests = cache.requests) (bp : Fin n) :
    cache'.FlushReaches header env bp ↔ cache.FlushReaches header env bp := by
  unfold FlushReaches flushQueue Cache.dirty
  rw [blocknr, dirt, dev, requests]

/-- A get that takes a buffer, and gives it to VM, takes one that is clean or can be cleaned. -/
def Spares (header : Header) (env : Environment α) (cache : Cache n α) (dev : Dev)
    (block : BlockNr) (onlySearch : OnlySearch) : Prop :=
  cache.Asks onlySearch → (∀ bp, cache.lmfsDev bp = dev → cache.lmfsBlocknr bp ≠ block) →
    match cache.oldest header env with
    | .ok taken => cache.Cleanable header env taken.1
    | .error _ => True

/-- A buffer that has the name of the block is held once more. -/
theorem hit_moves {cache : Cache n α} (wellformed : cache.Wellformed header)
    (marked : Marked header marks cache) {dev : Dev} {bp : Fin n} (device : dev ≠ header.noDev)
    (sameDev : cache.lmfsDev bp = dev) (onlySearch : OnlySearch) :
    Moves header faults marks
      (marks.got header ({ cache with toLists := cache.hold bp } : Cache n α) dev onlySearch bp)
      cache { cache with toLists := cache.hold bp } := by
  have named : cache.lmfsDev bp ≠ header.noDev := sameDev ▸ device
  have held : 0 < ({ cache with toLists := cache.hold bp } : Cache n α).lmfsCount bp := by
    change 0 < (cache.hold bp).lmfsCount bp
    rw [hold_lmfsCount, Function.update_self]
    exact Nat.succ_pos _
  have kept {other : Fin n} (used : 0 < cache.lmfsCount other) :
      0 < ({ cache with toLists := cache.hold bp } : Cache n α).lmfsCount other := by
    by_cases same : other = bp
    · rw [same]
      exact held
    · change 0 < (cache.hold bp).lmfsCount other
      rw [hold_lmfsCount, Function.update_of_ne same]
      exact used
  have still : Marked header marks ({ cache with toLists := cache.hold bp } : Cache n α) := by
    constructor
    · intro other waits awaited
      obtain ⟨proper, unnamed, clean, written, used⟩ := marked.awaited other waits awaited
      exact ⟨proper, unnamed, clean, written, kept used⟩
    · exact fun other pending => kept (marked.unwritten other pending)
  have viewed : ({ cache with toLists := cache.hold bp } : Cache n α).view header marks =
      cache.view header marks := by
    apply view_data
    · exact hold_lmfsBlocknr ..
    all_goals rfl
  have allocated := wellformed.stocked.named bp named
  have idle := marked.idle named
  cases onlySearch with
  | normal => exact ⟨viewed ▸ .refl, wellformed.hold allocated, still, fun quiet => quiet⟩
  | prefetch =>
      unfold Marks.got
      dsimp only
      rw [if_neg named]
      exact ⟨viewed ▸ .refl, wellformed.hold allocated, still, fun quiet => quiet⟩
  | noRead =>
      refine ⟨?_, wellformed.hold allocated, ?_, fun quiet => quiet⟩
      · have doubted : ({ cache with toLists := cache.hold bp } : Cache n α).view header
            (marks.got header ({ cache with toLists := cache.hold bp } : Cache n α) dev .noRead
              bp) = { cache.view header marks with
            unwritten := update (cache.view header marks).unwritten bp true } := by
          rw [← viewed]
          rfl
        rw [doubted]
        exact .single .doubt
      · constructor
        · intro other waits awaited
          obtain ⟨proper, unnamed, clean, written, used⟩ := still.awaited other waits awaited
          have different : other ≠ bp := by
            intro same
            rw [same] at unnamed
            exact named unnamed
          exact ⟨proper, unnamed, clean, (Function.update_of_ne different ..).trans written, used⟩
        · intro other pending
          by_cases same : other = bp
          · rw [same]
            exact held
          · have before : update marks.unwritten bp true other = true := pending
            rw [Function.update_of_ne same] at before
            exact still.unwritten other before

theorem Equipped.markedWith {cache equipped : Cache n α} {lists : Lists n}
    (equips : Equipped header cache equipped) (counts : lists.lmfsCount = cache.lmfsCount)
    (marked : Marked header marks cache) :
    Marked header marks ({ equipped with toLists := lists } : Cache n α) := by
  constructor
  · intro other waits awaited
    change _ ∧ equipped.lmfsDev other = _ ∧ equipped.lmfsDirt other = _ ∧ _ ∧
      0 < lists.lmfsCount other
    rw [equips.dev, equips.dirt, counts]
    exact marked.awaited other waits awaited
  · intro other pending
    change 0 < lists.lmfsCount other
    rw [counts]
    exact marked.unwritten other pending

/-- What becomes of the buffer of a get that finds no block: it is cleaned, and then filled. -/
theorem Equipped.refilled (faulty : Short header env → faults) {cache equipped evicted : Cache n α}
    {lists : Lists n} (equips : Equipped header cache equipped)
    (counts : lists.lmfsCount = cache.lmfsCount) (marked : Marked header marks cache)
    (quiet : cache.vmcache = false → ∀ id, cache.vm id = none) {bp : Fin n} {yieldid : BlockId}
    (unused : cache.lmfsCount bp = 0)
    (cleaned : ({ equipped with toLists := lists } : Cache n α).evict header env bp =
      .ok (yieldid, evicted)) {dev : Dev} (device : dev ≠ header.noDev) (block : BlockNr)
    (onlySearch : OnlySearch) :
    Evicted header env marks faults { equipped with toLists := lists } evicted bp yieldid ∧
      (evicted.vmcache = false → ∀ id, evicted.vm id = none) ∧
      Fetched header env marks evicted ((evicted.claim bp dev block).fetch header env onlySearch
        yieldid (make64 dev block) bp) dev block onlySearch yieldid bp := by
  have free : ({ equipped with toLists := lists } : Cache n α).lmfsCount bp = 0 := by
    change lists.lmfsCount bp = 0
    rw [counts]
    exact unused
  have evicts := evict_evicted env faulty (equips.stockedWith counts)
    (equips.markedWith counts marked) free cleaned
  have quietHere : evicted.vmcache = false → ∀ id, evicted.vm id = none := by
    apply evicts.keepsVm.quiet
    intro unused id
    change equipped.vm id = none
    rw [equips.vm]
    exact quiet (equips.vmcache ▸ unused) id
  exact ⟨evicts, quietHere, fetch_fetched header env marks evicted block onlySearch yieldid device
    (marked.unused unused).1 quietHere⟩

/-- A get, whether it finds the block or takes a buffer for it. -/
theorem Got.moves (faulty : Short header env → faults) {cache cache' : Cache n α}
    (wellformed : cache.Wellformed header) (marked : Marked header marks cache)
    (coherent : Coherent (Proper header) (cache.view header marks))
    (quiet : cache.vmcache = false → ∀ id, cache.vm id = none) {dev : Dev} {block : BlockNr}
    {onlySearch : OnlySearch} {bp : Fin n}
    (unawaited : ∀ other, marks.awaited other = some dev → cache.lmfsBlocknr other ≠ block)
    (spares : cache.Spares header env dev block onlySearch)
    (got : Got header env cache dev block onlySearch (.ok (bp, cache'))) :
    Moves header faults marks (marks.got header cache' dev onlySearch bp) cache cache' := by
  have result := got.wellformed wellformed
  cases got with
  | hit device sameDev sameBlock => exact hit_moves wellformed marked device sameDev onlySearch
  | @miss _ equipped evicted lists yieldid device absent taken unused equips allocated unhashed
      numbers counts rehashed moved cleaned keeps =>
      have first : Steps (Proper header) faults (cache.view header marks)
          (({ equipped with toLists := lists } : Cache n α).view header marks) :=
        oldest_steps wellformed.stocked taken equips numbers
      obtain ⟨evicts, quietHere, fetched⟩ := equips.refilled faulty counts marked quiet unused
        cleaned device block onlySearch
      have base : Steps (Proper header) faults (cache.view header marks)
          (evicted.takenView header marks yieldid bp onlySearch) := by
        refine first.trans ?_
        unfold takenView
        by_cases asks : evicted.Asks onlySearch
        · rw [if_pos asks]
          refine evicts.given fun named dirty => ?_
          have uses : cache.vmcache = true := by
            rw [← equips.vmcache]
            exact evicts.keepsVm.vmcache.symm.trans asks.2
          have reaches := spares ⟨asks.1, uses⟩ absent
          rw [taken] at reaches
          have congr : ({ equipped with toLists := lists } : Cache n α).FlushReaches header env bp ↔
              cache.FlushReaches header env bp := by
            apply flushReaches_congr
            · exact numbers
            · exact equips.dirt
            · exact equips.dev
            · exact equips.requests
          refine congr.mpr (reaches ?_ ?_)
          · rw [← equips.dev]
            exact named
          · rw [← equips.dirt]
            exact dirty
        · rw [if_neg asks]
          exact evicts.steps
      have key : evicted.Absent header marks (dev, block) := by
        refine keeps.absent (equips.markedWith counts marked) ?_
        refine absent_of_client (fun other named => ?_) fun other waits => ?_
        · change lists.lmfsBlocknr other ≠ block
          rw [numbers]
          refine absent other ?_
          rw [← equips.dev]
          exact named
        · change lists.lmfsBlocknr other ≠ block
          rw [numbers]
          exact unawaited other waits
      have unusedLast : evicted.lmfsCount bp = 0 := by
        rw [keeps.lists]
        change lists.lmfsCount bp = 0
        rw [counts]
        exact unused
      have unnamed (other : Key) :
          (evicted.takenView header marks yieldid bp onlySearch).slot bp ≠ .named other := by
        rw [takenView_slot]
        intro named
        exact (slot_named.mp named).1 evicts.unnamed
      have takes := fetched.takes (base.coherent coherent) fun other _ => key other
      refine ⟨?_, result, fetched.filled.marked evicts.marked device unusedLast onlySearch, ?_⟩
      · rw [fetched.filled.view marks _ (fun other apart => Marks.got_awaited _ _ _ _ _ apart)
          fun other apart => Marks.got_unwritten _ _ _ _ _ apart]
        rw [← takenView_take evicted yieldid bp bp onlySearch]
        exact base.trans (takes.steps unnamed fetched.left)
      · intro _ off id
        obtain ⟨lo, hi, same⟩ := exists_make64 id
        subst same
        have offHere : evicted.vmcache = false := fetched.filled.vmcache ▸ off
        cases fetched.left (lo, hi) with
        | inl gone => exact gone
        | inr kept =>
            rw [kept, takenView, if_neg fun asks => by
              rw [asks.2] at offHere
              cases offHere]
            exact quietHere offHere _

/-- The holds and the names that a get leaves. -/
structure Held (header : Header) (env : Environment α) (marks : Marks n)
    (cache cache' : Cache n α) (dev : Dev) (block : BlockNr) (onlySearch : OnlySearch)
    (bp : Fin n) : Prop where
  proper : dev ≠ header.noDev
  idle : marks.awaited bp = none
  pending : marks.unwritten bp = true → cache.lmfsDev bp = dev ∧ cache.lmfsBlocknr bp = block
  counts : cache'.lmfsCount = update cache.lmfsCount bp (cache.lmfsCount bp + 1)
  block : cache'.lmfsBlocknr bp = block
  device : cache'.lmfsDev bp = dev ∨ cache'.lmfsDev bp = header.noDev ∧
    (onlySearch = .prefetch ∨ Short header env) ∧ cache.lmfsCount bp = 0
  others : ∀ other, other ≠ bp → cache'.lmfsBlocknr other = cache.lmfsBlocknr other ∧
    (¬ Short header env → cache'.lmfsDev other = cache.lmfsDev other)

theorem Got.held {cache cache' : Cache n α} (marked : Marked header marks cache)
    (quiet : cache.vmcache = false → ∀ id, cache.vm id = none) {dev : Dev} {block : BlockNr}
    {onlySearch : OnlySearch} {bp : Fin n}
    (got : Got header env cache dev block onlySearch (.ok (bp, cache'))) :
    Held header env marks cache cache' dev block onlySearch bp := by
  cases got with
  | hit device sameDev sameBlock =>
      have numbers : (cache.hold bp).lmfsBlocknr = cache.lmfsBlocknr := hold_lmfsBlocknr ..
      refine ⟨device, marked.idle (sameDev ▸ device), fun _ => ⟨sameDev, sameBlock⟩,
        hold_lmfsCount .., ?_, Or.inl sameDev, fun other _ => ⟨?_, fun _ => rfl⟩⟩
      · change (cache.hold bp).lmfsBlocknr bp = block
        rw [numbers]
        exact sameBlock
      · change (cache.hold bp).lmfsBlocknr other = _
        rw [numbers]
  | @miss _ equipped evicted lists yieldid device absent taken unused equips allocated unhashed
      numbers counts rehashed moved cleaned keeps =>
      have faulty : Short header env → Short header env := fun short => short
      obtain ⟨evicts, -, fetched⟩ := equips.refilled faulty counts marked quiet unused cleaned
        device block onlySearch
      have made := fetched.filled.lists
      obtain ⟨idle, written⟩ := marked.unused unused
      refine ⟨device, idle, fun pending => absurd (written.symm.trans pending) (by decide), ?_,
        fetched.filled.blocknr, ?_, fun other apart => ⟨?_, fun full => ?_⟩⟩
      · rw [made]
        change update evicted.lmfsCount bp (evicted.lmfsCount bp + 1) = _
        rw [keeps.lists]
        change update lists.lmfsCount bp (lists.lmfsCount bp + 1) = _
        rw [counts]
      · exact fetched.device.imp_right fun dropped => ⟨dropped.1, dropped.2, unused⟩
      · rw [made]
        refine (Function.update_of_ne apart ..).trans ?_
        rw [keeps.lists]
        exact congrFun numbers other
      · rw [fetched.filled.dev other apart, evicts.names full other apart]
        exact congrFun equips.dev other

end Cache

end Ve482.Bufcache
