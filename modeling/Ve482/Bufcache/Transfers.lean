import Ve482.Bufcache.Scattered

set_option autoImplicit false

namespace Ve482.Bufcache

open Function (update)

variable {n : Nat} {α : Type} {header : Header} {env : Environment α} {dev : Dev}

namespace Cache

/-- `while (bufqsize > 0)` of `lmfs_rw_scattered`, for as many rounds as it takes. -/
inductive Rounds (header : Header) (env : Environment α) (dev : Dev) :
    RwFlag → List (Fin n) → Cache n α → Cache n α → Prop where
  | done {rwFlag : RwFlag} {cache : Cache n α} : Rounds header env dev rwFlag [] cache cache
  | read {bp : Fin n} {bufq : List (Fin n)} {cache : Cache n α} {i : Nat} {harvested : Cache n α}
      (round : transferRun header env dev .reading bp (cache.nextRun header bp bufq) cache =
        (i, harvested)) :
      Rounds header env dev .reading (bp :: bufq) cache
        (harvested.putAll header ((bp :: bufq).drop i))
  | stuck {bp : Fin n} {bufq : List (Fin n)} {cache harvested : Cache n α}
      (round : transferRun header env dev .writing bp (cache.nextRun header bp bufq) cache =
        (0, harvested)) :
      Rounds header env dev .writing (bp :: bufq) cache harvested
  | next {bp : Fin n} {bufq : List (Fin n)} {cache harvested after : Cache n α} {i : Nat}
      (round : transferRun header env dev .writing bp (cache.nextRun header bp bufq) cache =
        (i, harvested))
      (moved : i ≠ 0)
      (rest : Rounds header env dev .writing ((bp :: bufq).drop i) harvested after) :
      Rounds header env dev .writing (bp :: bufq) cache after

/-- Each round that goes on takes a buffer off the queue, so that the loop ends. -/
theorem transfers_rounds (header : Header) (env : Environment α) (dev : Dev) (rwFlag : RwFlag)
    {fuel : Nat} {bufq : List (Fin n)} (cache : Cache n α) (enough : bufq.length ≤ fuel) :
    Rounds header env dev rwFlag bufq cache (transfers header env dev rwFlag fuel bufq cache) := by
  induction fuel generalizing bufq cache with
  | zero =>
      have empty : bufq = [] := List.length_eq_zero_iff.mp (Nat.le_zero.mp enough)
      subst empty
      exact .done
  | succ fuel ih =>
      cases bufq with
      | nil => exact .done
      | cons bp bufq =>
          rw [transfers]
          rcases round : transferRun header env dev rwFlag bp (cache.nextRun header bp bufq) cache
            with ⟨i, harvested⟩
          cases rwFlag with
          | reading => exact .read round
          | writing =>
              dsimp only
              by_cases moved : i = 0
              · subst moved
                rw [if_pos rfl]
                exact .stuck round
              · rw [if_neg moved]
                refine .next round moved (ih harvested ?_)
                rw [List.length_drop, List.length_cons] at *
                omega

/-- Buffers of the queue with consecutive block numbers, no more than an I/O vector holds, at
the position of the first. -/
structure Placed (header : Header) (blocknr : Fin n → BlockNr) (dev : Dev) (rwFlag : RwFlag)
    (bufq : List (Fin n)) (request : Request n) : Prop where
  rwFlag : request.rwFlag = rwFlag
  dev : request.dev = dev
  queued : ∀ bp ∈ request.bufs, bp ∈ bufq
  some_buf : request.bufs ≠ []
  short : request.bufs.length ≤ header.nrIoreqs
  consecutive : ∀ i bp, request.bufs[i]? = some bp →
    (blocknr bp).toNat = request.position + i

/-- The buffer lies wholly inside what the driver completed of a call. -/
def CompletedIn (header : Header) (env : Environment α) (call : Nat) (request : Request n)
    (bp : Fin n) : Prop :=
  ∃ i, request.bufs[i]? = some bp ∧
    Completed header (env.bdev call (request.bufs.length * header.fsBlockSize)) i

/-- Some call between the two states completed the buffer. -/
def Transferred (header : Header) (env : Environment α) (before after : Cache n α)
    (bp : Fin n) : Prop :=
  ∃ call request, before.requests.length ≤ call ∧ after.requests[call]? = some request ∧
    CompletedIn header env call request bp

/-- What a scattered write does to the queue, under any answers of the driver. -/
structure WritesExactly (header : Header) (env : Environment α) (dev : Dev) (bufq : List (Fin n))
    (before after : Cache n α) : Prop where
  requests : ∃ issued, after.requests = before.requests ++ issued ∧
    ∀ request ∈ issued, Placed header before.lmfsBlocknr dev .writing bufq request
  clean : ∀ bp, Transferred header env before after bp → after.lmfsDirt bp = .clean
  kept : ∀ bp, ¬ Transferred header env before after bp → after.lmfsDirt bp = before.lmfsDirt bp
  renamed : ∀ bp, after.lmfsDev bp ≠ before.lmfsDev bp →
    bp ∈ bufq ∧ ¬ Transferred header env before after bp
  atMostOne : ∀ bp other, after.lmfsDev bp ≠ before.lmfsDev bp →
    after.lmfsDev other ≠ before.lmfsDev other → bp = other

theorem runLength_le (blocknr : Fin n → BlockNr) (first : BlockNr) (j limit : Nat)
    (bufs : List (Fin n)) : runLength blocknr first j limit bufs ≤ j + limit := by
  induction bufs generalizing j limit with
  | nil => cases limit <;> exact Nat.le_add_right ..
  | cons bp bufs ih =>
      cases limit with
      | zero => exact Nat.le_refl _
      | succ limit =>
          rw [runLength]
          by_cases differs : blocknr bp ≠ first + BitVec.ofNat 32 j
          · rw [if_pos differs]
            exact Nat.le_add_right ..
          · rw [if_neg differs]
            have more := ih (j + 1) limit
            omega

theorem nextRun_sublist (header : Header) (cache : Cache n α) (bp : Fin n) (bufq : List (Fin n)) :
    (cache.nextRun header bp bufq).Sublist (bp :: bufq) := List.take_sublist ..

/-- The first buffers of the run are the first of the queue. -/
theorem nextRun_take (header : Header) (cache : Cache n α) (bp : Fin n) (bufq : List (Fin n))
    (i : Nat) (within : i ≤ (cache.nextRun header bp bufq).length) :
    (cache.nextRun header bp bufq).take i = (bp :: bufq).take i := by
  unfold nextRun at within ⊢
  rw [List.length_take] at within
  rw [List.take_take, List.take_eq_take_iff]
  omega

theorem take_min_length (bufs : List (Fin n)) (blocks : Nat) :
    bufs.take (min bufs.length blocks) = bufs.take blocks := by
  rw [Nat.min_comm, ← List.take_eq_take_min]

/-- The queue in the order of its blocks. -/
abbrev Sorted (cache : Cache n α) (bufq : List (Fin n)) : Prop :=
  bufq.Pairwise fun left right =>
    (cache.lmfsBlocknr left).toNat ≤ (cache.lmfsBlocknr right).toNat

theorem nextRun_placed (header : Header) {cache : Cache n α} {bp : Fin n} {bufq : List (Fin n)}
    (sorted : cache.Sorted (bp :: bufq)) (dev : Dev) (rwFlag : RwFlag) :
    Placed header cache.lmfsBlocknr dev rwFlag (bp :: bufq)
      ⟨rwFlag, dev, (cache.lmfsBlocknr bp).toNat, cache.nextRun header bp bufq⟩ := by
  refine ⟨rfl, rfl, fun other member => (nextRun_sublist header cache bp bufq).subset member, ?_, ?_,
    fun i other at_i => nextRun_position sorted at_i⟩
  · obtain ⟨rest, run⟩ := nextRun_ne_nil header cache bp bufq
    change cache.nextRun header bp bufq ≠ []
    rw [run]
    exact List.cons_ne_nil bp rest
  · have most := runLength_le cache.lmfsBlocknr (cache.lmfsBlocknr bp) 0 header.nrIoreqs
      (bp :: bufq)
    change ((bp :: bufq).take _).length ≤ _
    rw [List.length_take]
    omega

/-- The completed part of a call is a number of its first buffers. -/
theorem completedIn_iff (call : Nat) (request : Request n) (bp : Fin n) :
    CompletedIn header env call request bp ↔
      bp ∈ request.bufs.take
        ((env.bdev call (request.bufs.length * header.fsBlockSize)).result /
          header.fsBlockSize).toNat := by
  unfold CompletedIn
  simp only [completed_iff, List.mem_iff_getElem?, List.getElem?_take, Option.ite_none_right_eq_some]
  exact exists_congr fun i => and_comm

theorem transferred_split (header : Header) (env : Environment α)
    {before middle after : Cache n α} {request : Request n}
    {issued : List (Request n)} (first : middle.requests = before.requests ++ [request])
    (rest : after.requests = middle.requests ++ issued) (bp : Fin n) :
    Transferred header env before after bp ↔
      CompletedIn header env before.requests.length request bp ∨
        Transferred header env middle after bp := by
  have length : middle.requests.length = before.requests.length + 1 := by
    rw [first, List.length_append, List.length_singleton]
  have here : after.requests[before.requests.length]? = some request := by
    rw [rest, first, List.append_assoc, List.getElem?_append_right (Nat.le_refl _), Nat.sub_self]
    rfl
  constructor
  · rintro ⟨call, made, later, found, completed⟩
    by_cases same : call = before.requests.length
    · subst same
      rw [here] at found
      cases found
      exact .inl completed
    · exact .inr ⟨call, made, by omega, found, completed⟩
  · rintro (completed | ⟨call, made, later, found, completed⟩)
    · exact ⟨_, request, Nat.le_refl _, here, completed⟩
    · exact ⟨call, made, by omega, found, completed⟩

theorem not_transferred_same {before after : Cache n α} (same : after.requests = before.requests)
    (bp : Fin n) : ¬ Transferred header env before after bp := by
  rintro ⟨call, request, later, found, -⟩
  rw [same, List.getElem?_eq_none later] at found
  cases found

/-! Writing. -/

theorem Placed.mono {blocknr : Fin n → BlockNr} {rwFlag : RwFlag} {bufq more : List (Fin n)}
    {request : Request n} (placed : Placed header blocknr dev rwFlag bufq request)
    (sub : ∀ bp ∈ bufq, bp ∈ more) : Placed header blocknr dev rwFlag more request :=
  ⟨placed.rwFlag, placed.dev, fun bp member => sub bp (placed.queued bp member), placed.some_buf,
    placed.short, placed.consecutive⟩

/-- One round of a write: the buffers of the completed part are clean, and only where there is
none the first one loses its name. -/
structure WroteRun (header : Header) (env : Environment α) (request : Request n) (bp : Fin n)
    (before after : Cache n α) (i : Nat) : Prop where
  requests : after.requests = before.requests ++ [request]
  blocknr : after.lmfsBlocknr = before.lmfsBlocknr
  counted : request.bufs.take i = request.bufs.take
    ((env.bdev before.requests.length (request.bufs.length * header.fsBlockSize)).result /
      header.fsBlockSize).toNat
  within : i ≤ request.bufs.length
  clean : ∀ other, other ∈ request.bufs.take i → after.lmfsDirt other = .clean
  kept : ∀ other, other ∉ request.bufs.take i → after.lmfsDirt other = before.lmfsDirt other
  names : ∀ other, (i = 0 → other ≠ bp) → after.lmfsDev other = before.lmfsDev other

theorem transferRun_wrote {cache harvested : Cache n α} {bp : Fin n} {bufs : List (Fin n)} {i : Nat}
    (round : transferRun header env dev .writing bp (bp :: bufs) cache = (i, harvested)) :
    WroteRun header env ⟨.writing, dev, (cache.lmfsBlocknr bp).toNat, bp :: bufs⟩ bp cache harvested
      i := by
  rw [transferRun_writing] at round
  unfold answerTo at round
  by_cases none : ((env.bdev cache.requests.length
      ((bp :: bufs).length * header.fsBlockSize)).result / header.fsBlockSize).toNat = 0
  · rw [if_pos none] at round
    cases round
    refine ⟨rfl, rfl, by rw [none], Nat.zero_le _, fun other member => ?_, fun _ _ => rfl,
      fun other apart => ?_⟩
    · rw [List.take_zero] at member
      cases member
    · exact Function.update_of_ne (apart rfl) ..
  · rw [if_neg none] at round
    cases round
    have taken := take_min_length (bp :: bufs) ((env.bdev cache.requests.length
      ((bp :: bufs).length * header.fsBlockSize)).result / header.fsBlockSize).toNat
    refine ⟨rfl, rfl, taken, Nat.min_le_left .., fun other member => ?_, fun other outside => ?_,
      fun _ _ => rfl⟩
    · rw [taken] at member
      exact if_pos member
    · rw [taken] at outside
      exact cleanAll_dirt _ outside

/-- A round that made progress, and what the rounds after it did. -/
theorem WritesExactly.cons {cache harvested after : Cache n α} {bufq : List (Fin n)} {bp : Fin n}
    {i : Nat} {request : Request n}
    (rest : WritesExactly header env dev (bufq.drop i) harvested after) (distinct : bufq.Nodup)
    (placed : Placed header cache.lmfsBlocknr dev .writing bufq request)
    (wrote : WroteRun header env request bp cache harvested i) (moved : i ≠ 0)
    (taken : request.bufs.take i = bufq.take i) :
    WritesExactly header env dev bufq cache after := by
  obtain ⟨issued, log, placedRest⟩ := rest.requests
  have split (other : Fin n) := transferred_split header env
    wrote.requests log other
  have first (other : Fin n) :
      CompletedIn header env cache.requests.length request other ↔
        other ∈ request.bufs.take i := by
    rw [completedIn_iff, ← wrote.counted]
  have sameNames : harvested.lmfsDev = cache.lmfsDev :=
    funext fun other => wrote.names other fun zero => absurd zero moved
  refine ⟨⟨request :: issued, ?_, fun other member => ?_⟩, ?_, ?_, ?_, ?_⟩
  · rw [log, wrote.requests, List.append_assoc]
    rfl
  · rcases List.mem_cons.mp member with rfl | later
    · exact placed
    · have made := placedRest other later
      rw [wrote.blocknr] at made
      exact made.mono fun inside => List.mem_of_mem_drop
  · intro other transferred
    by_cases later : Transferred header env harvested after other
    · exact rest.clean other later
    · rw [rest.kept other later]
      exact wrote.clean other ((first other).mp (((split other).mp transferred).resolve_right later))
  · intro other untouched
    rw [split, not_or, first] at untouched
    rw [rest.kept other untouched.2, wrote.kept other untouched.1]
  · intro other changed
    rw [← sameNames] at changed
    obtain ⟨queued, later⟩ := rest.renamed other changed
    refine ⟨List.mem_of_mem_drop queued, ?_⟩
    rw [split, first, taken]
    rintro (early | transferred)
    · exact List.disjoint_take_drop distinct (Nat.le_refl i) early queued
    · exact later transferred
  · rw [← sameNames]
    exact rest.atMostOne

theorem rounds_write {rwFlag : RwFlag} {bufq : List (Fin n)} {before after : Cache n α}
    (rounds : Rounds header env dev rwFlag bufq before after) (writing : rwFlag = .writing)
    (sorted : before.Sorted bufq) (distinct : bufq.Nodup) :
    WritesExactly header env dev bufq before after := by
  induction rounds with
  | done =>
      refine ⟨⟨[], (List.append_nil _).symm, fun _ member => by cases member⟩, ?_, fun _ _ => rfl,
        fun _ changed => absurd rfl changed, fun _ _ changed => absurd rfl changed⟩
      exact fun bp transferred => absurd transferred (not_transferred_same rfl bp)
  | read => cases writing
  | @stuck bp bufq cache harvested round =>
      obtain ⟨bufs, run⟩ := nextRun_ne_nil header cache bp bufq
      have placed := nextRun_placed header sorted dev .writing
      rw [run] at round placed
      have wrote := transferRun_wrote round
      have split (other : Fin n) := transferred_split header env
        wrote.requests (List.append_nil _).symm other
      have nothing (other : Fin n) : ¬ Transferred header env cache harvested other := by
        rw [split, completedIn_iff, ← wrote.counted, List.take_zero]
        rintro (member | later)
        · cases member
        · exact not_transferred_same rfl other later
      have only (other : Fin n) (changed : harvested.lmfsDev other ≠ cache.lmfsDev other) :
          other = bp := by
        by_contra apart
        exact changed (wrote.names other fun _ => apart)
      refine ⟨⟨_, wrote.requests, fun request member => ?_⟩, ?_, ?_, ?_, ?_⟩
      · rw [List.mem_singleton.mp member]
        exact placed
      · exact fun other transferred => absurd transferred (nothing other)
      · intro other _
        exact wrote.kept other (by rw [List.take_zero]; exact List.not_mem_nil)
      · intro other changed
        refine ⟨?_, nothing other⟩
        rw [only other changed]
        exact List.mem_cons_self
      · intro other another changed changed'
        rw [only other changed, only another changed']
  | @next bp bufq cache harvested after i round moved rest ih =>
      obtain ⟨bufs, run⟩ := nextRun_ne_nil header cache bp bufq
      have placed := nextRun_placed header sorted dev .writing
      have taken := nextRun_take header cache bp bufq i
      rw [run] at round placed taken
      have wrote := transferRun_wrote round
      have taken : (bp :: bufs).take i = (bp :: bufq).take i := taken wrote.within
      have dropped := List.drop_sublist i (bp :: bufq)
      have sortedRest : harvested.Sorted ((bp :: bufq).drop i) := by
        unfold Sorted
        rw [wrote.blocknr]
        exact sorted.sublist dropped
      exact (ih writing sortedRest (distinct.sublist dropped)).cons distinct placed wrote moved taken

/-! Reading. -/

/-- Calls of `lmfs_put_block`, in order, with steps between them that leave the lists alone. -/
inductive Puts (header : Header) : List (Fin n) → Cache n α → Cache n α → Prop where
  | done {cache : Cache n α} : Puts header [] cache cache
  | other {calls : List (Fin n)} {cache middle after : Cache n α}
      (same : middle.toLists = cache.toLists) (rest : Puts header calls middle after) :
      Puts header calls cache after
  | put {bp : Fin n} {calls : List (Fin n)} {cache after : Cache n α}
      (rest : Puts header calls (cache.lmfsPutBlock header bp header.partialDataBlock) after) :
      Puts header (bp :: calls) cache after

theorem Puts.append {first second : List (Fin n)} {before middle after : Cache n α}
    (early : Puts header first before middle) (late : Puts header second middle after) :
    Puts header (first ++ second) before after := by
  induction early with
  | done => exact late
  | other same rest ih => exact .other same (ih late)
  | put rest ih => exact .put (ih late)

/-- Every call gives back one hold. -/
theorem Puts.count {calls : List (Fin n)} {before after : Cache n α}
    (puts : Puts header calls before after) (distinct : calls.Nodup) (bp : Fin n) :
    after.lmfsCount bp = if bp ∈ calls then before.lmfsCount bp - 1 else before.lmfsCount bp := by
  induction puts with
  | done => rw [if_neg List.not_mem_nil]
  | other same rest ih => rw [ih distinct, same]
  | @put called calls cache after rest ih =>
      obtain ⟨outside, distinct⟩ := List.nodup_cons.mp distinct
      have released : (cache.lmfsPutBlock header called header.partialDataBlock).lmfsCount =
          update cache.lmfsCount called (cache.lmfsCount called - 1) := put_lmfsCount ..
      rw [ih distinct, released]
      by_cases same : bp = called
      · subst same
        rw [if_neg outside, if_pos List.mem_cons_self, Function.update_self]
      · simp only [List.mem_cons, same, false_or, Function.update_of_ne same]

theorem putAll_puts (cache : Cache n α) (bufq : List (Fin n)) :
    Puts header bufq cache (cache.putAll header bufq) := by
  induction bufq generalizing cache with
  | nil => exact .done
  | cons bp bufq ih => exact .put (ih _)

@[simp] theorem putAll_lmfsDev (cache : Cache n α) (bufq : List (Fin n)) :
    (cache.putAll header bufq).lmfsDev = cache.lmfsDev := by
  induction bufq generalizing cache with
  | nil => rfl
  | cons bp bufq ih => exact ih _

@[simp] theorem putAll_requests (cache : Cache n α) (bufq : List (Fin n)) :
    (cache.putAll header bufq).requests = cache.requests := by
  induction bufq generalizing cache with
  | nil => rfl
  | cons bp bufq ih => exact ih _

theorem gatherBufs_eq (header : Header) (answer : Answer α) (dev : Dev) (position i : Nat)
    (bufs : List (Fin n)) (cache : Cache n α) :
    ∃ data, gatherBufs header answer dev position i bufs cache = { cache with data := data } := by
  induction bufs generalizing i cache with
  | nil => exact ⟨cache.data, rfl⟩
  | cons bp bufs ih =>
      obtain ⟨data, same⟩ := ih (i + 1) { cache with
        data := update cache.data bp
          (readBuffer header answer i (cache.disk dev (position + i)) (cache.data bp)) }
      exact ⟨data, by rw [gatherBufs, same]⟩

theorem settle_requests (rwFlag : RwFlag) (bufs : List (Fin n)) (cache : Cache n α) :
    (bufs.foldl (settle header dev rwFlag) cache).requests = cache.requests := by
  induction bufs generalizing cache with
  | nil => rfl
  | cons bp bufs ih =>
      rw [List.foldl_cons, ih]
      cases rwFlag <;> rfl

theorem settle_puts (bufs : List (Fin n)) (cache : Cache n α) :
    Puts header bufs cache (bufs.foldl (settle header dev .reading) cache) := by
  induction bufs generalizing cache with
  | nil => exact .done
  | cons bp bufs ih => exact .other (show (cache.setDev bp dev).toLists = _ from rfl) (.put (ih _))

theorem settle_lmfsDev (bufs : List (Fin n)) (cache : Cache n α) (bp : Fin n) :
    (bufs.foldl (settle header dev .reading) cache).lmfsDev bp =
      if bp ∈ bufs then dev else cache.lmfsDev bp := by
  induction bufs generalizing cache with
  | nil => rw [if_neg List.not_mem_nil, List.foldl_nil]
  | cons first bufs ih =>
      rw [List.foldl_cons, ih]
      have named : (settle header dev .reading cache first).lmfsDev =
          update cache.lmfsDev first dev := rfl
      rw [named]
      by_cases same : bp = first
      · subst same
        rw [Function.update_self, ite_self, if_pos List.mem_cons_self]
      · simp only [List.mem_cons, same, false_or, Function.update_of_ne same]

/-- What a scattered read does to the queue, under any answers of the driver. -/
structure ReadsExactly (header : Header) (env : Environment α) (dev : Dev) (bufq : List (Fin n))
    (before after : Cache n α) : Prop where
  requests : ∃ issued, after.requests = before.requests ++ issued ∧
    ∀ request ∈ issued, Placed header before.lmfsBlocknr dev .reading bufq request
  atMostOne : after.requests.length ≤ before.requests.length + 1
  named : ∀ bp, Transferred header env before after bp → after.lmfsDev bp = dev
  unnamed : ∀ bp, ¬ Transferred header env before after bp → after.lmfsDev bp = before.lmfsDev bp
  puts : ∃ calls, calls.Perm bufq ∧ Puts header calls before after
  count : ∀ bp, after.lmfsCount bp + (if bp ∈ bufq then 1 else 0) = before.lmfsCount bp

theorem gather_frame (header : Header) (env : Environment α) (cache : Cache n α) (dev : Dev)
    (position : Nat) (bufs : List (Fin n)) :
    (cache.bdevGather header env dev position bufs).2.toLists = cache.toLists ∧
      (cache.bdevGather header env dev position bufs).2.lmfsDev = cache.lmfsDev ∧
      (cache.bdevGather header env dev position bufs).2.requests =
        cache.requests ++ [⟨.reading, dev, position, bufs⟩] := by
  obtain ⟨data, same⟩ := gatherBufs_eq header (cache.answerTo header env bufs) dev
    position 0 bufs { cache with requests := cache.requests ++ [⟨.reading, dev, position, bufs⟩] }
  have gathered : (cache.bdevGather header env dev position bufs).2 = _ := same
  rw [gathered]
  exact ⟨rfl, rfl, rfl⟩

/-- The round of a read: the buffers of the completed part are named and put, and no other
buffer is. -/
structure ReadRun (header : Header) (env : Environment α) (dev : Dev) (request : Request n)
    (before after : Cache n α) (i : Nat) : Prop where
  requests : after.requests = before.requests ++ [request]
  counted : request.bufs.take i = request.bufs.take
    ((env.bdev before.requests.length (request.bufs.length * header.fsBlockSize)).result /
      header.fsBlockSize).toNat
  within : i ≤ request.bufs.length
  names : ∀ bp, after.lmfsDev bp =
    if bp ∈ request.bufs.take i then dev else before.lmfsDev bp
  puts : Puts header (request.bufs.take i) before after

theorem transferRun_read {cache harvested : Cache n α} {bp : Fin n} {bufs : List (Fin n)} {i : Nat}
    (unnamed : cache.lmfsDev bp = header.noDev)
    (round : transferRun header env dev .reading bp (bp :: bufs) cache = (i, harvested)) :
    ReadRun header env dev ⟨.reading, dev, (cache.lmfsBlocknr bp).toNat, bp :: bufs⟩ cache harvested
      i := by
  obtain ⟨lists, names, requests⟩ :=
    gather_frame header env cache dev (cache.lmfsBlocknr bp).toNat (bp :: bufs)
  have harvest := (harvest_first header dev .reading
    (cache.bdevGather header env dev (cache.lmfsBlocknr bp).toNat (bp :: bufs)).1 bp bufs
    (cache.bdevGather header env dev (cache.lmfsBlocknr bp).toNat (bp :: bufs)).2).symm.trans round
  have result : (cache.bdevGather header env dev (cache.lmfsBlocknr bp).toNat (bp :: bufs)).1 =
      (env.bdev cache.requests.length ((bp :: bufs).length * header.fsBlockSize)).result := rfl
  rw [result] at harvest
  generalize (cache.bdevGather header env dev (cache.lmfsBlocknr bp).toNat (bp :: bufs)).2 =
    gathered at harvest lists names requests
  by_cases none : ((env.bdev cache.requests.length
      ((bp :: bufs).length * header.fsBlockSize)).result / header.fsBlockSize).toNat = 0
  · rw [if_pos none] at harvest
    cases harvest
    refine ⟨requests, by rw [none], Nat.zero_le _, fun other => ?_, ?_⟩
    · rw [List.take_zero, if_neg List.not_mem_nil, ← names]
      change update gathered.lmfsDev bp header.noDev other = _
      rw [← unnamed, ← names, Function.update_eq_self]
    · rw [List.take_zero]
      exact .other (show ((gathered.setDev bp header.noDev).vmForgetblocks).toLists = _ from lists)
        .done
  · rw [if_neg none] at harvest
    cases harvest
    have taken := take_min_length (bp :: bufs) ((env.bdev cache.requests.length
      ((bp :: bufs).length * header.fsBlockSize)).result / header.fsBlockSize).toNat
    refine ⟨(settle_requests ..).trans requests, taken, Nat.min_le_left .., fun other => ?_, ?_⟩
    · rw [settle_lmfsDev, names, taken]
    · rw [taken]
      exact .other lists (settle_puts ..)

theorem rounds_read {rwFlag : RwFlag} {bufq : List (Fin n)} {before after : Cache n α}
    (rounds : Rounds header env dev rwFlag bufq before after) (reading : rwFlag = .reading)
    (sorted : before.Sorted bufq) (distinct : bufq.Nodup)
    (held : ∀ bp ∈ bufq, 0 < before.lmfsCount bp)
    (unnamed : ∀ bp ∈ bufq, before.lmfsDev bp = header.noDev) :
    ReadsExactly header env dev bufq before after := by
  cases rounds with
  | done =>
      refine ⟨⟨[], (List.append_nil _).symm, fun _ member => by cases member⟩, by omega, ?_,
        fun _ _ => rfl, ⟨[], .refl _, .done⟩, fun bp => by rw [if_neg List.not_mem_nil, Nat.add_zero]⟩
      exact fun bp transferred => absurd transferred (not_transferred_same rfl bp)
  | stuck => cases reading
  | next => cases reading
  | @read bp bufq _ i harvested round =>
      obtain ⟨bufs, run⟩ := nextRun_ne_nil header before bp bufq
      have placed := nextRun_placed header sorted dev .reading
      have taken := nextRun_take header before bp bufq i
      rw [run] at round placed taken
      have read := transferRun_read (unnamed bp List.mem_cons_self) round
      have taken : (bp :: bufs).take i = (bp :: bufq).take i := taken read.within
      have split (other : Fin n) := transferred_split header env
        read.requests (show (harvested.putAll header ((bp :: bufq).drop i)).requests = _ ++ [] by
          rw [putAll_requests, List.append_nil]) other
      have first (other : Fin n) :
          Transferred header env before (harvested.putAll header ((bp :: bufq).drop i)) other ↔
            other ∈ (bp :: bufs).take i := by
        rw [split, completedIn_iff, ← read.counted]
        exact or_iff_left (not_transferred_same (putAll_requests ..) other)
      have puts : Puts header (bp :: bufq) before
          (harvested.putAll header ((bp :: bufq).drop i)) := by
        have both := read.puts.append (putAll_puts harvested ((bp :: bufq).drop i))
        change Puts header ((bp :: bufs).take i ++ _) _ _ at both
        rw [taken, List.take_append_drop] at both
        exact both
      refine ⟨⟨[_], (putAll_requests ..).trans read.requests, fun request member => ?_⟩, ?_, ?_, ?_,
        ⟨bp :: bufq, .refl _, puts⟩, fun other => ?_⟩
      · rw [List.mem_singleton.mp member]
        exact placed
      · rw [putAll_requests, read.requests, List.length_append, List.length_singleton]
      · intro other transferred
        rw [putAll_lmfsDev, read.names, if_pos ((first other).mp transferred)]
      · intro other untouched
        rw [putAll_lmfsDev, read.names, if_neg fun member => untouched ((first other).mpr member)]
      · rw [puts.count distinct]
        by_cases queued : other ∈ bp :: bufq
        · have some := held other queued
          rw [if_pos queued, if_pos queued]
          omega
        · rw [if_neg queued, if_neg queued, Nat.add_zero]

theorem Placed.queue {blocknr : Fin n → BlockNr} {rwFlag : RwFlag} {queue bufq : List (Fin n)}
    {before after : Cache n α} (perm : queue.Perm bufq)
    (requests : ∃ issued, after.requests = before.requests ++ issued ∧
      ∀ request ∈ issued, Placed header blocknr dev rwFlag queue request) :
    ∃ issued, after.requests = before.requests ++ issued ∧
      ∀ request ∈ issued, Placed header blocknr dev rwFlag bufq request := by
  obtain ⟨issued, log, placed⟩ := requests
  exact ⟨issued, log, fun request member => (placed request member).mono fun bp => perm.mem_iff.mp⟩

theorem WritesExactly.of_perm {queue bufq : List (Fin n)} {before after : Cache n α}
    (writes : WritesExactly header env dev queue before after) (perm : queue.Perm bufq) :
    WritesExactly header env dev bufq before after :=
  ⟨Placed.queue perm writes.requests, writes.clean, writes.kept,
    fun bp changed => (writes.renamed bp changed).imp_left perm.mem_iff.mp, writes.atMostOne⟩

theorem ReadsExactly.of_perm {queue bufq : List (Fin n)} {before after : Cache n α}
    (reads : ReadsExactly header env dev queue before after) (perm : queue.Perm bufq) :
    ReadsExactly header env dev bufq before after := by
  refine ⟨Placed.queue perm reads.requests, reads.atMostOne, reads.named, reads.unnamed, ?_,
    fun bp => ?_⟩
  · obtain ⟨calls, same, puts⟩ := reads.puts
    exact ⟨calls, same.trans perm, puts⟩
  · simp only [← perm.mem_iff]
    exact reads.count bp

/-- A scattered read or write ends, asks the driver for runs of consecutive blocks only, and
settles exactly the buffers that the driver completed. -/
structure ScatteredExactly (header : Header) (env : Environment α) (dev : Dev)
    (bufq : List (Fin n)) (rwFlag : RwFlag) (before after : Cache n α) : Prop where
  sortEnds : ShellSort.LoopsEnd (fun bp => (before.lmfsBlocknr bp).toNat) bufq.length
  loopEnds : ∃ queue, queue = ShellSort.sort (fun bp => (before.lmfsBlocknr bp).toNat) bufq ∧
    Rounds header env dev rwFlag queue before after
  writing : rwFlag = .writing → WritesExactly header env dev bufq before after
  reading : rwFlag = .reading → ReadsExactly header env dev bufq before after

/-- Whatever the driver answers to each call, for every queue without repetitions, whose
buffers are held and unnamed when it is read. -/
theorem lmfsRwScattered_exact (header : Header) (env : Environment α) (cache : Cache n α)
    (dev : Dev) (bufq : List (Fin n)) (rwFlag : RwFlag) (distinct : bufq.Nodup)
    (held : rwFlag = .reading → ∀ bp ∈ bufq, 0 < cache.lmfsCount bp)
    (unnamed : rwFlag = .reading → ∀ bp ∈ bufq, cache.lmfsDev bp = header.noDev) :
    ScatteredExactly header env dev bufq rwFlag cache
      (cache.lmfsRwScattered header env dev bufq rwFlag) := by
  have perm := ShellSort.sort_perm (fun bp => (cache.lmfsBlocknr bp).toNat) bufq
  have sorted := ShellSort.sort_sorted (fun bp => (cache.lmfsBlocknr bp).toNat) bufq
  have rounds := transfers_rounds header env dev rwFlag cache (Nat.le_of_eq perm.length_eq)
  have single := perm.nodup_iff.mpr distinct
  refine ⟨ShellSort.loopsEnd .., ⟨_, rfl, rounds⟩, fun writing => ?_, fun reading => ?_⟩
  · exact (rounds_write rounds writing sorted single).of_perm perm
  · refine (rounds_read rounds reading sorted single ?_ ?_).of_perm perm
    · exact fun bp member => held reading bp (perm.mem_iff.mp member)
    · exact fun bp member => unnamed reading bp (perm.mem_iff.mp member)

end Cache

/-- A pool in which two blocks are prefetched. -/
def twoPrefetched : Cache 6 Nat :=
  match Runs.run (Cache.next minixHeader smooth)
      (.ok (lmfsBufPool minixHeader 6 false fun _ block => block))
      [.get 0x301 7 .prefetch, .get 0x301 8 .prefetch] with
  | .ok cache => cache
  | .error _ => lmfsBufPool minixHeader 6 false fun _ block => block

theorem lmfsRwScattered_exact_prefetched :
    Cache.ScatteredExactly minixHeader failing 0x301 [1, 0] .reading twoPrefetched
      (twoPrefetched.lmfsRwScattered minixHeader failing 0x301 [1, 0] .reading) :=
  Cache.lmfsRwScattered_exact minixHeader failing twoPrefetched 0x301 [1, 0] .reading (by decide)
    (fun _ => by decide +kernel) (fun _ => by decide +kernel)

end Ve482.Bufcache
