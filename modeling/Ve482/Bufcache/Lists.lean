import Mathlib.Data.Fintype.Card
import Mathlib.Data.Fintype.Fin
import Ve482.Lib.Chain

set_option autoImplicit false

namespace Ve482.Bufcache

open Function (update)
open Chain (Path Linked bypass bypassHead)

abbrev BlockNr := BitVec 32

/-- `NO_BLOCK` -/
def noBlock : BlockNr := 0

variable {n : Nat}

/-- The pointers of the buffer pool, with one map for each field of `struct buf`. A buffer is
named by its index in `buf[]`. -/
structure Lists (n : Nat) where
  lmfsNext : Fin n → Option (Fin n)
  lmfsPrev : Fin n → Option (Fin n)
  lmfsHash : Fin n → Option (Fin n)
  lmfsBlocknr : Fin n → BlockNr
  lmfsCount : Fin n → Nat
  front : Option (Fin n)
  rear : Option (Fin n)
  bufsInUse : Nat
  bufHash : Nat → Option (Fin n)

/-- `BUFHASH(b)` for a pool of `n` buffers. -/
def bufhash (n : Nat) (block : BlockNr) : Nat := block.toNat % n

/-- The pointers that `lmfs_buf_pool` sets up. -/
def Lists.pool (n : Nat) : Lists n where
  lmfsNext bp := if inside : bp + 1 < n then some ⟨bp + 1, inside⟩ else none
  lmfsPrev bp := if bp.val = 0 then none else some ⟨bp - 1, by omega⟩
  lmfsHash bp := if inside : bp + 1 < n then some ⟨bp + 1, inside⟩ else none
  lmfsBlocknr _ := noBlock
  lmfsCount _ := 0
  front := if some_buf : 0 < n then some ⟨0, some_buf⟩ else none
  rear := if some_buf : 0 < n then some ⟨n - 1, by omega⟩ else none
  bufsInUse := 0
  bufHash b := if some_buf : b = 0 ∧ 0 < n then some ⟨0, some_buf.2⟩ else none

def Lists.rmLru (lists : Lists n) (bp : Fin n) : Lists n :=
  let nextPtr := lists.lmfsNext bp
  let prevPtr := lists.lmfsPrev bp
  { lists with
    bufsInUse := lists.bufsInUse + 1
    lmfsNext := match prevPtr with
      | some prevPtr => update lists.lmfsNext prevPtr nextPtr
      | none => lists.lmfsNext
    front := match prevPtr with
      | some _ => lists.front
      | none => nextPtr
    lmfsPrev := match nextPtr with
      | some nextPtr => update lists.lmfsPrev nextPtr prevPtr
      | none => lists.lmfsPrev
    rear := match nextPtr with
      | some _ => lists.rear
      | none => prevPtr }

/-- One more user of a buffer that was found in the cache. -/
def Lists.hold (lists : Lists n) (bp : Fin n) : Lists n :=
  let lists := if lists.lmfsCount bp = 0 then lists.rmLru bp else lists
  { lists with lmfsCount := update lists.lmfsCount bp (lists.lmfsCount bp + 1) }

/-- Take a buffer off its hash chain. There is no result where `prev_ptr` is NULL or the
`while` loop does not end. -/
def Lists.unhash (lists : Lists n) (bp : Fin n) : Option (Lists n) :=
  let b := bufhash n (lists.lmfsBlocknr bp)
  match lists.bufHash b with
  | none => none
  | some prevPtr =>
      if prevPtr = bp then
        some { lists with bufHash := update lists.bufHash b (lists.lmfsHash bp) }
      else
        (Chain.find lists.lmfsHash (fun prevPtr => lists.lmfsHash prevPtr = some bp) n
          (some prevPtr)).map fun
          | some prevPtr =>
              { lists with lmfsHash := update lists.lmfsHash prevPtr (lists.lmfsHash bp) }
          | none => lists

/-- Rename a buffer, hold it and put it on the hash chain where it goes. -/
def Lists.rehash (lists : Lists n) (bp : Fin n) (block : BlockNr) : Lists n :=
  let b := bufhash n block
  { lists with
    lmfsBlocknr := update lists.lmfsBlocknr bp block
    lmfsCount := update lists.lmfsCount bp (lists.lmfsCount bp + 1)
    lmfsHash := update lists.lmfsHash bp (lists.bufHash b)
    bufHash := update lists.bufHash b (some bp) }

/-- Put a buffer on the front of the chain of free buffers. -/
def Lists.addFront (lists : Lists n) (bp : Fin n) : Lists n :=
  let lmfsPrev := update lists.lmfsPrev bp none
  { lists with
    lmfsNext := update lists.lmfsNext bp lists.front
    rear := match lists.front with
      | none => some bp
      | some _ => lists.rear
    lmfsPrev := match lists.front with
      | none => lmfsPrev
      | some front => update lmfsPrev front (some bp)
    front := some bp }

/-- Put a buffer on the rear of the chain of free buffers. -/
def Lists.addRear (lists : Lists n) (bp : Fin n) : Lists n :=
  let lmfsNext := update lists.lmfsNext bp none
  { lists with
    lmfsPrev := update lists.lmfsPrev bp lists.rear
    front := match lists.rear with
      | none => some bp
      | some _ => lists.front
    lmfsNext := match lists.rear with
      | none => lmfsNext
      | some rear => update lmfsNext rear (some bp)
    rear := some bp }

/-- `lmfs_put_block`, told on which end of the chain a free buffer goes. -/
def Lists.put (lists : Lists n) (bp : Fin n) (toFront : Bool) : Lists n :=
  let lists := { lists with lmfsCount := update lists.lmfsCount bp (lists.lmfsCount bp - 1) }
  if lists.lmfsCount bp ≠ 0 then lists
  else
    let lists := { lists with bufsInUse := lists.bufsInUse - 1 }
    if toFront then lists.addFront bp else lists.addRear bp

/-- The buffers that have users. -/
def Lists.inUse (lists : Lists n) : Finset (Fin n) :=
  Finset.univ.filter fun bp => 0 < lists.lmfsCount bp

/-- The chain of free buffers, from front to rear. -/
def Lists.Free (lists : Lists n) (free : List (Fin n)) : Prop :=
  Linked lists.lmfsNext lists.lmfsPrev lists.front lists.rear free ∧
    free.Nodup ∧ ∀ bp, bp ∈ free ↔ lists.lmfsCount bp = 0

/-- The chain of free buffers holds the buffers without users, the hash chains hold every
buffer where its block number says, and `bufs_in_use` counts the others. -/
structure Lists.Represented (lists : Lists n) : Prop where
  free : ∃ free, lists.Free free
  bufsInUse : lists.bufsInUse = lists.inUse.card
  hashed : ∀ b, ∃ chain, Path lists.lmfsHash (lists.bufHash b) chain none ∧
    chain.Nodup ∧ ∀ bp, bp ∈ chain ↔ bufhash n (lists.lmfsBlocknr bp) = b

theorem inUse_raised (lists : Lists n) {bp : Fin n} {count : Nat} (free : lists.lmfsCount bp = 0)
    (used : 0 < count) :
    { lists with lmfsCount := update lists.lmfsCount bp count }.inUse.card =
      lists.inUse.card + 1 := by
  have outside : bp ∉ lists.inUse := by simp [Lists.inUse, free]
  rw [← Finset.card_insert_of_notMem outside]
  congr 1
  ext other
  by_cases same : other = bp
  · subst same
    simp [Lists.inUse, used]
  · simp [Lists.inUse, same]

theorem inUse_kept {lists : Lists n} {bp : Fin n} {count : Nat} (held : 0 < lists.lmfsCount bp)
    (used : 0 < count) :
    { lists with lmfsCount := update lists.lmfsCount bp count }.inUse = lists.inUse := by
  ext other
  by_cases same : other = bp
  · subst same
    simp [Lists.inUse, used, held]
  · simp [Lists.inUse, same]

theorem inUse_dropped {lists : Lists n} {bp : Fin n} (held : 0 < lists.lmfsCount bp) :
    { lists with lmfsCount := update lists.lmfsCount bp 0 }.inUse.card + 1 =
      lists.inUse.card := by
  have before := inUse_raised { lists with lmfsCount := update lists.lmfsCount bp 0 }
    (Function.update_self bp 0 _) held
  simpa using before.symm

/-- The pointers of the new pool chain all buffers, from any of them on. -/
theorem pool_forward (n count : Nat) (within : count ≤ n) :
    Path (Lists.pool n).lmfsNext
      (if inside : n - count < n then some ⟨n - count, inside⟩ else none)
      ((List.finRange n).drop (n - count)) none := by
  induction count with
  | zero =>
      rw [dif_neg (by omega), List.drop_of_length_le (by simp)]
      exact rfl
  | succ count ih =>
      have inside : n - (count + 1) < n := by omega
      have next : n - (count + 1) + 1 = n - count := by omega
      rw [dif_pos inside, List.drop_eq_getElem_cons (by simpa using inside), List.getElem_finRange]
      refine ⟨rfl, ?_⟩
      simp only [Lists.pool, Fin.cast_mk, next]
      exact ih (by omega)

theorem pool_backward (n count : Nat) (within : count ≤ n) :
    Path (Lists.pool n).lmfsPrev
      (if empty : count = 0 then none else some ⟨count - 1, by omega⟩)
      ((List.finRange n).take count).reverse none := by
  induction count with
  | zero => exact rfl
  | succ count ih =>
      have inside : count < (List.finRange n).length := by
        rw [List.length_finRange]
        exact within
      rw [dif_neg (Nat.succ_ne_zero count), ← List.take_concat_get' _ count inside,
        List.reverse_append, List.getElem_finRange]
      exact ⟨rfl, ih (by omega)⟩

/-- At first all buffers are free, in the order of their indices. -/
theorem pool_free (n : Nat) : (Lists.pool n).Free (List.finRange n) := by
  have forward := pool_forward n n (Nat.le_refl n)
  have backward := pool_backward n n (Nat.le_refl n)
  simp only [Nat.sub_self, List.drop_zero] at forward
  rw [List.take_of_length_le (by simp)] at backward
  refine ⟨⟨forward, ?_⟩, List.nodup_finRange n, fun bp => ?_⟩
  · by_cases empty : n = 0
    · subst empty
      exact rfl
    · have rear : (Lists.pool n).rear = some ⟨n - 1, by omega⟩ := dif_pos (by omega)
      rw [dif_neg empty] at backward
      rw [rear]
      exact backward
  · simp [Lists.pool]

theorem pool_represented (n : Nat) : (Lists.pool n).Represented := by
  have forward := pool_forward n n (Nat.le_refl n)
  simp only [Nat.sub_self, List.drop_zero] at forward
  refine ⟨⟨List.finRange n, pool_free n⟩, ?_, ?_⟩
  · simp [Lists.pool, Lists.inUse]
  · intro b
    by_cases first : b = 0
    · subst first
      refine ⟨List.finRange n, ?_, List.nodup_finRange n, ?_⟩
      · have head : (Lists.pool n).bufHash 0 =
            if some_buf : 0 < n then some ⟨0, some_buf⟩ else none := by
          simp [Lists.pool]
        rw [head]
        exact forward
      · intro bp
        simp [Lists.pool, bufhash, noBlock]
    · refine ⟨[], ?_, List.nodup_nil, ?_⟩
      · exact dif_neg fun both => first both.1
      · intro bp
        have zero : bufhash n ((Lists.pool n).lmfsBlocknr bp) = 0 := by
          simp [Lists.pool, bufhash, noBlock]
        rw [zero]
        simp [Ne.symm first]

theorem rmLru_linked {lists : Lists n} {bp : Fin n} {left right : List (Fin n)}
    (linked : Linked lists.lmfsNext lists.lmfsPrev lists.front lists.rear (left ++ bp :: right)) :
    Linked (lists.rmLru bp).lmfsNext (lists.rmLru bp).lmfsPrev (lists.rmLru bp).front
      (lists.rmLru bp).rear (left ++ right) := by
  have unlinked := linked.unlink
  unfold Lists.rmLru
  cases before : lists.lmfsPrev bp <;> cases after : lists.lmfsNext bp <;>
    rw [before, after] at unlinked <;> exact unlinked

/-- The members of a list after one of them has been taken out and given a new value. -/
theorem taken_members {count : Fin n → Nat} {bp : Fin n} {left right : List (Fin n)} {value : Nat}
    (distinct : (left ++ bp :: right).Nodup) (used : 0 < value)
    (members : ∀ other, other ∈ left ++ bp :: right ↔ count other = 0) (other : Fin n) :
    other ∈ left ++ right ↔ update count bp value other = 0 := by
  have apart : bp ∉ left ++ right := (List.nodup_cons.mp (List.nodup_middle.mp distinct)).1
  by_cases same : other = bp
  · subst same
    rw [Function.update_self]
    exact iff_of_false apart (by omega)
  · rw [Function.update_of_ne same, ← members other]
    simp [same]

theorem addRear_linked {lists : Lists n} {bp : Fin n} {free : List (Fin n)}
    (linked : Linked lists.lmfsNext lists.lmfsPrev lists.front lists.rear free)
    (outside : bp ∉ free) :
    Linked (lists.addRear bp).lmfsNext (lists.addRear bp).lmfsPrev (lists.addRear bp).front
      (lists.addRear bp).rear (free ++ [bp]) := by
  have pushed := linked.pushBack outside
  unfold Lists.addRear
  cases same : lists.rear <;> rw [same] at pushed <;> exact pushed

theorem addFront_linked {lists : Lists n} {bp : Fin n} {free : List (Fin n)}
    (linked : Linked lists.lmfsNext lists.lmfsPrev lists.front lists.rear free)
    (outside : bp ∉ free) :
    Linked (lists.addFront bp).lmfsNext (lists.addFront bp).lmfsPrev (lists.addFront bp).front
      (lists.addFront bp).rear (bp :: free) := by
  have pushed := linked.pushFront outside
  unfold Lists.addFront
  cases same : lists.front <;> rw [same] at pushed <;> exact pushed

/-- A free buffer is taken off the chain. -/
theorem Lists.Free.remove {lists : Lists n} {free : List (Fin n)} (chain : lists.Free free)
    {bp : Fin n} (unused : lists.lmfsCount bp = 0) {value : Nat} (used : 0 < value) :
    { lists.rmLru bp with lmfsCount := update lists.lmfsCount bp value }.Free (free.erase bp) := by
  obtain ⟨linked, distinct, members⟩ := chain
  obtain ⟨left, right, -, split, erased⟩ := List.exists_erase_eq ((members bp).mpr unused)
  subst split
  rw [erased]
  refine ⟨rmLru_linked linked, ?_, taken_members distinct used members⟩
  exact (List.nodup_cons.mp (List.nodup_middle.mp distinct)).2

/-- The chain stays where a buffer that has users gets another number of them. -/
theorem Lists.Free.count {lists : Lists n} {free : List (Fin n)} (chain : lists.Free free)
    {bp : Fin n} (held : lists.lmfsCount bp ≠ 0) {value : Nat} (used : value ≠ 0) :
    { lists with lmfsCount := update lists.lmfsCount bp value }.Free free := by
  obtain ⟨linked, distinct, members⟩ := chain
  refine ⟨linked, distinct, fun other => ?_⟩
  rw [members other]
  by_cases same : other = bp
  · subst same
    simp [held, used]
  · simp [same]

theorem Lists.Free.hold {lists : Lists n} {free : List (Fin n)} (chain : lists.Free free)
    (bp : Fin n) : (lists.hold bp).Free (free.erase bp) := by
  unfold Lists.hold
  by_cases unused : lists.lmfsCount bp = 0
  · rw [if_pos unused]
    exact chain.remove unused (Nat.succ_pos (lists.lmfsCount bp))
  · have outside : bp ∉ free := fun member => unused ((chain.2.2 bp).mp member)
    rw [if_neg unused, List.erase_of_not_mem outside]
    exact chain.count unused (Nat.succ_ne_zero _)

/-- The last user's release puts the buffer on one of the ends of the chain. -/
theorem Lists.Free.put {lists : Lists n} {free : List (Fin n)} (chain : lists.Free free)
    {bp : Fin n} (held : 0 < lists.lmfsCount bp) (toFront : Bool) :
    (lists.put bp toFront).Free
      (if lists.lmfsCount bp - 1 ≠ 0 then free
        else if toFront then bp :: free else free ++ [bp]) := by
  unfold Lists.put
  by_cases last : lists.lmfsCount bp - 1 = 0
  · obtain ⟨linked, distinct, members⟩ := chain
    simp only [Function.update_self, last, ne_eq, not_true_eq_false, if_false]
    have outside : bp ∉ free := fun member => by
      have unused := (members bp).mp member
      omega
    have kept (other : Fin n) : other = bp ∨ other ∈ free ↔
        update lists.lmfsCount bp 0 other = 0 := by
      by_cases same : other = bp
      · subst same
        simp
      · rw [members other, Function.update_of_ne same]
        simp [same]
    cases toFront with
    | true =>
        have members (other : Fin n) : other ∈ bp :: free ↔ update lists.lmfsCount bp 0 other = 0 :=
          List.mem_cons.trans (kept other)
        exact ⟨addFront_linked linked outside, List.nodup_cons.mpr ⟨outside, distinct⟩, members⟩
    | false =>
        have appended : (free ++ [bp]).Nodup := by
          rw [List.nodup_middle, List.append_nil]
          exact List.nodup_cons.mpr ⟨outside, distinct⟩
        have members (other : Fin n) :
            other ∈ free ++ [bp] ↔ update lists.lmfsCount bp 0 other = 0 := by
          rw [List.mem_append, List.mem_singleton, or_comm]
          exact kept other
        exact ⟨addRear_linked linked outside, appended, members⟩
  · simp only [Function.update_self, ne_eq, last, not_false_eq_true, if_true]
    exact chain.count (Nat.pos_iff_ne_zero.mp held) last

theorem Lists.Represented.hold {lists : Lists n} (represented : lists.Represented)
    (bp : Fin n) : (lists.hold bp).Represented := by
  obtain ⟨⟨free, chain⟩, inUse, hashed⟩ := represented
  have held := chain.hold bp
  unfold Lists.hold at held ⊢
  by_cases unused : lists.lmfsCount bp = 0
  · rw [if_pos unused] at held ⊢
    refine ⟨⟨_, held⟩, ?_, hashed⟩
    have raised := inUse_raised lists unused (Nat.succ_pos (lists.lmfsCount bp))
    show lists.bufsInUse + 1 = _
    rw [inUse]
    exact raised.symm
  · rw [if_neg unused] at held ⊢
    refine ⟨⟨_, held⟩, ?_, hashed⟩
    rw [inUse_kept (Nat.pos_of_ne_zero unused) (Nat.succ_pos _)]
    exact inUse

theorem Lists.Represented.put {lists : Lists n} (represented : lists.Represented) {bp : Fin n}
    (held : 0 < lists.lmfsCount bp) (toFront : Bool) : (lists.put bp toFront).Represented := by
  obtain ⟨⟨free, chain⟩, inUse, hashed⟩ := represented
  have released := chain.put held toFront
  unfold Lists.put at released ⊢
  by_cases last : lists.lmfsCount bp - 1 = 0
  · simp only [Function.update_self, last, ne_eq, not_true_eq_false, if_false] at released ⊢
    have dropped := inUse_dropped held
    have fewer : lists.bufsInUse - 1 =
        { lists with lmfsCount := update lists.lmfsCount bp 0 }.inUse.card := by
      rw [inUse, ← dropped]
      rfl
    cases toFront with
    | true => exact ⟨⟨_, released⟩, fewer, hashed⟩
    | false => exact ⟨⟨_, released⟩, fewer, hashed⟩
  · simp only [Function.update_self, ne_eq, last, not_false_eq_true, if_true] at released ⊢
    refine ⟨⟨_, released⟩, ?_, hashed⟩
    rw [inUse_kept held (Nat.pos_of_ne_zero last)]
    exact inUse

/-- Taking a buffer off its hash chain comes to an end, and leaves the rest of the chain. -/
theorem unhash_chain {lists : Lists n} {bp : Fin n} {chain : List (Fin n)}
    (path : Path lists.lmfsHash (lists.bufHash (bufhash n (lists.lmfsBlocknr bp))) chain none)
    (member : bp ∈ chain) :
    ∃ lmfsHash bufHash, lists.unhash bp = some { lists with lmfsHash, bufHash } ∧
      Path lmfsHash (bufHash (bufhash n (lists.lmfsBlocknr bp))) (chain.filter (· ≠ bp)) none ∧
      (∀ b, b ≠ bufhash n (lists.lmfsBlocknr bp) → bufHash b = lists.bufHash b) ∧
      ∀ other, other ∉ chain → lmfsHash other = lists.lmfsHash other := by
  obtain ⟨left, right, rfl⟩ := List.append_of_mem member
  have distinct := path.nodup
  have rest : (left ++ bp :: right).filter (· ≠ bp) = left ++ right := by
    have apart : bp ∉ left ++ right := (List.nodup_cons.mp (List.nodup_middle.mp distinct)).1
    rw [List.filter_append, List.filter_cons_of_neg (by simp), ← List.filter_append,
      List.filter_eq_self]
    intro other member
    simp only [ne_eq, decide_eq_true_eq]
    exact fun same => apart (same ▸ member)
  have short : (left ++ bp :: right).length ≤ n := by
    have bound := distinct.length_le_card
    rwa [Fintype.card_fin] at bound
  have bypassed := path.bypass
  rw [rest]
  unfold Lists.unhash
  dsimp only
  rw [path.head_eq]
  cases left with
  | nil =>
      refine ⟨lists.lmfsHash, update lists.bufHash (bufhash n (lists.lmfsBlocknr bp))
        (lists.lmfsHash bp), ?_, ?_, ?_, ?_⟩
      · rw [List.nil_append, List.head?_cons]
        exact if_pos rfl
      · rw [Function.update_self]
        exact bypassed
      · exact fun b different => Function.update_of_ne different _ _
      · exact fun _ _ => rfl
  | cons first left =>
      have different : first ≠ bp := by
        rintro rfl
        simp at distinct
      have found := Chain.find_before path (List.cons_ne_nil first left)
      have search := Chain.find_eq (fun prevPtr => lists.lmfsHash prevPtr = some bp) path short
      rw [found] at search
      obtain ⟨before, last⟩ : ∃ before, (first :: left).getLast? = some before :=
        ⟨_, List.getLast?_eq_some_getLast (List.cons_ne_nil first left)⟩
      rw [last] at search bypassed
      rw [path.head_eq] at search
      refine ⟨update lists.lmfsHash before (lists.lmfsHash bp), lists.bufHash, ?_, bypassed, ?_, ?_⟩
      · simp only [List.cons_append, List.head?_cons] at search ⊢
        rw [if_neg different, search]
        rfl
      · exact fun _ _ => rfl
      · intro other outside
        apply Function.update_of_ne
        rintro rfl
        exact outside (List.mem_append_left _ (List.mem_of_getLast? last))

/-- What is left of the hash chains when a buffer has been taken off its own. -/
theorem unhash_rest {lists : Lists n}
    (hashed : ∀ b, ∃ chain, Path lists.lmfsHash (lists.bufHash b) chain none ∧
      chain.Nodup ∧ ∀ bp, bp ∈ chain ↔ bufhash n (lists.lmfsBlocknr bp) = b)
    (bp : Fin n) :
    ∃ lmfsHash bufHash, lists.unhash bp = some { lists with lmfsHash, bufHash } ∧
      ∀ b, ∃ chain, Path lmfsHash (bufHash b) chain none ∧
        ∀ other, other ∈ chain ↔ other ≠ bp ∧ bufhash n (lists.lmfsBlocknr other) = b := by
  obtain ⟨own, ownPath, -, ownMembers⟩ := hashed (bufhash n (lists.lmfsBlocknr bp))
  obtain ⟨lmfsHash, bufHash, result, shorter, heads, links⟩ :=
    unhash_chain ownPath ((ownMembers bp).mpr rfl)
  refine ⟨lmfsHash, bufHash, result, fun b => ?_⟩
  by_cases same : b = bufhash n (lists.lmfsBlocknr bp)
  · subst same
    refine ⟨own.filter (· ≠ bp), shorter, fun other => ?_⟩
    rw [List.mem_filter, ownMembers other, and_comm]
    simp
  · obtain ⟨chain, path, -, members⟩ := hashed b
    refine ⟨chain, ?_, fun other => ?_⟩
    · rw [heads b same]
      refine path.congr fun other member => links other fun again => ?_
      exact same (((members other).mp member).symm.trans ((ownMembers other).mp again))
    · rw [members other]
      constructor
      · intro place
        refine ⟨?_, place⟩
        rintro rfl
        exact same place.symm
      · exact fun both => both.2

/-- Putting a buffer on the hash chain of its new block number. -/
theorem rehash_hashed {lists : Lists n} {bp : Fin n}
    (rest : ∀ b, ∃ chain, Path lists.lmfsHash (lists.bufHash b) chain none ∧
      ∀ other, other ∈ chain ↔ other ≠ bp ∧ bufhash n (lists.lmfsBlocknr other) = b)
    (block : BlockNr) (b : Nat) :
    ∃ chain, Path (lists.rehash bp block).lmfsHash ((lists.rehash bp block).bufHash b) chain none ∧
      chain.Nodup ∧
      ∀ other, other ∈ chain ↔ bufhash n ((lists.rehash bp block).lmfsBlocknr other) = b := by
  obtain ⟨chain, path, members⟩ := rest b
  have outside : bp ∉ chain := fun member => ((members bp).mp member).1 rfl
  have own : bufhash n ((lists.rehash bp block).lmfsBlocknr bp) = bufhash n block := by
    simp [Lists.rehash]
  have place (other : Fin n) (different : other ≠ bp) :
      bufhash n ((lists.rehash bp block).lmfsBlocknr other) =
        bufhash n (lists.lmfsBlocknr other) := by
    simp [Lists.rehash, different]
  by_cases same : b = bufhash n block
  · subst same
    have head : (lists.rehash bp block).bufHash (bufhash n block) = some bp :=
      Function.update_self _ _ _
    refine ⟨bp :: chain, ?_, List.nodup_cons.mpr ⟨outside, path.nodup⟩, fun other => ?_⟩
    · rw [head]
      exact path.push outside
    · by_cases new : other = bp
      · subst new
        exact iff_of_true List.mem_cons_self own
      · rw [place other new, List.mem_cons, members other]
        simp [new]
  · have head : (lists.rehash bp block).bufHash b = lists.bufHash b :=
      Function.update_of_ne same _ _
    refine ⟨chain, ?_, path.nodup, fun other => ?_⟩
    · rw [head]
      exact path.update outside
    · by_cases new : other = bp
      · subst new
        rw [own]
        exact iff_of_false outside fun again => same again.symm
      · rw [place other new, members other]
        simp [new]

/-- A free buffer is taken off both chains, renamed, held and hashed again. -/
theorem Lists.Represented.take {lists : Lists n} (represented : lists.Represented) {bp : Fin n}
    (unused : lists.lmfsCount bp = 0) :
    ∃ taken, (lists.rmLru bp).unhash bp = some taken ∧
      taken.lmfsBlocknr = lists.lmfsBlocknr ∧ taken.lmfsCount = lists.lmfsCount ∧
      (∀ block free, lists.Free free → (taken.rehash bp block).Free (free.erase bp)) ∧
      ∀ block, (taken.rehash bp block).Represented := by
  have hashed : ∀ b, ∃ chain, Path (lists.rmLru bp).lmfsHash ((lists.rmLru bp).bufHash b) chain none ∧
      chain.Nodup ∧ ∀ other, other ∈ chain ↔ bufhash n ((lists.rmLru bp).lmfsBlocknr other) = b :=
    represented.hashed
  obtain ⟨lmfsHash, bufHash, result, rest⟩ := unhash_rest hashed bp
  refine ⟨_, result, rfl, rfl, fun block free chain => ?_,
    fun block => ⟨?_, ?_, rehash_hashed rest block⟩⟩
  · exact chain.remove unused (Nat.succ_pos (lists.lmfsCount bp))
  · obtain ⟨free, chain⟩ := represented.free
    exact ⟨_, chain.remove unused (Nat.succ_pos (lists.lmfsCount bp))⟩
  · have raised := inUse_raised lists unused (Nat.succ_pos (lists.lmfsCount bp))
    show lists.bufsInUse + 1 = _
    rw [represented.bufsInUse]
    exact raised.symm

end Ve482.Bufcache
