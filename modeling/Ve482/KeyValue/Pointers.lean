import Ve482.KeyValue.Format
import Ve482.Lib.Chain

set_option autoImplicit false

namespace Ve482.KeyValue.Pointers

open Chain CString
open Function (update)

/-- Why a run of the loops goes wrong. -/
inductive Fault where
  /-- An index is not one of the array. -/
  | outside
  /-- An element is read that was never stored. -/
  | unset
  /-- The loop has not come to an end. -/
  | fuel
deriving DecidableEq, Repr

variable {ν γ : Type}

/-- `List`: the nodes are found from `head` on. -/
structure Header (ν : Type) where
  head : Option ν
  length : Nat

/-- `Node *src[list->length]` -/
abbrev Slots (ν : Type) : Type := List (Option ν)

def load (src : Slots ν) (i : Nat) : Except Fault ν :=
  match src[i]? with
  | none => .error .outside
  | some none => .error .unset
  | some (some node) => .ok node

def store (src : Slots ν) (i : Nat) (node : ν) : Except Fault (Slots ν) :=
  if i < src.length then .ok (src.set i (some node)) else .error .outside

/-- A comparison of two nodes that may fail. -/
abbrev Compare (ν γ : Type) : Type := ν → ν → γ → Except Fault (Int × γ)

/-- `while(nodeIndex!=NULL)` -/
def copyLoop (next : ν → Option ν) : Nat → Option ν → Nat → Slots ν → Except Fault (Slots ν)
  | _, none, _, src => .ok src
  | 0, some _, _, _ => .error .fuel
  | fuel + 1, some node, index, src => do
      let src ← store src index node
      copyLoop next fuel (next node) (index + 1) src

/-- The inner loop, where `hole` is `j + 1`. -/
def shiftLoop (cmp : Compare ν γ) (flag : ν) : Nat → Slots ν → γ → Except Fault (Slots ν × γ)
  | 0, src, rng => do
      let src ← store src 0 flag
      return (src, rng)
  | j + 1, src, rng => do
      let (order, rng) ← cmp (← load src j) flag rng
      if 0 ≤ order then
        let src ← store src (j + 1) (← load src j)
        shiftLoop cmp flag j src rng
      else
        let src ← store src (j + 1) flag
        return (src, rng)

/-- `for(int i=1;i<list->length;i++)`, with `count` values of `i` to come. -/
def insertLoop (cmp : Compare ν γ) : (count i : Nat) → Slots ν → γ → Except Fault (Slots ν × γ)
  | 0, _, src, rng => return (src, rng)
  | count + 1, i, src, rng => do
      let flag ← load src i
      let (src, rng) ← shiftLoop cmp flag i src rng
      insertLoop cmp count (i + 1) src rng

/-- What a sort leaves behind. -/
structure Sorted (ν γ : Type) where
  next : ν → Option ν
  list : Header ν
  rng : γ

section

variable [DecidableEq ν]

/-- `src[i]->next=src[i+1]`, with `count` values of `i` to come. -/
def linkLoop : (count i : Nat) → Slots ν → (ν → Option ν) → Except Fault (ν → Option ν)
  | 0, _, _, next => return next
  | count + 1, i, src, next => do
      let node ← load src i
      let after ← load src (i + 1)
      linkLoop count (i + 1) src (update next node (some after))

/-- The body of `sort`. -/
def sortLoops (cmp : Compare ν γ) (fuel : Nat) (next : ν → Option ν) (list : Header ν) (rng : γ) :
    Except Fault (Sorted ν γ) :=
  if list.length = 0 then return ⟨next, list, rng⟩
  else do
    let src ← copyLoop next fuel list.head 0 (List.replicate list.length none)
    let (src, rng) ← insertLoop cmp (list.length - 1) 1 src rng
    let first ← load src 0
    let next ← linkLoop (list.length - 1) 0 src next
    let last ← load src (list.length - 1)
    return ⟨update next last none, { list with head := some first }, rng⟩

end

/-- The list is the chain of these nodes. -/
structure Chains (next : ν → Option ν) (list : Header ν) (nodes : List ν) : Prop where
  path : Path next list.head nodes none
  counted : list.length = nodes.length

theorem load_map (nodes : List ν) {i : Nat} (inside : i < nodes.length) :
    load (nodes.map some) i = .ok nodes[i] := by
  simp only [load, List.getElem?_map, List.getElem?_eq_getElem inside, Option.map_some]

theorem store_map (nodes : List ν) (node : ν) {i : Nat} (inside : i < nodes.length) :
    store (nodes.map some) i node = .ok ((nodes.set i node).map some) := by
  rw [store, if_pos (by rwa [List.length_map]), List.map_set]

theorem copyLoop_ok {next : ν → Option ν} {head : Option ν} {nodes : List ν}
    (path : Path next head nodes none) (before : List ν) {fuel : Nat}
    (enough : nodes.length ≤ fuel) :
    copyLoop next fuel head before.length
        (before.map some ++ List.replicate nodes.length none) =
      .ok ((before ++ nodes).map some) := by
  induction nodes generalizing head before fuel with
  | nil =>
      have empty : head = none := path
      subst empty
      simp [copyLoop]
  | cons node nodes ih =>
      obtain ⟨first, rest⟩ := path
      subst first
      obtain ⟨fuel, rfl⟩ : ∃ left, fuel = left + 1 :=
        ⟨fuel - 1, by simp only [List.length_cons] at enough; omega⟩
      have stored : store (before.map some ++ List.replicate (node :: nodes).length none)
          before.length node =
            .ok ((before ++ [node]).map some ++ List.replicate nodes.length none) := by
        rw [store, if_pos (by simp), List.set_append_right _ _ (by simp)]
        simp [List.replicate_succ]
      have later := ih rest (before ++ [node]) (Nat.le_of_succ_le_succ enough)
      rw [List.length_append, List.length_singleton, List.append_assoc before,
        List.singleton_append] at later
      rw [copyLoop, stored]
      exact later

theorem shiftLoop_ok (cmp : InsertionSort.Comparison ν γ) (flag : ν) {m : Nat} (hole : Nat)
    (inside : hole < m) (src : Vector ν m) (rng : γ) :
    shiftLoop (fun a b rng => .ok (cmp a b rng)) flag hole (src.toList.map some) rng =
      .ok ((InsertionSort.shift cmp flag hole inside src rng).1.toList.map some,
        (InsertionSort.shift cmp flag hole inside src rng).2) := by
  induction hole generalizing src rng with
  | zero =>
      have stored := store_map src.toList flag (show 0 < src.toList.length by simpa using inside)
      rw [shiftLoop, stored, InsertionSort.shift, Vector.toList_set]
      rfl
  | succ j ih =>
      have below : j < src.toList.length := by
        rw [Vector.length_toList]
        omega
      have here : load (src.toList.map some) j = .ok src[j] := by
        rw [load_map src.toList below]
        simp
      have stored (node : ν) : store (src.toList.map some) (j + 1) node =
          .ok ((src.set (j + 1) node inside).toList.map some) := by
        rw [store_map src.toList node (by simpa using inside), Vector.toList_set]
      rw [shiftLoop, InsertionSort.shift, here]
      by_cases up : 0 ≤ (cmp src[j] flag rng).1
      · have moved := ih (by omega) (src.set (j + 1) src[j] inside) (cmp src[j] flag rng).2
        simp only [bind, Except.bind, up, if_true, stored]
        exact moved
      · simp only [bind, Except.bind, up, if_false, stored]
        rfl

theorem insertLoop_ok (cmp : InsertionSort.Comparison ν γ) {m : Nat} (count i : Nat)
    (all : i + count = m) (src : Vector ν m) (rng : γ) :
    insertLoop (fun a b rng => .ok (cmp a b rng)) count i (src.toList.map some) rng =
      .ok ((InsertionSort.insertFrom cmp count i all src rng).1.toList.map some,
        (InsertionSort.insertFrom cmp count i all src rng).2) := by
  induction count generalizing i src rng with
  | zero => rfl
  | succ count ih =>
      have below : i < m := by omega
      have inside : i < src.toList.length := by rwa [Vector.length_toList]
      have here : load (src.toList.map some) i = .ok src[i] := by
        rw [load_map src.toList inside]
        simp
      rw [insertLoop, here, InsertionSort.insertFrom]
      simp only [bind, Except.bind, shiftLoop_ok cmp src[i] i below src rng]
      exact ih (i + 1) (by omega) _ _

variable [DecidableEq ν]

/-- From the `i`th element on each node comes to point to the one after it. -/
theorem linkLoop_ok (before after : List ν) (node : ν) (distinct : (node :: after).Nodup)
    (next : ν → Option ν) :
    ∃ next', linkLoop after.length before.length ((before ++ node :: after).map some) next =
        .ok next' ∧
      Path next' (some node) (node :: after).dropLast
        (some ((node :: after).getLast (List.cons_ne_nil node after))) ∧
      ∀ other, other ∉ (node :: after).dropLast → next' other = next other := by
  induction after generalizing before node next with
  | nil => exact ⟨next, rfl, rfl, fun _ _ => rfl⟩
  | cons second after ih =>
      have inside : before.length < (before ++ node :: second :: after).length := by simp
      have inside' : before.length + 1 < (before ++ node :: second :: after).length := by simp
      have first : load ((before ++ node :: second :: after).map some) before.length =
          .ok node := by
        rw [load_map _ inside]
        simp
      have following : load ((before ++ node :: second :: after).map some) (before.length + 1) =
          .ok second := by
        rw [load_map _ inside']
        simp
      obtain ⟨notInside, distinct'⟩ := List.nodup_cons.mp distinct
      obtain ⟨next', run, path, kept⟩ := ih (before ++ [node]) second distinct'
        (update next node (some second))
      rw [List.length_append, List.length_singleton, List.append_assoc,
        List.singleton_append] at run
      have outside : node ∉ (second :: after).dropLast := fun member =>
        notInside (List.mem_of_mem_dropLast member)
      have here : next' node = some second := by rw [kept node outside, Function.update_self]
      refine ⟨next', ?_, ?_, ?_⟩
      · rw [List.length_cons, linkLoop, first, following]
        exact run
      · rw [List.dropLast_cons_cons]
        refine ⟨rfl, ?_⟩
        rw [here]
        exact path
      · intro other elsewhere
        rw [List.dropLast_cons_cons, List.mem_cons, not_or] at elsewhere
        rw [kept other elsewhere.2, Function.update_of_ne elsewhere.1]

/-- With NULL in the last node the nodes of the array are a chain. -/
theorem relink_ok (node : ν) (others : List ν) (distinct : (node :: others).Nodup)
    (next : ν → Option ν) :
    ∃ next', linkLoop others.length 0 ((node :: others).map some) next = .ok next' ∧
      Path (update next' ((node :: others).getLast (List.cons_ne_nil node others)) none)
        (some node) (node :: others) none ∧
      ∀ other, other ∉ node :: others →
        update next' ((node :: others).getLast (List.cons_ne_nil node others)) none other =
          next other := by
  obtain ⟨next', linked, path, kept⟩ := linkLoop_ok [] others node distinct next
  have split := List.dropLast_append_getLast (List.cons_ne_nil node others)
  have last : (node :: others).getLast (List.cons_ne_nil node others) ∉
      (node :: others).dropLast := by
    intro member
    rw [← split, List.nodup_append] at distinct
    exact distinct.2.2 _ member _ (List.mem_singleton.mpr rfl) rfl
  refine ⟨next', linked, ?_, fun other absent => ?_⟩
  · have whole : Path (update next' _ none) (some node) (_ ++ [_]) none :=
      path_concat.mpr ⟨path.update last, Function.update_self _ _ _⟩
    rw [split] at whole
    exact whole
  · have different : other ≠ (node :: others).getLast (List.cons_ne_nil node others) :=
      fun equal => absent (equal ▸ List.getLast_mem _)
    rw [Function.update_of_ne different]
    exact kept other fun member => absent (List.mem_of_mem_dropLast member)

/-- The loops of `sort` come to an end, and the chain is then the array that the insertion sort
leaves; no other node is written. -/
theorem sortLoops_ok (cmp : InsertionSort.Comparison ν γ) {next : ν → Option ν} {list : Header ν}
    {nodes : List ν} (chains : Chains next list nodes) {fuel : Nat}
    (enough : nodes.length ≤ fuel) (rng : γ) :
    ∃ after : Sorted ν γ,
      sortLoops (fun a b rng => .ok (cmp a b rng)) fuel next list rng = .ok after ∧
      Chains after.next after.list (InsertionSort.sort cmp nodes rng).1 ∧
      after.rng = (InsertionSort.sort cmp nodes rng).2 ∧
      after.list.length = list.length ∧
      ∀ node, node ∉ nodes → after.next node = next node := by
  obtain ⟨path, counted⟩ := chains
  have perm := InsertionSort.sort_perm cmp nodes rng
  have distinct := perm.nodup_iff.mpr path.nodup
  cases nodes with
  | nil =>
      have empty : list.length = 0 := counted
      refine ⟨⟨next, list, rng⟩, ?_, ⟨path, counted⟩, rfl, rfl, fun _ _ => rfl⟩
      rw [sortLoops, if_pos empty]
      rfl
  | cons first rest =>
      have positive : list.length ≠ 0 := by
        rw [counted]
        exact Nat.succ_ne_zero rest.length
      have count : list.length - 1 = rest.length := by
        rw [counted]
        rfl
      have copied : copyLoop next fuel list.head 0 (List.replicate list.length none) =
          .ok ((first :: rest).map some) := by
        rw [counted]
        exact copyLoop_ok path [] enough
      have inserted := insertLoop_ok cmp rest.length 1 (by omega)
        (⟨(first :: rest).toArray, List.size_toArray⟩ : Vector ν (rest.length + 1)) rng
      obtain ⟨node, others, same⟩ : ∃ node others,
          (InsertionSort.sort cmp (first :: rest) rng).1 = node :: others :=
        List.exists_cons_of_length_pos (by rw [perm.length_eq]; exact Nat.succ_pos _)
      have placed : insertLoop (fun a b rng => .ok (cmp a b rng)) rest.length 1
          ((first :: rest).map some) rng =
            .ok ((node :: others).map some, (InsertionSort.sort cmp (first :: rest) rng).2) := by
        rw [← same]
        exact inserted
      have length : others.length = rest.length := by
        have whole := perm.length_eq
        rw [same] at whole
        exact Nat.succ.inj whole
      rw [same] at distinct
      obtain ⟨next', linked, path', kept⟩ := relink_ok node others distinct next
      rw [length] at linked
      have left : load ((node :: others).map some) 0 = .ok node :=
        load_map _ (Nat.succ_pos others.length)
      have right : load ((node :: others).map some) rest.length =
          .ok ((node :: others).getLast (List.cons_ne_nil node others)) := by
        rw [load_map _ (by rw [List.length_cons]; omega), List.getLast_eq_getElem]
        simp only [List.length_cons, Nat.add_sub_cancel, length]
      refine ⟨⟨update next' ((node :: others).getLast (List.cons_ne_nil node others)) none,
        ⟨some node, list.length⟩, (InsertionSort.sort cmp (first :: rest) rng).2⟩,
        ?_, ⟨?_, ?_⟩, rfl, rfl, ?_⟩
      · rw [sortLoops, if_neg positive, copied, count]
        simp only [bind, Except.bind, placed, left, linked, right]
        rfl
      · rw [same]
        exact path'
      · rw [same, counted, List.length_cons, List.length_cons, length]
      · intro other outside
        exact kept other (by rw [← same, perm.mem_iff]; exact outside)

/-- Where every comparison fails, so does the sort of two nodes or more. -/
theorem sortLoops_fails (fault : Fault) {next : ν → Option ν} {list : Header ν} {nodes : List ν}
    (chains : Chains next list nodes) {fuel : Nat} (enough : nodes.length ≤ fuel)
    (compared : 2 ≤ nodes.length) (rng : γ) :
    sortLoops (fun _ _ _ => .error fault) fuel next list rng = .error fault := by
  obtain ⟨path, counted⟩ := chains
  have positive : list.length ≠ 0 := by omega
  have copied : copyLoop next fuel list.head 0 (List.replicate list.length none) =
      .ok (nodes.map some) := by
    rw [counted]
    exact copyLoop_ok path [] enough
  obtain ⟨count, more⟩ : ∃ count, list.length - 1 = count + 1 := ⟨list.length - 2, by omega⟩
  have flag := load_map nodes (show 1 < nodes.length from compared)
  have last := load_map nodes (show 0 < nodes.length by omega)
  rw [sortLoops, if_neg positive, copied, more]
  simp only [bind, Except.bind, insertLoop, flag, shiftLoop, last]

/-- Nothing is compared in the sort of one node or none. -/
theorem sortLoops_short (cmp cmp' : Compare ν γ) {list : Header ν} (short : list.length ≤ 1)
    (fuel : Nat) (next : ν → Option ν) (rng : γ) :
    sortLoops cmp fuel next list rng = sortLoops cmp' fuel next list rng := by
  have none : list.length - 1 = 0 := by omega
  rw [sortLoops, sortLoops, none]
  rfl

variable {L : Libc} {dataType : DataType}

/-- The nodes that have been allocated. -/
structure Memory (ν : Type) (L : Libc) (dataType : DataType) where
  node : ν → Node L dataType
  next : ν → Option ν

/-- The memory, the list and the generator after a call. -/
structure Outcome (ν : Type) (L : Libc) (dataType : DataType) (γ : Type) where
  memory : Memory ν L dataType
  list : Header ν
  rng : γ

/-- `sort`, with whatever comparison of two nodes. -/
def sortBy (cmp : InsertionSort.Comparison ν γ) (fuel : Nat) (memory : Memory ν L dataType)
    (list : Header ν) (rng : γ) : Except Fault (Outcome ν L dataType γ) := do
  let after ← sortLoops (fun a b rng => .ok (cmp a b rng)) fuel memory.next list rng
  return ⟨{ memory with next := after.next }, after.list, after.rng⟩

/-- `cmp[type->dataType][type->sortType]` on two nodes in memory. -/
def compare (memory : Memory ν L dataType) (sortType : SortType) :
    InsertionSort.Comparison ν L.Random :=
  fun a b rng => cmp dataType sortType (memory.node a) (memory.node b) rng

def sort (sortType : SortType) (fuel : Nat) (memory : Memory ν L dataType) (list : Header ν)
    (rng : L.Random) : Except Fault (Outcome ν L dataType L.Random) :=
  sortBy (compare memory sortType) fuel memory list rng

theorem sortBy_ok (cmp : InsertionSort.Comparison ν γ) {memory : Memory ν L dataType}
    {list : Header ν} {nodes : List ν} (chains : Chains memory.next list nodes) {fuel : Nat}
    (enough : nodes.length ≤ fuel) (rng : γ) :
    ∃ after : Outcome ν L dataType γ, sortBy cmp fuel memory list rng = .ok after ∧
      Chains after.memory.next after.list (InsertionSort.sort cmp nodes rng).1 ∧
      after.memory.node = memory.node ∧ after.list.length = list.length ∧
      after.rng = (InsertionSort.sort cmp nodes rng).2 := by
  obtain ⟨after, run, chains', drawn, length, -⟩ := sortLoops_ok cmp chains enough rng
  refine ⟨⟨{ memory with next := after.next }, after.list, after.rng⟩, ?_, chains', rfl, length,
    drawn⟩
  rw [sortBy, run]
  rfl

/-- What the nodes of a chain hold. -/
def Memory.list (memory : Memory ν L dataType) (nodes : List ν) : NodeList L dataType :=
  ⟨nodes.map memory.node, nodes.length, List.length_map _⟩

/-- The chain holds what the sort of the list of its keys and data gives. -/
theorem sort_refines (sortType : SortType) {memory : Memory ν L dataType} {list : Header ν}
    {nodes : List ν} (chains : Chains memory.next list nodes) {fuel : Nat}
    (enough : nodes.length ≤ fuel) (rng : L.Random) :
    ∃ (after : Outcome ν L dataType L.Random) (nodes' : List ν),
      sort sortType fuel memory list rng = .ok after ∧
      Chains after.memory.next after.list nodes' ∧
      (after.memory.list nodes', after.rng) = KeyValue.sort sortType (memory.list nodes) rng := by
  obtain ⟨after, run, chains', kept, -, drawn⟩ :=
    sortBy_ok (compare memory sortType) chains enough rng
  obtain ⟨placed, drawn'⟩ :=
    InsertionSort.sort_map memory.node (cmp dataType sortType) nodes rng
  refine ⟨after, _, run, chains', Prod.ext (NodeList.ext_head ?_) ?_⟩
  · rw [sort_head]
    change _ = (InsertionSort.sort (cmp dataType sortType) (nodes.map memory.node) rng).1
    rw [← placed]
    change (InsertionSort.sort (compare memory sortType) nodes rng).1.map after.memory.node = _
    rw [kept]
    rfl
  · rw [sort_random]
    change _ = (InsertionSort.sort (cmp dataType sortType) (nodes.map memory.node) rng).2
    rw [← drawn', drawn]
    rfl

/-- Whatever the comparison answers, a sort ends, stays inside its array and leaves the nodes
that it found in some order. -/
theorem sort_rearranges (cmp : InsertionSort.Comparison ν γ) (memory : Memory ν L dataType)
    (list : Header ν) (nodes : List ν) (chains : Chains memory.next list nodes) (fuel : Nat)
    (enough : nodes.length ≤ fuel) (rng : γ) :
    ∃ (after : Outcome ν L dataType γ) (nodes' : List ν),
      sortBy cmp fuel memory list rng = .ok after ∧
      Chains after.memory.next after.list nodes' ∧ nodes'.Perm nodes ∧ nodes'.Nodup ∧
      after.memory.node = memory.node ∧ after.list.length = list.length := by
  obtain ⟨after, run, chains', kept, length, -⟩ := sortBy_ok cmp chains enough rng
  exact ⟨after, _, run, chains', InsertionSort.sort_perm cmp nodes rng, chains'.path.nodup, kept,
    length⟩

/-- Three nodes, and a comparison that answers differently each time it is asked. -/
def threeNodes : Memory Nat wholeLibc .char where
  node _ := ⟨bytes "key", bytes "value"⟩
  next i := if i < 2 then some (i + 1) else none

def flipping : InsertionSort.Comparison Nat Bool := fun _ _ coin => (if coin then 1 else -1, !coin)

theorem threeNodes_chains : Chains threeNodes.next ⟨some 0, 3⟩ [0, 1, 2] :=
  ⟨⟨rfl, rfl, rfl, rfl⟩, rfl⟩

theorem sort_rearranges_flipping :
    ∃ (after : Outcome Nat wholeLibc .char Bool) (nodes' : List Nat),
      sortBy flipping 3 threeNodes ⟨some 0, 3⟩ true = .ok after ∧
      Chains after.memory.next after.list nodes' ∧ nodes'.Perm [0, 1, 2] ∧ nodes'.Nodup ∧
      after.memory.node = threeNodes.node ∧ after.list.length = 3 :=
  sort_rearranges flipping threeNodes ⟨some 0, 3⟩ [0, 1, 2] threeNodes_chains 3 (by decide) true

end Ve482.KeyValue.Pointers
