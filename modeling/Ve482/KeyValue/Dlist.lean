import Ve482.KeyValue.Pointers
import Ve482.Lib.CoinSort

set_option autoImplicit false

/- The list of key and value pairs whose header states what a sort of it gives. -/
namespace Ve482.Dlist

open Chain CString InsertionSort
open KeyValue.Pointers (Fault Header Compare Chains sortLoops sortLoops_ok sortLoops_fails
  sortLoops_short)
open Function (update)

/-- `dlistValueType` -/
inductive ValueType where
  | int
  | str
  | double
  | unknown
deriving DecidableEq, Repr

def ValueType.code : ValueType → Nat
  | .int => 0x01
  | .str => 0x02
  | .double => 0x03
  | .unknown => 0x00

/-- `dlistSortMethod` -/
inductive SortMethod where
  | rand
  | inc
  | dec
  | unknown
deriving DecidableEq, Repr

/-- The union `dlistValue`, with the member that was stored. -/
inductive Value (Double : Type) where
  | intValue (value : Int32)
  | doubleValue (value : Double)
  | strValue (value : Text)
deriving DecidableEq

/-- What a node holds beside its pointer. -/
structure Entry (Double : Type) where
  key : Text
  value : Value Double
deriving DecidableEq

/-- `List` -/
structure DList extends Header Nat where
  type : ValueType

/-- The nodes and the lists that `malloc` has given, each kind numbered from 0. -/
structure Store (Double : Type) where
  node : Nat → Entry Double
  next : Nat → Option Nat
  nodes : Nat
  list : Nat → DList
  lists : Nat

variable {Double : Type}

def createDlist (type : ValueType) (store : Store Double) : Option Nat × Store Double :=
  let list := store.lists
  let store := { store with list := update store.list list ⟨⟨none, 0⟩, type⟩, lists := list + 1 }
  if type = .unknown then (none, store) else (some list, store)

def dlistIsEmpty (this : DList) : Bool := this.length == 0

/-- NULL is no node. -/
def deref (pointer : Option Nat) : Except Fault Nat :=
  match pointer with
  | none => .error .outside
  | some node => .ok node

/-- `while(indexNode->next!=NULL)` -/
def lastNode (next : Nat → Option Nat) : Nat → Nat → Except Fault Nat
  | 0, _ => .error .fuel
  | fuel + 1, indexNode =>
      match next indexNode with
      | none => .ok indexNode
      | some after => lastNode next fuel after

/-- A walk that visits more nodes than there are has come back to one of them. -/
def dlistAppend (this : Nat) (key : Text) (value : Value Double) (store : Store Double) :
    Except Fault (Store Double) := do
  let list := store.list this
  let node := store.nodes
  let next := update store.next node none
  let store := { store with node := update store.node node ⟨key, value⟩, nodes := node + 1 }
  if dlistIsEmpty list then
    let list := { list with head := some node, length := list.length + 1 }
    return { store with next := next, list := update store.list this list }
  else
    let last ← lastNode next store.nodes (← deref list.head)
    let list := { list with length := list.length + 1 }
    return { store with next := update next last (some node), list := update store.list this list }

/-- `((rand())%2)*2-1` -/
def side (answer : Nat) : Int := (answer % 2 : Nat) * 2 - 1

/-- The state is what `rand` will answer. -/
def rnd : Compare Nat (Nat → Nat) := fun a b rand => .ok (toss side a b rand)

def cmp : List (List (Compare Nat (Nat → Nat))) :=
  [[rnd, rnd, rnd],
   [rnd, rnd, rnd],
   [rnd, rnd, rnd]]

/-- `cmp[this->type][this->type]` -/
def compare (type : ValueType) : Compare Nat (Nat → Nat) :=
  match cmp[type.code]? with
  | none => fun _ _ _ => .error .outside
  | some row =>
      match row[type.code]? with
      | none => fun _ _ _ => .error .outside
      | some compare => compare

/-- Neither `listDst` nor `method` is looked at. -/
def dlistSort (this : Nat) (_listDst : Nat) (_method : SortMethod) (store : Store Double)
    (rand : Nat → Nat) : Except Fault (Store Double × (Nat → Nat)) := do
  let list := store.list this
  let after ← sortLoops (compare list.type) store.nodes store.next list.toHeader rand
  let list := { list with toHeader := after.list }
  return ({ store with next := after.next, list := update store.list this list }, after.rng)

/-- What `createDlist` has returned. -/
def Store.IsDlist (store : Store Double) (this : Nat) : Prop :=
  this < store.lists ∧ (store.list this).type ≠ .unknown

instance (store : Store Double) (this : Nat) : Decidable (store.IsDlist this) :=
  inferInstanceAs (Decidable (_ ∧ _))

/-- The type instantiated in the value corresponds to the datatype in the list. -/
def Value.Fits : Value Double → ValueType → Prop
  | .intValue _, type => type = .int
  | .doubleValue _, type => type = .double
  | .strValue _, type => type = .str

/-- Nothing is allocated. -/
def Store.empty : Store Double where
  node _ := ⟨[], .intValue 0⟩
  next _ := none
  nodes := 0
  list _ := ⟨⟨none, 0⟩, .unknown⟩
  lists := 0

inductive Built : Store Double → Prop where
  | empty : Built Store.empty
  | create {store : Store Double} (type : ValueType) (built : Built store) :
      Built (createDlist type store).2
  | append {store after : Store Double} {this : Nat} {key : Text} {value : Value Double}
      (built : Built store) (isDlist : store.IsDlist this)
      (fits : value.Fits (store.list this).type)
      (run : dlistAppend this key value store = .ok after) : Built after

def follow (next : Nat → Option Nat) : Nat → Option Nat → List Nat
  | _, none => []
  | 0, some _ => []
  | fuel + 1, some node => node :: follow next fuel (next node)

/-- The nodes of a list. -/
def Store.chain (store : Store Double) (this : Nat) : List Nat :=
  follow store.next store.nodes (store.list this).head

def Store.entries (store : Store Double) (this : Nat) : List (Entry Double) :=
  (store.chain this).map store.node

/-- Each list is a counted chain of its own nodes, whose values are of its type. -/
structure Store.Valid (store : Store Double) (chain : Nat → List Nat) : Prop where
  chains : ∀ this < store.lists,
    Chains store.next (store.list this).toHeader (chain this)
  allocated : ∀ this < store.lists, ∀ node ∈ chain this, node < store.nodes
  apart : ∀ this < store.lists, ∀ other < store.lists, this ≠ other →
    (chain this).Disjoint (chain other)
  fits : ∀ this < store.lists, ∀ node ∈ chain this,
    (store.node node).value.Fits (store.list this).type

theorem follow_eq {next : Nat → Option Nat} {head : Option Nat} {nodes : List Nat}
    (path : Path next head nodes none) {fuel : Nat} (enough : nodes.length ≤ fuel) :
    follow next fuel head = nodes := by
  induction nodes generalizing head fuel with
  | nil =>
      have empty : head = none := path
      subst empty
      cases fuel <;> rfl
  | cons node nodes ih =>
      obtain ⟨first, rest⟩ := path
      subst first
      obtain ⟨fuel, rfl⟩ : ∃ left, fuel = left + 1 :=
        ⟨fuel - 1, by simp only [List.length_cons] at enough; omega⟩
      rw [follow, ih rest (Nat.le_of_succ_le_succ enough)]

/-- A chain has no more nodes than are allocated. -/
theorem length_le {next : Nat → Option Nat} {head : Option Nat} {nodes : List Nat} {count : Nat}
    (path : Path next head nodes none) (allocated : ∀ node ∈ nodes, node < count) :
    nodes.length ≤ count := by
  have inside : nodes ⊆ List.range count := fun node member =>
    List.mem_range.mpr (allocated node member)
  have sub := (path.nodup.subperm inside).length_le
  rwa [List.length_range] at sub

theorem Store.Valid.chain_eq {store : Store Double} {chain : Nat → List Nat}
    (valid : store.Valid chain) {this : Nat} (known : this < store.lists) :
    store.chain this = chain this :=
  follow_eq (valid.chains this known).path
    (length_le (valid.chains this known).path (valid.allocated this known))

theorem lastNode_ok {next : Nat → Option Nat} {head : Nat} {nodes : List Nat} {last : Nat}
    (path : Path next (some head) nodes none) (ends : nodes.getLast? = some last) {fuel : Nat}
    (enough : nodes.length ≤ fuel) : lastNode next fuel head = .ok last := by
  induction nodes generalizing head fuel with
  | nil => cases ends
  | cons node nodes ih =>
      obtain ⟨first, rest⟩ := path
      obtain rfl : head = node := Option.some.inj first
      obtain ⟨fuel, rfl⟩ : ∃ left, fuel = left + 1 :=
        ⟨fuel - 1, by simp only [List.length_cons] at enough; omega⟩
      rw [lastNode]
      cases nodes with
      | nil =>
          have final : next head = none := rest
          rw [final]
          rw [List.getLast?_singleton] at ends
          rw [Option.some.inj ends]
      | cons second nodes =>
          have onward : next head = some second := rest.1
          rw [onward] at rest ⊢
          rw [List.getLast?_cons_cons] at ends
          exact ih rest ends (Nat.le_of_succ_le_succ enough)

/-- The invariant stays where one list changes, to a chain apart from those of the others. -/
theorem Store.Valid.change {store after : Store Double} {chain : Nat → List Nat}
    (valid : store.Valid chain) {this : Nat} {nodes : List Nat}
    (older : ∀ list < after.lists, list ≠ this → list < store.lists)
    (more : store.nodes ≤ after.nodes)
    (kept : ∀ list < store.lists, list ≠ this → after.list list = store.list list ∧
      ∀ node ∈ chain list, after.next node = store.next node ∧ after.node node = store.node node)
    (chains : Chains after.next (after.list this).toHeader nodes)
    (allocated : ∀ node ∈ nodes, node < after.nodes)
    (apart : ∀ list < store.lists, list ≠ this → nodes.Disjoint (chain list))
    (fits : ∀ node ∈ nodes, (after.node node).value.Fits (after.list this).type) :
    after.Valid (update chain this nodes) := by
  refine ⟨fun list known => ?_, fun list known => ?_, fun list known other known' distinct => ?_,
    fun list known => ?_⟩
  · by_cases same : list = this
    · subst same
      rw [Function.update_self]
      exact chains
    · have known' := older list known same
      obtain ⟨path, counted⟩ := valid.chains list known'
      obtain ⟨header, untouched⟩ := kept list known' same
      rw [Function.update_of_ne same, header]
      exact ⟨path.congr fun node member => (untouched node member).1, counted⟩
  · by_cases same : list = this
    · subst same
      rw [Function.update_self]
      exact allocated
    · rw [Function.update_of_ne same]
      intro node member
      exact Nat.lt_of_lt_of_le (valid.allocated list (older list known same) node member) more
  · by_cases same : list = this
    · subst same
      rw [Function.update_self, Function.update_of_ne distinct.symm]
      exact apart other (older other known' distinct.symm) distinct.symm
    · rw [Function.update_of_ne same]
      by_cases same' : other = this
      · subst same'
        rw [Function.update_self]
        exact (apart list (older list known same) same).symm
      · rw [Function.update_of_ne same']
        exact valid.apart list (older list known same) other (older other known' same') distinct
  · by_cases same : list = this
    · subst same
      rw [Function.update_self]
      exact fits
    · have known' := older list known same
      obtain ⟨header, untouched⟩ := kept list known' same
      rw [Function.update_of_ne same, header]
      intro node member
      rw [(untouched node member).2]
      exact valid.fits list known' node member

theorem createDlist_valid {store : Store Double} {chain : Nat → List Nat}
    (valid : store.Valid chain) (type : ValueType) :
    (createDlist type store).2.Valid (update chain store.lists []) := by
  have created : (createDlist type store).2 =
      { store with
        list := update store.list store.lists ⟨⟨none, 0⟩, type⟩
        lists := store.lists + 1 } := by
    rw [createDlist]
    by_cases unknown : type = .unknown
    · rw [if_pos unknown]
    · rw [if_neg unknown]
  rw [created]
  refine valid.change ?_ (Nat.le_refl store.nodes) ?_ ?_ ?_ ?_ ?_
  · intro list known different
    exact Nat.lt_of_le_of_ne (Nat.le_of_lt_succ known) different
  · intro list known different
    exact ⟨Function.update_of_ne different .., fun node member => ⟨rfl, rfl⟩⟩
  · dsimp only
    rw [Function.update_self]
    exact ⟨rfl, rfl⟩
  · intro node member
    cases member
  · intro list known different
    exact List.disjoint_nil_left (chain list)
  · intro node member
    cases member

/-- What `dlistAppend` leaves, where `nodes` is the chain of the list. -/
def Store.appended (store : Store Double) (this : Nat) (key : Text) (value : Value Double)
    (nodes : List Nat) : Store Double :=
  { store with
    node := update store.node store.nodes ⟨key, value⟩
    next := bypass (update store.next store.nodes none) nodes.getLast? (some store.nodes)
    nodes := store.nodes + 1
    list := update store.list this
      { store.list this with
        head := bypassHead (store.list this).head nodes.getLast? (some store.nodes)
        length := (store.list this).length + 1 } }

theorem dlistAppend_eq {store : Store Double} {chain : Nat → List Nat}
    (valid : store.Valid chain) {this : Nat} (known : this < store.lists) (key : Text)
    (value : Value Double) :
    dlistAppend this key value store = .ok (store.appended this key value (chain this)) := by
  obtain ⟨path, counted⟩ := valid.chains this known
  have fresh : store.nodes ∉ chain this := fun member =>
    Nat.lt_irrefl _ (valid.allocated this known _ member)
  rw [dlistAppend, Store.appended]
  cases ends : (chain this).getLast? with
  | none =>
      have empty : dlistIsEmpty (store.list this) = true := by
        rw [dlistIsEmpty, counted, List.getLast?_eq_none_iff.mp ends]
        rfl
      simp only [empty, if_true]
      rfl
  | some last =>
      obtain ⟨first, rest, split⟩ := List.exists_cons_of_ne_nil
        (List.ne_nil_of_mem (List.mem_of_getLast? ends))
      have filled : dlistIsEmpty (store.list this) = false := by
        rw [dlistIsEmpty, counted, split]
        rfl
      have head : (store.list this).head = some first := by
        rw [split] at path
        exact path.1
      have path' : Path (update store.next store.nodes none) (some first) (chain this) none := by
        rw [← head]
        exact path.update fresh
      have walked := lastNode_ok path' ends
        (Nat.le_succ_of_le (length_le path (valid.allocated this known)))
      simp only [head, filled, deref, bind, Except.bind, walked, Bool.false_eq_true, if_false]
      rfl

theorem appended_valid {store : Store Double} {chain : Nat → List Nat}
    (valid : store.Valid chain) {this : Nat} (known : this < store.lists) (key : Text)
    {value : Value Double} (fits : value.Fits (store.list this).type) :
    (store.appended this key value (chain this)).Valid
      (update chain this (chain this ++ [store.nodes])) := by
  have fresh {list : Nat} (allocated : list < store.lists) : store.nodes ∉ chain list :=
    fun member => Nat.lt_irrefl _ (valid.allocated list allocated _ member)
  refine valid.change (fun list allocated _ => allocated) (Nat.le_succ store.nodes)
    (fun list allocated different => ⟨Function.update_of_ne different .., fun node member => ?_⟩)
    ?_ ?_ (fun list allocated different => ?_) ?_
  · -- The only nodes that are written are the new one and the last of this chain.
    have notFresh : node ≠ store.nodes := fun same => fresh allocated (same ▸ member)
    refine ⟨?_, Function.update_of_ne notFresh ..⟩
    rw [Store.appended]
    dsimp only
    rw [bypass_of_ne fun ends => valid.apart list allocated this known different member
      (List.mem_of_getLast? ends), Function.update_of_ne notFresh]
  · obtain ⟨path, counted⟩ := valid.chains this known
    rw [Store.appended]
    dsimp only
    rw [Function.update_self]
    refine ⟨path.pushBack (fresh known), ?_⟩
    rw [List.length_append, List.length_singleton, ← counted]
  · intro node member
    change node < store.nodes + 1
    rcases List.mem_append.mp member with older | new
    · exact Nat.lt_succ_of_lt (valid.allocated this known node older)
    · rw [List.mem_singleton.mp new]
      exact Nat.lt_succ_self store.nodes
  · rw [List.disjoint_append_left]
    exact ⟨valid.apart this known list allocated different.symm,
      List.singleton_disjoint.mpr (fresh allocated)⟩
  · intro node member
    rw [Store.appended]
    dsimp only
    rw [Function.update_self]
    rcases List.mem_append.mp member with older | new
    · have notFresh : node ≠ store.nodes := fun same => fresh known (same ▸ older)
      rw [Function.update_of_ne notFresh]
      exact valid.fits this known node older
    · rw [List.mem_singleton.mp new, Function.update_self]
      exact fits

theorem built_valid {store : Store Double} (built : Built store) :
    ∃ chain, store.Valid chain := by
  induction built with
  | empty => exact ⟨fun _ => [], nofun, nofun, nofun, nofun⟩
  | create type built ih =>
      obtain ⟨chain, valid⟩ := ih
      exact ⟨_, createDlist_valid valid type⟩
  | append built isDlist fits run ih =>
      obtain ⟨chain, valid⟩ := ih
      rw [dlistAppend_eq valid isDlist.1, Except.ok.injEq] at run
      subst run
      exact ⟨_, appended_valid valid isDlist.1 _ fits⟩

/-- The order of two values of one type. -/
def Value.Le (le : Double → Double → Prop) : Value Double → Value Double → Prop
  | .intValue a, .intValue b => a ≤ b
  | .doubleValue a, .doubleValue b => le a b
  | .strValue a, .strValue b => strcmp a b ≤ 0
  | _, _ => False

/-- The other methods ask for no order. -/
def SortMethod.InOrder (le : Double → Double → Prop) (method : SortMethod)
    (a b : Entry Double) : Prop :=
  match method with
  | .inc => a.value.Le le b.value
  | .dec => b.value.Le le a.value
  | .rand | .unknown => True

def Store.Holds (store : Store Double) (this : Nat) (entries : List (Entry Double)) : Prop :=
  ∃ nodes, Chains store.next (store.list this).toHeader nodes ∧ nodes.map store.node = entries

/-- Whatever `rand` answers, the sort goes through, `this` keeps its entries and `listDst` comes
to hold them in order. -/
def MeetsContract (le : Double → Double → Prop) (store : Store Double) (this listDst : Nat)
    (method : SortMethod) : Prop :=
  ∀ rand, ∃ after rand', dlistSort this listDst method store rand = .ok (after, rand') ∧
    after.Holds this (store.entries this) ∧
    ∃ sorted, after.Holds listDst sorted ∧ sorted.Perm (store.entries this) ∧
      sorted.Pairwise (method.InOrder le)

theorem Store.Holds.unique {store : Store Double} {this : Nat}
    {entries entries' : List (Entry Double)} (holds : store.Holds this entries)
    (holds' : store.Holds this entries') : entries = entries' := by
  obtain ⟨nodes, chains, rfl⟩ := holds
  obtain ⟨nodes', chains', rfl⟩ := holds'
  rw [chains.path.unique chains'.path]

theorem compare_eq (type : ValueType) :
    compare type = if type = .double then fun _ _ _ => .error .outside else rnd := by
  cases type <;> rfl

/-- A sort that gets through shuffles `this` and touches no other list. -/
theorem dlistSort_ok {store : Store Double} {chain : Nat → List Nat} (valid : store.Valid chain)
    {this : Nat} (known : this < store.lists)
    (inRange : (store.entries this).length ≤ 1 ∨ (store.list this).type ≠ .double)
    (listDst : Nat) (method : SortMethod) (rand : Nat → Nat) :
    ∃ after rand', dlistSort this listDst method store rand = .ok (after, rand') ∧
      after.Holds this (sort (toss side) (store.entries this) rand).1 ∧
      ∀ other < store.lists, other ≠ this → after.Holds other (store.entries other) := by
  have chains := valid.chains this known
  have tossed : sortLoops (compare (store.list this).type) store.nodes store.next
      (store.list this).toHeader rand =
        sortLoops (fun a b rand => .ok (toss side a b rand)) store.nodes store.next
          (store.list this).toHeader rand := by
    rcases inRange with short | typed
    · rw [Store.entries, List.length_map, valid.chain_eq known, ← chains.counted] at short
      exact sortLoops_short _ _ short _ _ _
    · rw [compare_eq, if_neg typed]
      rfl
  obtain ⟨after, run, chains', -, -, kept⟩ := sortLoops_ok (toss side) chains
    (length_le chains.path (valid.allocated this known)) rand
  have ran : dlistSort this listDst method store rand =
      .ok ({ store with
        next := after.next
        list := update store.list this { store.list this with toHeader := after.list } },
        after.rng) := by
    rw [dlistSort, tossed, run]
    rfl
  refine ⟨_, after.rng, ran, ⟨(sort (toss side) (chain this) rand).1, ?_, ?_⟩,
    fun other known' different => ⟨chain other, ?_, ?_⟩⟩
  · dsimp only
    rw [Function.update_self]
    exact chains'
  · have placed := (sort_map store.node (toss side) (chain this) rand).1
    rw [Store.entries, valid.chain_eq known, ← placed]
    rfl
  · obtain ⟨path, counted⟩ := valid.chains other known'
    dsimp only
    rw [Function.update_of_ne different]
    refine ⟨path.congr fun node member => kept node ?_, counted⟩
    exact valid.apart other known' this known different member
  · rw [Store.entries, valid.chain_eq known']

/-- The table has no row for the last type. -/
theorem dlistSort_fails {store : Store Double} {chain : Nat → List Nat} (valid : store.Valid chain)
    {this : Nat} (known : this < store.lists) (double : (store.list this).type = .double)
    (compared : 2 ≤ (store.entries this).length) (listDst : Nat) (method : SortMethod)
    (rand : Nat → Nat) : dlistSort this listDst method store rand = .error .outside := by
  have chains := valid.chains this known
  rw [Store.entries, List.length_map, valid.chain_eq known] at compared
  have fails := sortLoops_fails .outside chains
    (length_le chains.path (valid.allocated this known)) compared rand
  rw [dlistSort, compare_eq, if_pos double, fails]
  rfl

theorem Value.le_refl (le : Double → Double → Prop) {value : Value Double} {type : ValueType}
    (fits : value.Fits type) (typed : type ≠ .double) : value.Le le value := by
  cases value with
  | intValue value => exact Int32.le_refl value
  | doubleValue value => exact absurd fits typed
  | strValue value =>
      have same := strcmp_swap value value
      change strcmp value value ≤ 0
      omega

theorem SortMethod.inOrder_refl (le : Double → Double → Prop) (method : SortMethod)
    {entry : Entry Double} {type : ValueType} (fits : entry.value.Fits type)
    (typed : type ≠ .double) : method.InOrder le entry entry := by
  have refl := Value.le_refl le fits typed
  cases method with
  | inc => exact refl
  | dec => exact refl
  | rand => trivial
  | unknown => trivial

theorem nil_or_singleton {entries : List (Entry Double)} (short : entries.length ≤ 1) :
    entries = [] ∨ ∃ entry, entries = [entry] := by
  cases entries with
  | nil => exact Or.inl rfl
  | cons entry rest =>
      have none : rest = [] :=
        List.eq_nil_of_length_eq_zero (Nat.le_zero.mp (Nat.le_of_succ_le_succ short))
      exact Or.inr ⟨entry, congrArg (entry :: ·) none⟩

theorem side_one : 0 ≤ side 1 := by decide

theorem side_zero : side 0 < 0 := by decide

/-- However the coins fall `this` keeps its order, so its entries are all the same. -/
theorem meets_forces (le : Double → Double → Prop) {store : Store Double}
    {chain : Nat → List Nat} (valid : store.Valid chain) {this listDst : Nat}
    (known : this < store.lists) (known' : listDst < store.lists) {method : SortMethod}
    (meets : MeetsContract le store this listDst method) :
    store.entries listDst = store.entries this ∧
      ((store.entries this).length ≤ 1 ∨ (store.list this).type ≠ .double ∧
        ∀ a ∈ store.entries this, ∀ b ∈ store.entries this, a = b) := by
  have inRange : (store.entries this).length ≤ 1 ∨ (store.list this).type ≠ .double := by
    by_contra outside
    rw [not_or, not_not, not_le] at outside
    obtain ⟨after, rand', run, -⟩ := meets fun _ => 0
    rw [dlistSort_fails valid known outside.2 outside.1] at run
    cases run
  have fixed (rand : Nat → Nat) :
      (sort (toss side) (store.entries this) rand).1 = store.entries this := by
    obtain ⟨after, rand', run, holds, -⟩ := meets rand
    obtain ⟨after', drawn, run', shuffled, -⟩ :=
      dlistSort_ok valid known inRange listDst method rand
    rw [run, Except.ok.injEq, Prod.mk.injEq] at run'
    rw [← run'.1] at shuffled
    exact shuffled.unique holds
  have equal : ∀ a ∈ store.entries this, ∀ b ∈ store.entries this, a = b :=
    (sort_tossed_iff side_one side_zero (store.entries this)).mp fixed
  refine ⟨?_, inRange.imp_right fun typed => ⟨typed, equal⟩⟩
  by_cases same : listDst = this
  · rw [same]
  · obtain ⟨after, rand', run, -, sorted, holds, perm, -⟩ := meets fun _ => 0
    obtain ⟨after', drawn, run', -, kept⟩ :=
      dlistSort_ok valid known inRange listDst method fun _ => 0
    rw [run, Except.ok.injEq, Prod.mk.injEq] at run'
    have untouched := kept listDst known' same
    rw [← run'.1] at untouched
    rw [holds.unique untouched] at perm
    exact eq_of_perm_of_equal perm equal

/-- A sort does what the header promises only where there is nothing to do. -/
theorem dlistSort_meets_iff (le : Double → Double → Prop) {store : Store Double}
    (built : Built store) {this listDst : Nat} (isThis : store.IsDlist this)
    (isDst : store.IsDlist listDst) (method : SortMethod) :
    MeetsContract le store this listDst method ↔
      store.entries listDst = store.entries this ∧
        ((store.entries this).length ≤ 1 ∨ (store.list this).type ≠ .double ∧
          ∀ a ∈ store.entries this, ∀ b ∈ store.entries this, a = b) := by
  obtain ⟨chain, valid⟩ := built_valid built
  refine ⟨fun meets => meets_forces le valid isThis.1 isDst.1 meets, ?_⟩
  rintro ⟨copied, small⟩ rand
  have inRange := small.imp_right And.left
  obtain ⟨after, rand', run, shuffled, kept⟩ :=
    dlistSort_ok valid isThis.1 inRange listDst method rand
  have fixed : (sort (toss side) (store.entries this) rand).1 = store.entries this := by
    rcases small with short | ⟨-, equal⟩
    · obtain none | ⟨entry, one⟩ := nil_or_singleton short
      · rw [none]
        rfl
      · rw [one]
        rfl
    · exact eq_of_perm_of_equal (sort_perm (toss side) (store.entries this) rand) equal
  rw [fixed] at shuffled
  refine ⟨after, rand', run, shuffled, store.entries this, ?_, .refl _, ?_⟩
  · by_cases same : listDst = this
    · rw [same]
      exact shuffled
    · rw [← copied]
      exact kept listDst isDst.1 same
  · rcases small with short | ⟨typed, equal⟩
    · obtain none | ⟨entry, one⟩ := nil_or_singleton short
      · rw [none]
        exact .nil
      · rw [one]
        exact List.pairwise_singleton _ entry
    · refine List.pairwise_of_forall_mem_list fun a first b second => ?_
      obtain ⟨node, member, rfl⟩ := List.mem_map.mp first
      rw [valid.chain_eq isThis.1] at member
      rw [← equal _ first b second]
      exact method.inOrder_refl le (valid.fits this isThis.1 node member) typed

/-- A list of one entry, and an empty one. -/
def oneEntry : Store Int :=
  (createDlist .int (createDlist .int .empty).2).2.appended 0 (bytes "key") (.intValue 1) []

theorem oneEntry_built : Built oneEntry := by
  have isDlist : (createDlist .int (createDlist .int (.empty : Store Int)).2).2.IsDlist 0 :=
    ⟨by decide, by decide⟩
  have fits : (.intValue 1 : Value Int).Fits .int := rfl
  exact (Built.empty.create .int |>.create .int).append isDlist fits rfl

theorem oneEntry_lists : oneEntry.IsDlist 0 ∧ oneEntry.IsDlist 1 := by decide

theorem dlistSort_meets_iff_oneEntry :
    MeetsContract (· ≤ ·) oneEntry 0 1 .inc ↔
      oneEntry.entries 1 = oneEntry.entries 0 ∧
        ((oneEntry.entries 0).length ≤ 1 ∨ (oneEntry.list 0).type ≠ .double ∧
          ∀ a ∈ oneEntry.entries 0, ∀ b ∈ oneEntry.entries 0, a = b) :=
  dlistSort_meets_iff (· ≤ ·) oneEntry_built oneEntry_lists.1 oneEntry_lists.2 .inc

/-- The entry is not put into the other list. -/
theorem oneEntry_not_copied :
    Built oneEntry ∧ oneEntry.IsDlist 0 ∧ oneEntry.IsDlist 1 ∧
      (oneEntry.list 1).type = (oneEntry.list 0).type ∧
      ¬ MeetsContract (· ≤ ·) oneEntry 0 1 .inc := by
  refine ⟨oneEntry_built, oneEntry_lists.1, oneEntry_lists.2, rfl, fun meets => ?_⟩
  obtain ⟨chain, valid⟩ := built_valid oneEntry_built
  have copied := (meets_forces _ valid (by decide) (by decide) meets).1
  have lengths := congrArg List.length copied
  revert lengths
  decide

end Ve482.Dlist
