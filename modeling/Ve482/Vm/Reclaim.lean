import Ve482.Vm.Wellformed

set_option autoImplicit false

namespace Ve482.Vm

variable {np : Nat} {header : Header np} {vm vm' : State np} {order : List Ptr}

/-- How many pages some yielded blocks have. -/
def pagesOf (vm : State np) (nodes : List Ptr) : Nat :=
  (nodes.map fun node => (vm.yielded node).pages).sum

/-- The free pages after the pages of some yielded blocks are handed to `free_mem`. -/
def handed (vm : State np) (free : Finset Nat) (nodes : List Ptr) : Finset Nat :=
  nodes.foldl (fun free node => free ∪ Finset.Ico (abs2click (vm.yielded node).physaddr)
    (abs2click (vm.yielded node).physaddr + (vm.yielded node).pages)) free

/-- What is returned is what was freed, and no block is freed once that is enough. -/
structure Reclaims (vm : State np) (maxBytes bytes : Nat) (gone left : List Ptr) : Prop where
  counted : bytes = vmPageSize * pagesOf vm gone
  enough : left = [] ∨ maxBytes ≤ vmPageSize * pagesOf vm gone
  needed : ∀ before, before <+: gone → before ≠ gone → vmPageSize * pagesOf vm before < maxBytes

theorem pagesOf_ones {nodes : List Ptr} (ones : ∀ node ∈ nodes, (vm.yielded node).pages = 1) :
    pagesOf vm nodes = nodes.length := by
  induction nodes with
  | nil => rfl
  | cons node nodes ih =>
      have rest := ih fun other member => ones other (List.mem_cons_of_mem node member)
      have own := ones node List.mem_cons_self
      simp only [pagesOf, List.map_cons, List.sum_cons, List.length_cons] at rest ⊢
      omega

theorem pagesOf_large {nodes : List Ptr} (sized : ∀ node ∈ nodes, 1 ≤ (vm.yielded node).pages) :
    nodes.length ≤ pagesOf vm nodes ∧
      (pagesOf vm nodes = nodes.length → ∀ node ∈ nodes, (vm.yielded node).pages = 1) := by
  induction nodes with
  | nil => exact ⟨Nat.zero_le _, by simp⟩
  | cons node nodes ih =>
      obtain ⟨large, ones⟩ := ih fun other member => sized other (List.mem_cons_of_mem node member)
      have own := sized node List.mem_cons_self
      have total : pagesOf vm (node :: nodes) = (vm.yielded node).pages + pagesOf vm nodes := rfl
      rw [total, List.length_cons]
      refine ⟨by omega, fun same other member => ?_⟩
      rcases List.mem_cons.mp member with rfl | later
      · omega
      · exact ones (by omega) other later

theorem handed_congr (same : ∀ node, SameBlock (vm.yielded node) (vm'.yielded node))
    (free : Finset Nat) (nodes : List Ptr) : handed vm' free nodes = handed vm free nodes := by
  induction nodes generalizing free with
  | nil => rfl
  | cons node nodes ih =>
      simp only [handed, List.foldl_cons, (same node).2.1, (same node).2.2] at ih ⊢
      exact ih _

theorem Frees.handed {gone left : List Ptr} (frees : Frees header vm gone vm')
    (books : Books header vm order) (split : order.reverse = gone ++ left) :
    vm'.free = handed vm vm.free gone := by
  induction frees generalizing order with
  | nil vm => rfl
  | cons first rest ih =>
      obtain ⟨member, earlier⟩ := last_erased books split
      obtain ⟨vm1, result, swept, -⟩ := freeyieldednode_ok books member true
      obtain ⟨-, rfl⟩ := Prod.mk.inj (Except.ok.inj (first.symm.trans result))
      have node := freeyieldednode_freed books member first
      rw [ih swept.books earlier, handed_congr node.same, node.free]
      rfl

/-- The loop ends after as many blocks as there would have to be if each had one page. -/
theorem gone_eq {maxBytes : Nat} {all gone left : List Ptr} (split : all = gone ++ left)
    (reason : left = [] ∨ maxBytes ≤ gone.length * vmPageSize)
    (needed : gone = [] ∨ (gone.length - 1) * vmPageSize < maxBytes) :
    gone = all.take ((maxBytes + vmPageSize - 1) / vmPageSize) := by
  unfold vmPageSize at reason needed ⊢
  have few : gone.length ≤ (maxBytes + 4096 - 1) / 4096 := by
    rcases needed with rfl | needed
    · exact Nat.zero_le _
    · omega
  rcases reason with rfl | enough
  · rw [split, List.append_nil, List.take_of_length_le few]
  · have many : (maxBytes + 4096 - 1) / 4096 ≤ gone.length := by omega
    rw [split, Nat.le_antisymm many few, List.take_left]

/-- With one page in each block `free_yielded` returns what it freed, and frees no more than it
has to; with more pages in a block that it frees it returns less. -/
theorem reclaims_iff (books : Books header vm order)
    (sized : ∀ node ∈ order, 1 ≤ (vm.yielded node).pages) (maxBytes : Nat) :
    ∃ bytes vm' gone left, freeYielded header vm maxBytes = .ok (bytes, vm') ∧
      order.reverse = gone ++ left ∧ vm'.freed = vm.freed ++ gone ∧
      vm'.free = handed vm vm.free gone ∧
      (Reclaims vm maxBytes bytes gone left ↔
        ∀ node ∈ order.reverse.take ((maxBytes + vmPageSize - 1) / vmPageSize),
          (vm.yielded node).pages = 1) := by
  obtain ⟨vm', gone, left, result, split, frees, reason, needed⟩ :=
    freeYieldedLoop_ok maxBytes 0 books (Nat.le_add_left _ _)
  obtain ⟨-, log, -⟩ := frees.swept books split
  simp only [Nat.zero_add] at result reason needed
  refine ⟨_, vm', gone, left, result, split, log, frees.handed books split, ?_⟩
  rw [← gone_eq split reason needed]
  have sized' : ∀ node ∈ gone, 1 ≤ (vm.yielded node).pages := by
    intro node member
    have inOrder : node ∈ order.reverse := split ▸ List.mem_append_left left member
    exact sized node (List.mem_reverse.mp inOrder)
  constructor
  · intro reclaims
    have counted := reclaims.counted
    rw [Nat.mul_comm] at counted
    have size : 0 < vmPageSize := by decide
    exact (pagesOf_large sized').2 (Nat.eq_of_mul_eq_mul_left size counted).symm
  · intro ones
    have total := pagesOf_ones ones
    refine ⟨by rw [total, Nat.mul_comm], ?_, fun before first proper => ?_⟩
    · rw [total, Nat.mul_comm]
      exact reason
    · obtain ⟨rest, rfl⟩ := first
      have more : rest ≠ [] := by
        rintro rfl
        exact proper (List.append_nil before).symm
      have own := pagesOf_ones fun node member => ones node (List.mem_append_left rest member)
      have count := List.length_pos_iff.mpr more
      rw [own, Nat.mul_comm]
      rcases needed with none | needed
      · exact absurd (List.append_eq_nil_iff.mp none).2 more
      · refine Nat.lt_of_le_of_lt (Nat.mul_le_mul_right _ ?_) needed
        rw [List.length_append]
        omega

theorem reclaims_iff_small : ∃ vm, ∃ order : List Ptr,
    Runs.run (next smallHeader) (.ok smallStart)
      [small 5 (BitVec.allOnes 64) 0 4096, small 6 (BitVec.allOnes 64) 1 8192] = .ok vm ∧
    ∃ bytes vm' gone left, freeYielded smallHeader vm 4096 = .ok (bytes, vm') ∧
      order.reverse = gone ++ left ∧ vm'.freed = vm.freed ++ gone ∧
      vm'.free = handed vm vm.free gone ∧
      (Reclaims vm 4096 bytes gone left ↔ ∀ node ∈ order.reverse.take 1,
        (vm.yielded node).pages = 1) := by
  have sizes : (Runs.run (next smallHeader) (.ok smallStart)
      [small 5 (BitVec.allOnes 64) 0 4096, small 6 (BitVec.allOnes 64) 1 8192]).map (fun vm =>
        (vm.newYielded, (vm.yielded 0).pages, (vm.yielded 1).pages)) = .ok (2, 1, 2) := by
    decide
  cases reached : Runs.run (next smallHeader) (.ok smallStart)
      [small 5 (BitVec.allOnes 64) 0 4096, small 6 (BitVec.allOnes 64) 1 8192] with
  | error stop =>
      rw [reached] at sizes
      cases sizes
  | ok vm =>
      rw [reached] at sizes
      obtain ⟨count, first, second⟩ : vm.newYielded = 2 ∧ (vm.yielded 0).pages = 1 ∧
        (vm.yielded 1).pages = 2 := by simpa using Except.ok.inj sizes
      obtain ⟨order, books, -⟩ := bookkeeping smallStart_empty _ reached
      refine ⟨vm, order, rfl, reclaims_iff books (fun node member => ?_) 4096⟩
      have small := books.fresh node member
      rw [count] at small
      rcases Nat.le_one_iff_eq_zero_or_eq_one.mp (Nat.le_of_lt_succ small) with rfl | rfl
      · exact first.ge
      · omega

/-- A block of two pages is freed for a request of two pages, and then the block of one page. -/
theorem two_pages_counted_once : ∃ vm, ∃ order : List Ptr,
    Runs.run (next smallHeader) (.ok smallStart)
      [small 6 (BitVec.allOnes 64) 1 8192, small 5 (BitVec.allOnes 64) 0 4096] = .ok vm ∧
    Books smallHeader vm order ∧
    (freeYielded smallHeader vm 8192).map (fun result => (result.1, result.2.freed)) =
      .ok (8192, [0, 1]) ∧
    pagesOf vm [0] = 2 ∧ pagesOf vm [0, 1] = 3 ∧ ¬ Reclaims vm 8192 8192 [0, 1] [] := by
  have sizes : (Runs.run (next smallHeader) (.ok smallStart)
      [small 6 (BitVec.allOnes 64) 1 8192, small 5 (BitVec.allOnes 64) 0 4096]).map (fun vm =>
        ((vm.yielded 0).pages, (vm.yielded 1).pages, (freeYielded smallHeader vm 8192).map
          fun result => (result.1, result.2.freed))) = .ok (2, 1, .ok (8192, [0, 1])) := by
    decide +kernel
  cases reached : Runs.run (next smallHeader) (.ok smallStart)
      [small 6 (BitVec.allOnes 64) 1 8192, small 5 (BitVec.allOnes 64) 0 4096] with
  | error stop =>
      rw [reached] at sizes
      cases sizes
  | ok vm =>
      rw [reached] at sizes
      obtain ⟨first, second, freed⟩ : (vm.yielded 0).pages = 2 ∧ (vm.yielded 1).pages = 1 ∧
        (freeYielded smallHeader vm 8192).map (fun result => (result.1, result.2.freed)) =
          .ok (8192, [0, 1]) := by simpa using Except.ok.inj sizes
      obtain ⟨order, books, -⟩ := bookkeeping smallStart_empty _ reached
      have two : pagesOf vm [0] = 2 := by simp [pagesOf, first]
      have three : pagesOf vm [0, 1] = 3 := by simp [pagesOf, first, second]
      refine ⟨vm, order, rfl, books, freed, two, three, fun reclaims => ?_⟩
      have counted := reclaims.counted
      rw [three] at counted
      exact absurd counted (by decide)

end Ve482.Vm
