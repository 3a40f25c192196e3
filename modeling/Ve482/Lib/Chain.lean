import Mathlib.Data.List.Nodup
import Mathlib.Logic.Function.Basic

set_option autoImplicit false

namespace Ve482.Chain

open Function (update)

variable {ν : Type} {next prev : ν → Option ν} {head tail : Option ν} {nodes : List ν}

/-- Following `next` from `head` visits exactly `nodes` and comes to `tail`. -/
def Path (next : ν → Option ν) : Option ν → List ν → Option ν → Prop
  | head, [], tail => head = tail
  | head, node :: nodes, tail => head = some node ∧ Path next (next node) nodes tail

theorem path_append {left right : List ν} :
    Path next head (left ++ right) tail ↔
      ∃ middle, Path next head left middle ∧ Path next middle right tail := by
  induction left generalizing head with
  | nil => exact ⟨fun path => ⟨head, rfl, path⟩, fun ⟨_, same, path⟩ => same ▸ path⟩
  | cons node left ih =>
      rw [List.cons_append, Path, ih]
      constructor
      · rintro ⟨first, middle, before, after⟩
        exact ⟨middle, ⟨first, before⟩, after⟩
      · rintro ⟨middle, ⟨first, before⟩, after⟩
        exact ⟨first, middle, before, after⟩

theorem path_concat {last : ν} :
    Path next head (nodes ++ [last]) tail ↔
      Path next head nodes (some last) ∧ next last = tail := by
  rw [path_append]
  constructor
  · rintro ⟨middle, before, same, after⟩
    exact ⟨same ▸ before, after⟩
  · rintro ⟨before, after⟩
    exact ⟨some last, before, rfl, after⟩

theorem Path.head_eq (path : Path next head nodes none) : head = nodes.head? := by
  cases nodes with
  | nil => exact path
  | cons node nodes => exact path.1

theorem Path.congr {next' : ν → Option ν} (path : Path next head nodes tail)
    (agree : ∀ node ∈ nodes, next' node = next node) : Path next' head nodes tail := by
  induction nodes generalizing head with
  | nil => exact path
  | cons node nodes ih =>
      refine ⟨path.1, ?_⟩
      rw [agree node List.mem_cons_self]
      exact ih path.2 fun other member => agree other (List.mem_cons_of_mem node member)

variable [DecidableEq ν]

theorem Path.update {node : ν} {value : Option ν} (path : Path next head nodes tail)
    (outside : node ∉ nodes) : Path (update next node value) head nodes tail := by
  apply path.congr
  intro other member
  have different : other ≠ node := fun same => outside (same ▸ member)
  rw [Function.update_of_ne different]

omit [DecidableEq ν] in
/-- The nodes that are visited from a pointer up to the end are determined by the pointer. -/
theorem Path.unique {others : List ν} (path : Path next head nodes none)
    (other : Path next head others none) : nodes = others := by
  induction nodes generalizing head others with
  | nil =>
      cases others with
      | nil => rfl
      | cons node others =>
          have same : none = some node := path.symm.trans other.1
          cases same
  | cons node nodes ih =>
      cases others with
      | nil =>
          have same : some node = none := path.1.symm.trans other
          cases same
      | cons node' others =>
          have same : node = node' := Option.some.inj (path.1.symm.trans other.1)
          subst same
          rw [ih path.2 other.2]

omit [DecidableEq ν] in
/-- A chain that comes to an end is acyclic. -/
theorem Path.nodup (path : Path next head nodes none) : nodes.Nodup := by
  induction nodes generalizing head with
  | nil => exact List.nodup_nil
  | cons node nodes ih =>
      refine List.nodup_cons.mpr ⟨fun again => ?_, ih path.2⟩
      obtain ⟨left, right, same⟩ := List.append_of_mem again
      have rest := path.2
      rw [same, path_append] at rest
      obtain ⟨middle, -, first, after⟩ := rest
      have whole : Path next (some node) (node :: nodes) none := ⟨rfl, path.2⟩
      have again : Path next (some node) (node :: right) none := ⟨rfl, after⟩
      have length := congrArg List.length (whole.unique again)
      rw [same] at length
      simp at length
      omega

/-- Follow `next` to the first wanted node. The outer `none` is a search that has used up its
fuel. -/
def find (next : ν → Option ν) (wanted : ν → Bool) : Nat → Option ν → Option (Option ν)
  | _, none => some none
  | 0, some _ => none
  | fuel + 1, some node =>
      if wanted node then some (some node) else find next wanted fuel (next node)

omit [DecidableEq ν] in
theorem find_eq (wanted : ν → Bool) {fuel : Nat} (path : Path next head nodes none)
    (enough : nodes.length ≤ fuel) : find next wanted fuel head = some (nodes.find? wanted) := by
  induction nodes generalizing head fuel with
  | nil =>
      have empty : head = none := path
      subst empty
      cases fuel <;> rfl
  | cons node nodes ih =>
      obtain ⟨first, rest⟩ := path
      subst first
      cases fuel with
      | zero => exact absurd enough (by simp)
      | succ fuel =>
          rw [List.length_cons] at enough
          rw [find, ih rest (by omega), List.find?_cons]
          cases wanted node <;> rfl

/-- The node before `node` is the first one whose successor is `node`. -/
theorem find_before {node : ν} {left right : List ν}
    (path : Path next head (left ++ node :: right) none) (notFirst : left ≠ []) :
    (left ++ node :: right).find? (fun before => decide (next before = some node)) =
      left.getLast? := by
  induction left generalizing head with
  | nil => exact absurd rfl notFirst
  | cons first left ih =>
      have distinct := path.nodup
      obtain ⟨-, rest⟩ := path
      cases left with
      | nil =>
          have found : next first = some node := rest.1
          rw [List.cons_append, List.find?_cons, found]
          simp
      | cons second left =>
          have successor : next first = some second := rest.1
          have different : second ≠ node := by
            rintro rfl
            simp at distinct
          rw [List.cons_append, List.find?_cons, successor]
          simp only [Option.some.injEq, different, decide_false]
          rw [ih rest (List.cons_ne_nil second left)]
          simp

/-- The pointers after the node between `before` and `after` has been taken out. -/
def bypass (next : ν → Option ν) (before after : Option ν) : ν → Option ν :=
  match before with
  | some before => update next before after
  | none => next

def bypassHead (head before after : Option ν) : Option ν :=
  match before with
  | some _ => head
  | none => after

theorem bypass_of_ne {before after : Option ν} {node : ν} (different : before ≠ some node) :
    bypass next before after node = next node := by
  cases before with
  | none => rfl
  | some before =>
      have other : node ≠ before := fun same => different (congrArg some same.symm)
      rw [bypass, Function.update_of_ne other]

theorem Path.bypass {node : ν} {left right : List ν}
    (path : Path next head (left ++ node :: right) none) :
    Path (bypass next left.getLast? (next node)) (bypassHead head left.getLast? (next node))
      (left ++ right) none := by
  have distinct := path.nodup
  obtain ⟨middle, before, first, after⟩ := path_append.mp path
  rcases List.eq_nil_or_concat left with rfl | ⟨init, last, rfl⟩
  · exact after
  · rw [List.concat_eq_append] at before distinct ⊢
    rw [List.getLast?_concat]
    obtain ⟨upTo, link⟩ := path_concat.mp before
    have apart : last ∉ init ∧ last ∉ right := by
      simp only [List.append_assoc, List.nodup_append, List.nodup_cons, List.mem_append,
        List.mem_cons] at distinct
      refine ⟨fun member => ?_, fun member => ?_⟩
      · exact distinct.2.2 last member last (Or.inl (Or.inl rfl)) rfl
      · exact distinct.2.1.2.2 last (Or.inl rfl) last (Or.inr member) rfl
    refine path_append.mpr ⟨next node, ?_, after.update apart.2⟩
    refine path_concat.mpr ⟨upTo.update apart.1, ?_⟩
    rw [Chain.bypass, Function.update_self]

theorem Path.push {node : ν} (path : Path next head nodes none) (outside : node ∉ nodes) :
    Path (Function.update next node head) (some node) (node :: nodes) none := by
  refine ⟨rfl, ?_⟩
  rw [Function.update_self]
  exact path.update outside

theorem Path.pushBack {node : ν} (path : Path next head nodes none) (outside : node ∉ nodes) :
    Path (Chain.bypass (Function.update next node none) nodes.getLast? (some node))
      (bypassHead head nodes.getLast? (some node)) (nodes ++ [node]) none := by
  rcases List.eq_nil_or_concat nodes with rfl | ⟨init, last, rfl⟩
  · have last : Function.update next node none node = none := Function.update_self node none next
    exact ⟨rfl, last⟩
  · rw [List.concat_eq_append] at path outside ⊢
    rw [List.getLast?_concat]
    have distinct := path.nodup
    obtain ⟨upTo, -⟩ := path_concat.mp path
    have apart : last ∉ init := by
      intro member
      rw [List.nodup_append] at distinct
      exact distinct.2.2 last member last List.mem_cons_self rfl
    have fresh : node ∉ init := fun member => outside (List.mem_append_left _ member)
    have different : node ≠ last := by
      rintro rfl
      exact outside (List.mem_append_right _ List.mem_cons_self)
    refine path_concat.mpr ⟨path_concat.mpr ⟨(upTo.update fresh).update apart, ?_⟩, ?_⟩
    · rw [Chain.bypass, Function.update_self]
    · rw [Chain.bypass, Function.update_of_ne different, Function.update_self]

/-! Chains that are linked in both directions. -/

/-- `next` from `front` and `prev` from `rear` visit the same nodes, in opposite orders. -/
structure Linked (next prev : ν → Option ν) (front rear : Option ν) (nodes : List ν) : Prop where
  forward : Path next front nodes none
  backward : Path prev rear nodes.reverse none

variable {front rear : Option ν}

omit [DecidableEq ν] in
theorem Linked.congr {next' prev' : ν → Option ν} (linked : Linked next prev front rear nodes)
    (agree : ∀ node ∈ nodes, next' node = next node ∧ prev' node = prev node) :
    Linked next' prev' front rear nodes :=
  ⟨linked.forward.congr fun node member => (agree node member).1,
    linked.backward.congr fun node member => (agree node (List.mem_reverse.mp member)).2⟩

omit [DecidableEq ν] in
theorem Linked.flip (linked : Linked next prev front rear nodes) :
    Linked prev next rear front nodes.reverse :=
  ⟨linked.backward, (List.reverse_reverse nodes).symm ▸ linked.forward⟩

omit [DecidableEq ν] in
theorem Linked.next_eq {node : ν} {left right : List ν}
    (linked : Linked next prev front rear (left ++ node :: right)) : next node = right.head? := by
  obtain ⟨_, -, -, after⟩ := path_append.mp linked.forward
  exact after.head_eq

omit [DecidableEq ν] in
theorem Linked.prev_eq {node : ν} {left right : List ν}
    (linked : Linked next prev front rear (left ++ node :: right)) : prev node = left.getLast? := by
  have flipped := linked.flip
  rw [List.reverse_append, List.reverse_cons, List.append_assoc] at flipped
  rw [flipped.next_eq]
  exact List.head?_reverse

/-- The neighbours of a node point back at it, and a node that lacks one is at that end. -/
structure Paired (next prev : ν → Option ν) (front rear : Option ν) (node : ν) : Prop where
  before : ∀ other, prev node = some other → next other = some node
  first : prev node = none → front = some node
  after : ∀ other, next node = some other → prev other = some node
  last : next node = none → rear = some node

omit [DecidableEq ν] in
theorem Linked.paired {node : ν} (linked : Linked next prev front rear nodes)
    (member : node ∈ nodes) : Paired next prev front rear node := by
  obtain ⟨left, right, rfl⟩ := List.append_of_mem member
  refine ⟨fun other before => ?_, fun first => ?_, fun other after => ?_, fun last => ?_⟩
  · rw [linked.prev_eq] at before
    obtain ⟨init, rfl⟩ := List.getLast?_eq_some_iff.mp before
    rw [List.append_assoc, List.singleton_append] at linked
    exact linked.next_eq
  · rw [linked.prev_eq, List.getLast?_eq_none_iff] at first
    subst first
    exact linked.forward.head_eq
  · rw [linked.next_eq] at after
    obtain ⟨rest, rfl⟩ := List.head?_eq_some_iff.mp after
    rw [← List.singleton_append, ← List.append_assoc] at linked
    rw [linked.prev_eq, List.getLast?_concat]
  · rw [linked.next_eq, List.head?_eq_none_iff] at last
    subst last
    rw [linked.backward.head_eq, List.head?_reverse, List.getLast?_concat]

omit [DecidableEq ν] in
/-- A path whose nodes are paired with those after them can be followed back. -/
theorem Path.back {node : ν} (path : Path next (some node) (node :: nodes) none)
    (after : ∀ left ∈ node :: nodes, ∀ right, next left = some right → prev right = some left)
    (last : ∀ left ∈ node :: nodes, next left = none → rear = some left) :
    Path prev rear (node :: nodes).reverse (prev node) := by
  induction nodes generalizing node with
  | nil => exact ⟨last node List.mem_cons_self path.2, rfl⟩
  | cons second rest ih =>
      have step : next node = some second := path.2.1
      have inner := path.2
      rw [step] at inner
      have back := ih inner (fun left member => after left (List.mem_cons_of_mem _ member))
        fun left member => last left (List.mem_cons_of_mem _ member)
      rw [after node List.mem_cons_self second step] at back
      rw [List.reverse_cons]
      exact path_concat.mpr ⟨back, rfl⟩

omit [DecidableEq ν] in
/-- To check a chain that is linked in both directions, it is enough to follow one of them. -/
theorem linked_iff_paired {node oldest : ν} :
    Linked next prev (some node) (some oldest) nodes ↔ Path next (some node) nodes none ∧
      prev node = none ∧ ∀ other ∈ nodes, Paired next prev (some node) (some oldest) other := by
  constructor
  · intro linked
    refine ⟨linked.forward, ?_, fun other => linked.paired⟩
    cases nodes with
    | nil => cases linked.forward
    | cons first nodes =>
        obtain rfl := Option.some.inj linked.forward.1
        have unlinked : Linked next prev (some node) (some oldest) ([] ++ node :: nodes) := linked
        exact unlinked.prev_eq
  · rintro ⟨path, first, paired⟩
    refine ⟨path, ?_⟩
    cases nodes with
    | nil => cases path
    | cons other nodes =>
        obtain rfl := Option.some.inj path.1
        have back : Path prev (some oldest) (node :: nodes).reverse (prev node) :=
          path.back (fun left member => (paired left member).after)
            fun left member => (paired left member).last
        rwa [first] at back

/-- Unlinking a node through its own two pointers. -/
theorem Linked.unlink {node : ν} {left right : List ν}
    (linked : Linked next prev front rear (left ++ node :: right)) :
    Linked (bypass next (prev node) (next node)) (bypass prev (next node) (prev node))
      (bypassHead front (prev node) (next node)) (bypassHead rear (next node) (prev node))
      (left ++ right) := by
  constructor
  · rw [linked.prev_eq]
    exact linked.forward.bypass
  · have backward := linked.backward
    rw [List.reverse_append, List.reverse_cons, List.append_assoc] at backward
    have bypassed := backward.bypass
    rw [List.getLast?_reverse, ← linked.next_eq] at bypassed
    rw [List.reverse_append]
    exact bypassed

/-- Linking a node in behind the last one. -/
theorem Linked.pushBack {node : ν} (linked : Linked next prev front rear nodes)
    (outside : node ∉ nodes) :
    Linked (bypass (update next node none) rear (some node)) (update prev node rear)
      (bypassHead front rear (some node)) (some node) (nodes ++ [node]) := by
  have last : rear = nodes.getLast? := by
    rw [linked.backward.head_eq, List.head?_reverse]
  constructor
  · rw [last]
    exact linked.forward.pushBack outside
  · rw [List.reverse_append]
    exact linked.backward.push fun member => outside (List.mem_reverse.mp member)

/-- Linking a node in before the first one. -/
theorem Linked.pushFront {node : ν} (linked : Linked next prev front rear nodes)
    (outside : node ∉ nodes) :
    Linked (update next node front) (bypass (update prev node none) front (some node))
      (some node) (bypassHead rear front (some node)) (node :: nodes) := by
  have pushed := (linked.flip.pushBack fun member => outside (List.mem_reverse.mp member)).flip
  rwa [List.reverse_append, List.reverse_reverse] at pushed

end Ve482.Chain
