import Mathlib.Data.List.TakeWhile

set_option autoImplicit false

/- The system call that lists the children of its caller. -/
namespace Ve482.Children

/-- A slot of the process table. -/
structure Mproc where
  mpParent : Int
  mpPid : Int
deriving DecidableEq

/-- An index is not one of the table or of `childpid`. -/
inductive Fault where
  | outside
deriving DecidableEq, Repr

variable {nrProcs : Nat}

/-- `*childpid=pid`, at an index of the caller's array. -/
def store (pids : List Int) (i : Nat) (pid : Int) : Except Fault (List Int) :=
  if i < pids.length then .ok (pids.set i pid) else .error .outside

/-- `childpid` is none for NULL, or points to an index of the caller's array. -/
def getnchpid (mproc : Vector Mproc nrProcs) (who_p : Int) (n : Nat) (childpid : Option Nat)
    (pids : List Int) : Except Fault (Int × List Int) :=
  match childpid with
  | none => return (-1, pids)
  | some i =>
      if n > nrProcs then return (-1, pids)
      else
        match mproc[n]? with
        | none => .error .outside
        | some rmc =>
            if rmc.mpParent ≠ who_p then return (-1, pids)
            else do
              let pids ← store pids i rmc.mpPid
              return (0, pids)

/-- `for (index = 0; index < n; index++)`, with `count` values of `index` to come. -/
def childLoop (mproc : Vector Mproc nrProcs) (who_p : Int) (childpid : Option Nat) :
    (count index : Nat) → List Int → Except Fault (Int × List Int)
  | 0, index, pids => return (index, pids)
  | count + 1, index, pids => do
      let (result, pids) ← getnchpid mproc who_p index (childpid.map (· + index)) pids
      if result ≠ 0 then return (-1, pids)
      else childLoop mproc who_p childpid count (index + 1) pids

def getchpids (mproc : Vector Mproc nrProcs) (who_p : Int) (n : Nat) (childpid : Option Nat)
    (pids : List Int) : Except Fault (Int × List Int) :=
  childLoop mproc who_p childpid n 0 pids

/-- The children of a process, in the order of their slots. -/
def children (mproc : Vector Mproc nrProcs) (who_p : Int) : List Mproc :=
  mproc.toList.filter (·.mpParent = who_p)

/-- The call stays inside the table, returns how many of the children there is room for and has
stored their pids. -/
def ListsChildren (mproc : Vector Mproc nrProcs) (who_p : Int) (n : Nat) (pids : List Int) :
    Prop :=
  ∃ after, getchpids mproc who_p n (some 0) pids =
      .ok ((min n (children mproc who_p).length : Nat), after) ∧
    after.take (min n (children mproc who_p).length) =
      ((children mproc who_p).take n).map Mproc.mpPid

section

variable (mproc : Vector Mproc nrProcs) (who_p : Int)

theorem getnchpid_inside {n i : Nat} (inside : n < nrProcs) {pids : List Int}
    (room : i < pids.length) :
    getnchpid mproc who_p n (some i) pids =
      if mproc[n].mpParent = who_p then .ok (0, pids.set i mproc[n].mpPid) else .ok (-1, pids) := by
  have read : mproc[n]? = some mproc[n] := Vector.getElem?_eq_getElem inside
  simp only [getnchpid, Nat.not_lt.mpr (Nat.le_of_lt inside), if_false, read]
  by_cases child : mproc[n].mpParent = who_p
  · simp only [child, ne_eq, not_true_eq_false, if_false, if_true, store, room]
    rfl
  · simp only [child, ne_eq, not_false_eq_true, if_true, if_false]
    rfl

/-- Inside the table the pids are stored up to the first slot that is not a child's. -/
theorem childLoop_inside {index : Nat} {slots rest : List Mproc}
    (table : mproc.toList.drop index = slots ++ rest) {before hole : List Int}
    (stored : before.length = index) (room : slots.length ≤ hole.length) :
    childLoop mproc who_p (some 0) slots.length index (before ++ hole) =
      .ok (if ∀ slot ∈ slots, slot.mpParent = who_p then ((index + slots.length : Nat) : Int)
          else -1,
        before ++ (slots.takeWhile (·.mpParent = who_p)).map Mproc.mpPid ++
          hole.drop (slots.takeWhile (·.mpParent = who_p)).length) := by
  induction slots generalizing index before hole with
  | nil =>
      simp only [List.length_nil, childLoop, List.takeWhile_nil, List.map_nil, List.append_nil,
        List.drop_zero, List.not_mem_nil, false_implies, implies_true, if_true, Nat.add_zero]
      rfl
  | cons slot slots ih =>
      obtain ⟨free, hole, rfl⟩ :=
        List.exists_cons_of_length_pos (Nat.lt_of_lt_of_le (Nat.succ_pos slots.length) room)
      have below : index < nrProcs := by
        have length := congrArg List.length table
        rw [List.length_drop, Vector.length_toList, List.cons_append, List.length_cons] at length
        omega
      have inside : index < mproc.toList.length := by rwa [Vector.length_toList]
      rw [List.drop_eq_getElem_cons inside, List.cons_append, List.cons.injEq,
        Vector.getElem_toList] at table
      obtain ⟨here, table⟩ := table
      have fits : index < (before ++ free :: hole).length := by
        rw [List.length_append, List.length_cons]
        omega
      rw [List.length_cons, childLoop, Option.map_some, Nat.zero_add,
        getnchpid_inside mproc who_p below fits, here]
      by_cases child : slot.mpParent = who_p
      · have write : (before ++ free :: hole).set index slot.mpPid =
            (before ++ [slot.mpPid]) ++ hole := by
          rw [← stored, List.set_append_right _ _ (Nat.le_refl _), Nat.sub_self, List.append_assoc]
          rfl
        have stored' : (before ++ [slot.mpPid]).length = index + 1 := by
          rw [List.length_append, List.length_singleton, stored]
        have later := ih table stored' (Nat.le_of_succ_le_succ room)
        have count : index + 1 + slots.length = index + (slots.length + 1) := by omega
        have first : (slot :: slots).takeWhile (·.mpParent = who_p) =
            slot :: slots.takeWhile (·.mpParent = who_p) :=
          List.takeWhile_cons_of_pos (decide_eq_true child)
        rw [if_pos child, write]
        change childLoop mproc who_p (some 0) slots.length (index + 1) _ = _
        rw [later, first, count]
        simp only [List.mem_cons, forall_eq_or_imp, child, true_and, List.map_cons,
          List.length_cons, List.drop_succ_cons, List.append_assoc, List.cons_append,
          List.nil_append]
      · have notAll : ¬ ∀ other ∈ slot :: slots, other.mpParent = who_p := fun all =>
          child (all slot List.mem_cons_self)
        have none : (slot :: slots).takeWhile (·.mpParent = who_p) = [] :=
          List.takeWhile_cons_of_neg (by simpa using child)
        rw [if_neg child, if_neg notAll, none]
        simp only [List.map_nil, List.append_nil, List.length_nil, List.drop_zero]
        rfl

/-- With more slots to come than the table has left, no run returns a count. -/
theorem childLoop_beyond {count index : Nat} (inside : index ≤ nrProcs)
    (beyond : nrProcs < index + count) {pids : List Int} (room : index + count ≤ pids.length)
    {result : Int} {after : List Int}
    (run : childLoop mproc who_p (some 0) count index pids = .ok (result, after)) :
    result = -1 := by
  induction count generalizing index pids with
  | zero => exact absurd inside (Nat.not_le.mpr beyond)
  | succ count ih =>
      rw [childLoop, Option.map_some, Nat.zero_add] at run
      rcases Nat.lt_or_eq_of_le inside with below | rfl
      · rw [getnchpid_inside mproc who_p below (show index < pids.length by omega)] at run
        by_cases child : mproc[index].mpParent = who_p
        · rw [if_pos child] at run
          have room' : index + 1 + count ≤ (pids.set index mproc[index].mpPid).length := by
            rw [List.length_set]
            omega
          exact ih below (by omega) room' run
        · rw [if_neg child] at run
          cases run
          rfl
      · -- the check lets the index behind the last one through
        have unread : getnchpid mproc who_p index (some index) pids = .error .outside := by
          have none : mproc[index]? = none := Vector.getElem?_eq_none (Nat.le_refl _)
          simp only [getnchpid, Nat.lt_irrefl, gt_iff_lt, if_false, none]
        rw [unread] at run
        cases run

/-- Children that come first in the table are the first children. -/
theorem children_first {n : Nat} (first : ∀ slot ∈ mproc.toList.take n, slot.mpParent = who_p) :
    children mproc who_p =
      mproc.toList.take n ++ (mproc.toList.drop n).filter (·.mpParent = who_p) := by
  have all : (mproc.toList.take n).filter (·.mpParent = who_p) = mproc.toList.take n :=
    List.filter_eq_self.mpr fun slot member => decide_eq_true (first slot member)
  have whole : (mproc.toList.take n ++ mproc.toList.drop n).filter (·.mpParent = who_p) = _ :=
    List.filter_append _ _
  rwa [List.take_append_drop, all] at whole

/-- The children are listed exactly when they come first in the table. -/
theorem getchpids_lists_iff {n : Nat} {pids : List Int} (room : n ≤ pids.length) :
    ListsChildren mproc who_p n pids ↔
      n ≤ nrProcs ∧ ∀ slot ∈ mproc.toList.take n, slot.mpParent = who_p := by
  have split : mproc.toList.drop 0 = mproc.toList.take n ++ mproc.toList.drop n := by
    rw [List.drop_zero, List.take_append_drop]
  have loop (small : n ≤ nrProcs) : getchpids mproc who_p n (some 0) pids =
      .ok (if ∀ slot ∈ mproc.toList.take n, slot.mpParent = who_p then (n : Int) else -1,
        ((mproc.toList.take n).takeWhile (·.mpParent = who_p)).map Mproc.mpPid ++
          pids.drop ((mproc.toList.take n).takeWhile (·.mpParent = who_p)).length) := by
    have length : (mproc.toList.take n).length = n := by
      rw [List.length_take, Vector.length_toList, Nat.min_eq_left small]
    have inside := childLoop_inside mproc who_p split List.length_nil (by rwa [length])
    rw [length, List.nil_append, List.nil_append, Nat.zero_add] at inside
    exact inside
  constructor
  · rintro ⟨after, run, -⟩
    have small : n ≤ nrProcs := by
      by_contra beyond
      have failed := childLoop_beyond mproc who_p (Nat.zero_le nrProcs)
        (by rw [Nat.zero_add]; exact Nat.lt_of_not_le beyond) (by rwa [Nat.zero_add]) run
      omega
    refine ⟨small, ?_⟩
    by_contra other
    rw [loop small, if_neg other, Except.ok.injEq, Prod.mk.injEq] at run
    omega
  · rintro ⟨small, first⟩
    have length : (mproc.toList.take n).length = n := by
      rw [List.length_take, Vector.length_toList, Nat.min_eq_left small]
    have listed := children_first mproc who_p first
    have least : min n (children mproc who_p).length = n := by
      rw [listed, List.length_append, length]
      omega
    have whole : (mproc.toList.take n).takeWhile (·.mpParent = who_p) = mproc.toList.take n :=
      List.takeWhile_eq_self_iff.mpr fun slot member => decide_eq_true (first slot member)
    have run := loop small
    rw [if_pos first, whole] at run
    refine ⟨_, by rw [run, least], ?_⟩
    rw [least, listed, List.take_left' (by rw [List.length_map, length]), List.take_left' length]

end

/-- The first process has slot 0, and its only child slot 1. -/
def oneChild : Vector Mproc 2 := #v[⟨1, 1⟩, ⟨0, 7⟩]

theorem getchpids_lists_iff_oneChild :
    ListsChildren oneChild 0 1 [0] ↔
      1 ≤ 2 ∧ ∀ slot ∈ oneChild.toList.take 1, slot.mpParent = 0 :=
  getchpids_lists_iff oneChild 0 (by decide)

/-- The search gives up at the first slot that is not a child's. -/
theorem oneChild_not_listed :
    getchpids oneChild 0 1 (some 0) [0] = .ok (-1, [0]) ∧
      children oneChild 0 = [⟨0, 7⟩] ∧ ¬ ListsChildren oneChild 0 1 [0] := by
  have outcome : getchpids oneChild 0 1 (some 0) [0] = .ok (-1, [0]) := rfl
  refine ⟨outcome, by decide, ?_⟩
  rintro ⟨after, run, -⟩
  rw [outcome, Except.ok.injEq, Prod.mk.injEq] at run
  omega

end Ve482.Children
