import Ve482.Lib.Greedy
import Mathlib.Algebra.BigOperators.Group.Finset.Basic
import Mathlib.Algebra.BigOperators.Ring.Finset
import Mathlib.Algebra.Order.BigOperators.Group.Finset
import Mathlib.Data.Fin.VecNotation

set_option autoImplicit false

namespace Ve482.Banker

/-- `S_FAIL`, `S_RUNNING` and `S_SUCCESS`. -/
inductive ExitStatus
  | fail
  | running
  | success
  deriving DecidableEq, Repr

def unreachable : Int := -1

abbrev Matrix (P n : Nat) := Fin P → Fin (n + 1) → Int

/-- The globals and the locals of `main`, for `P` processes and `n + 1` resources. `assigned` is
a history: every value that an assignment has stored in an entry of `A`. -/
structure State (P n : Nat) where
  M : Matrix P n
  R : Matrix P n
  A : Fin (n + 1) → Int
  remainingPs : Int
  exitStatus : ExitStatus
  assigned : List Int

variable {P n : Nat}

def State.setA (s : State P n) (j : Fin (n + 1)) (value : Int) : State P n :=
  { s with A := Function.update s.A j value, assigned := value :: s.assigned }

/-- `for (j = 0; j < RS_CNT; j++) A[j] = change(j, A[j]);` -/
def State.forA (change : Fin (n + 1) → Int → Int) (s : State P n) : State P n :=
  (List.finRange (n + 1)).foldl (fun s j => s.setA j (change j (s.A j))) s

def isSatisfy (s : State P n) (i : Fin P) : Bool :=
  (List.finRange (n + 1)).foldl (fun satisfied j => if s.A j < s.R i j then false else satisfied)
    true

/-- Execute the process, allocating its requested resources. -/
def allocate (s : State P n) (i : Fin P) : State P n :=
  s.forA fun j a => a - s.R i j

/-- Exit the process. -/
def exitProcess (s : State P n) (i : Fin P) : State P n :=
  s.forA fun j a => a + s.M i j

/-- `R[i][0] = UNREACHABLE; remainingPs--;` -/
def markDone (s : State P n) (i : Fin P) : State P n :=
  { s with
    R := Function.update s.R i (Function.update (s.R i) 0 unreachable)
    remainingPs := s.remainingPs - 1 }

/-- The body of the scan over the processes. The flag is `isFound`. -/
def visit (found : Bool × State P n) (i : Fin P) : Bool × State P n :=
  if found.2.R i 0 = unreachable then found
  else if isSatisfy found.2 i then
    (true, markDone (exitProcess (allocate found.2 i) i) i)
  else found

def scan (s : State P n) : Bool × State P n :=
  (List.finRange P).foldl visit (false, s)

/-- The body of the `while` loop. -/
def round (s : State P n) : State P n :=
  let found := scan s
  let s := if found.1 then found.2 else { found.2 with exitStatus := .fail }
  if s.remainingPs ≤ 0 then { s with exitStatus := .success } else s

/-- `while (exitStatus == S_RUNNING)`, for at most `fuel` rounds. -/
def loop : Nat → State P n → State P n
  | 0, s => s
  | fuel + 1, s => if s.exitStatus = .running then loop fuel (round s) else s

def start (M R : Matrix P n) (A : Fin (n + 1) → Int) : State P n :=
  { M, R, A, remainingPs := P, exitStatus := .running, assigned := [] }

/-- Each process of the list in turn can have what it requests, and then returns all it holds. -/
inductive Completes (M R : Matrix P n) : (Fin (n + 1) → Int) → List (Fin P) → Prop
  | nil (available : Fin (n + 1) → Int) : Completes M R available []
  | cons {available : Fin (n + 1) → Int} {i : Fin P} {rest : List (Fin P)}
      (enough : ∀ j, R i j ≤ available j)
      (later : Completes M R (fun j => available j + (M i j - R i j)) rest) :
      Completes M R available (i :: rest)

/-- There is an order of all processes in which each can finish. -/
def Safe (M R : Matrix P n) (A : Fin (n + 1) → Int) : Prop :=
  ∃ order : List (Fin P), order.Perm (List.finRange P) ∧ Completes M R A order

section Available

variable (M R : Matrix P n) (A : Fin (n + 1) → Int)

def available (finished : Finset (Fin P)) (j : Fin (n + 1)) : Int :=
  A j + ∑ i ∈ finished, (M i j - R i j)

def Ready (finished : Finset (Fin P)) (i : Fin P) : Prop :=
  ∀ j, R i j ≤ available M R A finished j

theorem available_insert {finished : Finset (Fin P)} {i : Fin P} (new : i ∉ finished)
    (j : Fin (n + 1)) :
    available M R A (insert i finished) j = available M R A finished j + (M i j - R i j) := by
  unfold available
  rw [Finset.sum_insert new]
  omega

theorem completes_iff_runs {finished : Finset (Fin P)} {order : List (Fin P)}
    (nodup : order.Nodup) (fresh : ∀ i ∈ order, i ∉ finished) :
    Completes M R (available M R A finished) order ↔
      Greedy.Runs (Ready M R A) finished order := by
  induction order generalizing finished with
  | nil => exact ⟨fun _ => trivial, fun _ => .nil _⟩
  | cons i rest ih =>
      have new : i ∉ finished := fresh i List.mem_cons_self
      have grown : (fun j => available M R A finished j + (M i j - R i j)) =
          available M R A (insert i finished) := by
        funext j
        exact (available_insert M R A new j).symm
      have later : Completes M R (available M R A (insert i finished)) rest ↔
          Greedy.Runs (Ready M R A) (insert i finished) rest := ih (List.nodup_cons.1 nodup).2 (by
        intro k member inserted
        cases Finset.mem_insert.1 inserted with
        | inl same => rw [same] at member; exact (List.nodup_cons.1 nodup).1 member
        | inr inside => exact fresh k (List.mem_cons_of_mem i member) inside)
      constructor
      · intro completes
        cases completes with
        | cons enough rest => exact ⟨new, enough, later.1 (by rw [← grown]; exact rest)⟩
      · rintro ⟨_, ready, runs⟩
        apply Completes.cons ready
        rw [grown]
        exact later.2 runs

theorem available_empty : available M R A ∅ = A := by
  funext j
  simp [available]

theorem safe_iff : Safe M R A ↔ ∃ order : List (Fin P),
    order.Perm (List.finRange P) ∧ Greedy.Runs (Ready M R A) ∅ order := by
  unfold Safe
  apply exists_congr
  intro order
  apply and_congr_right
  intro perm
  have nodup : order.Nodup := perm.nodup_iff.2 (List.nodup_finRange P)
  rw [← completes_iff_runs M R A nodup (by simp), available_empty]

variable {M R A}

theorem available_mono (bounds : ∀ i j, R i j ≤ M i j) {few many : Finset (Fin P)}
    (less : few ⊆ many) (j : Fin (n + 1)) :
    available M R A few j ≤ available M R A many j := by
  have sums := Finset.sum_le_sum_of_subset_of_nonneg (f := fun i => M i j - R i j) less
    (fun i _ _ => by have := bounds i j; omega)
  unfold available
  omega

theorem ready_monotone (bounds : ∀ i j, R i j ≤ M i j) : Greedy.Monotone (Ready M R A) := by
  intro few many i less ready j
  exact (ready j).trans (available_mono bounds less j)

theorem available_nonneg (bounds : ∀ i j, R i j ≤ M i j) (positive : ∀ j, 0 ≤ A j)
    (finished : Finset (Fin P)) (j : Fin (n + 1)) : 0 ≤ available M R A finished j := by
  have least := available_mono (A := A) bounds (Finset.empty_subset finished) j
  rw [available_empty] at least
  exact (positive j).trans least

end Available

theorem foldl_setA (change : Fin (n + 1) → Int → Int) {js : List (Fin (n + 1))}
    (nodup : js.Nodup) (s : State P n) :
    ∃ A assigned,
      js.foldl (fun s j => s.setA j (change j (s.A j))) s = { s with A, assigned } ∧
      (∀ j, A j = if j ∈ js then change j (s.A j) else s.A j) ∧
      (∀ v ∈ assigned, v ∈ s.assigned ∨ ∃ j ∈ js, v = change j (s.A j)) := by
  induction js generalizing s with
  | nil => exact ⟨s.A, s.assigned, rfl, by simp, fun v old => .inl old⟩
  | cons first rest ih =>
      obtain ⟨outside, nodupRest⟩ := List.nodup_cons.1 nodup
      obtain ⟨A, assigned, result, values, history⟩ :=
        ih nodupRest (s.setA first (change first (s.A first)))
      have untouched : ∀ j ∈ rest, (s.setA first (change first (s.A first))).A j = s.A j := by
        intro j member
        apply Function.update_of_ne
        intro same
        rw [same] at member
        exact outside member
      refine ⟨A, assigned, ?_, ?_, ?_⟩
      · rw [List.foldl_cons, result]
        rfl
      · intro j
        rw [values j]
        by_cases same : j = first
        · subst same
          simp [outside, State.setA]
        · simp [State.setA, same]
      · intro v member
        cases history v member with
        | inl old =>
            cases List.mem_cons.1 old with
            | inl now => exact .inr ⟨first, List.mem_cons_self, now⟩
            | inr before => exact .inl before
        | inr changed =>
            obtain ⟨j, inside, value⟩ := changed
            rw [untouched j inside] at value
            exact .inr ⟨j, List.mem_cons_of_mem first inside, value⟩

/-- A loop over `A` changes each entry once and nothing else. -/
theorem forA_eq (change : Fin (n + 1) → Int → Int) (s : State P n) :
    ∃ assigned, s.forA change = { s with A := fun j => change j (s.A j), assigned } ∧
      ∀ v ∈ assigned, v ∈ s.assigned ∨ ∃ j, v = change j (s.A j) := by
  obtain ⟨A, assigned, result, values, history⟩ :=
    foldl_setA change (List.nodup_finRange (n + 1)) s
  have every : A = fun j => change j (s.A j) := by
    funext j
    rw [values j, if_pos (List.mem_finRange j)]
  refine ⟨assigned, ?_, ?_⟩
  · rw [State.forA, result, every]
  · intro v member
    cases history v member with
    | inl old => exact .inl old
    | inr changed => exact .inr ⟨changed.choose, changed.choose_spec.2⟩

theorem foldl_isSatisfy (s : State P n) (i : Fin P) (js : List (Fin (n + 1)))
    (satisfied : Bool) :
    js.foldl (fun satisfied j => if s.A j < s.R i j then false else satisfied) satisfied = true ↔
      satisfied = true ∧ ∀ j ∈ js, s.R i j ≤ s.A j := by
  induction js generalizing satisfied with
  | nil => simp
  | cons first rest ih =>
      rw [List.foldl_cons, ih]
      by_cases less : s.A first < s.R i first
      · simp [less]
      · have enough : s.R i first ≤ s.A first := by omega
        simp [less, enough]

theorem isSatisfy_iff (s : State P n) (i : Fin P) :
    isSatisfy s i = true ↔ ∀ j, s.R i j ≤ s.A j := by
  unfold isSatisfy
  rw [foldl_isSatisfy]
  simp

section Run

variable {M R : Matrix P n} {A : Fin (n + 1) → Int}

structure Progress (M R : Matrix P n) (A : Fin (n + 1) → Int) (order : List (Fin P))
    (s : State P n) : Prop where
  runs : Greedy.Runs (Ready M R A) ∅ order
  maxima : s.M = M
  done : ∀ i ∈ order, s.R i 0 = unreachable
  waiting : ∀ i, i ∉ order → s.R i = R i
  resources : s.A = available M R A order.toFinset
  remaining : s.remainingPs = P - order.length
  history : ∀ v ∈ s.assigned, 0 ≤ v

theorem progress_start : Progress M R A [] (start M R A) where
  runs := trivial
  maxima := rfl
  done := by simp
  waiting := fun _ _ => rfl
  resources := (available_empty M R A).symm
  remaining := by simp [start]
  history := by simp [start]

theorem Progress.length_le {order : List (Fin P)} {s : State P n}
    (progress : Progress M R A order s) : order.length ≤ P := by
  have bound := progress.runs.nodup.length_le_card
  simpa using bound

theorem Progress.finish {order : List (Fin P)} {s : State P n} {i : Fin P}
    (bounds : ∀ i j, 0 ≤ R i j ∧ R i j ≤ M i j)
    (progress : Progress M R A order s) (new : i ∉ order)
    (ready : Ready M R A order.toFinset i) :
    Progress M R A (order ++ [i]) (markDone (exitProcess (allocate s i) i) i) := by
  have newSet : i ∉ order.toFinset := by simpa using new
  have request : s.R i = R i := progress.waiting i new
  have together : (order ++ [i]).toFinset = insert i order.toFinset := by
    ext k
    simp
  obtain ⟨given, allocated, givenHistory⟩ := forA_eq (fun j a => a - s.R i j) s
  change allocate s i = _ at allocated
  obtain ⟨returned, exited, returnedHistory⟩ :=
    forA_eq (fun j a => a + (allocate s i).M i j) (allocate s i)
  change exitProcess (allocate s i) i = _ at exited
  have less : ∀ j, R i j ≤ s.A j := by
    rw [progress.resources]
    exact ready
  rw [exited, allocated]
  refine
    { runs := ?_, maxima := progress.maxima, done := ?_, waiting := ?_, resources := ?_,
      remaining := ?_, history := ?_ }
  · apply Greedy.runs_append.2
    refine ⟨progress.runs, ?_, ?_, trivial⟩
    · simpa using new
    · simpa using ready
  · intro k member
    by_cases same : k = i
    · subst same
      simp [markDone]
    · have before : k ∈ order := by simpa [same] using member
      simpa [markDone, same] using progress.done k before
  · intro k outside
    simp only [List.mem_append, List.mem_singleton, not_or] at outside
    simpa [markDone, outside.2] using progress.waiting k outside.1
  · funext j
    rw [together, available_insert M R A newSet]
    have before := congrFun progress.resources j
    have maximum : s.M i j = M i j := by rw [progress.maxima]
    change s.A j - s.R i j + s.M i j = _
    rw [request, maximum, before]
    omega
  · have before := progress.remaining
    simp only [markDone, List.length_append, List.length_singleton]
    omega
  · intro v member
    cases returnedHistory v member with
    | inl old =>
        rw [allocated] at old
        cases givenHistory v old with
        | inl older => exact progress.history v older
        | inr changed =>
            obtain ⟨j, value⟩ := changed
            have enough := less j
            rw [request] at value
            omega
    | inr changed =>
        obtain ⟨j, value⟩ := changed
        rw [allocated] at value
        change v = s.A j - s.R i j + s.M i j at value
        have enough := less j
        have maximum : s.M i j = M i j := by rw [progress.maxima]
        have := bounds i j
        rw [request, maximum] at value
        omega

/-- The scan's body finishes a process that is waiting and ready, and passes over the others. -/
theorem Progress.visit {order : List (Fin P)} {found : Bool × State P n} (i : Fin P)
    (bounds : ∀ i j, 0 ≤ R i j ∧ R i j ≤ M i j)
    (progress : Progress M R A order found.2) :
    (visit found i = found ∧ (i ∉ order → ¬ Ready M R A order.toFinset i)) ∨
    ((visit found i).1 = true ∧ Progress M R A (order ++ [i]) (visit found i).2) := by
  unfold Banker.visit
  by_cases finished : i ∈ order
  · rw [if_pos (progress.done i finished)]
    exact .inl ⟨rfl, fun outside => absurd finished outside⟩
  · have request : found.2.R i = R i := progress.waiting i finished
    have waiting : ¬ found.2.R i 0 = unreachable := by
      have := (bounds i 0).1
      rw [request, unreachable]
      omega
    rw [if_neg waiting]
    by_cases ready : isSatisfy found.2 i
    · rw [if_pos ready]
      rw [isSatisfy_iff, request, progress.resources] at ready
      exact .inr ⟨rfl, progress.finish bounds finished ready⟩
    · rw [if_neg ready]
      refine .inl ⟨rfl, fun _ enough => ready ?_⟩
      rw [isSatisfy_iff, request, progress.resources]
      exact enough

theorem Progress.foldl_visit {order : List (Fin P)} (found : Bool × State P n)
    (bounds : ∀ i j, 0 ≤ R i j ∧ R i j ≤ M i j)
    (progress : Progress M R A order found.2) (processes : List (Fin P)) :
    (processes.foldl Banker.visit found = found ∧
      ∀ i ∈ processes, i ∉ order → ¬ Ready M R A order.toFinset i) ∨
    ((processes.foldl Banker.visit found).1 = true ∧ ∃ new, new ≠ [] ∧
      Progress M R A (order ++ new) (processes.foldl Banker.visit found).2) := by
  induction processes generalizing order found with
  | nil => exact .inl ⟨rfl, by simp⟩
  | cons i rest ih =>
      rw [List.foldl_cons]
      cases progress.visit i bounds with
      | inl passed =>
          rw [passed.1]
          cases ih found progress with
          | inl none =>
              refine .inl ⟨none.1, ?_⟩
              intro k member
              cases List.mem_cons.1 member with
              | inl same => rw [same]; exact passed.2
              | inr inside => exact none.2 k inside
          | inr some => exact .inr some
      | inr taken =>
          refine .inr ?_
          cases ih (Banker.visit found i) taken.2 with
          | inl none =>
              rw [none.1]
              exact ⟨taken.1, [i], by simp, taken.2⟩
          | inr some =>
              obtain ⟨flag, new, _, later⟩ := some
              rw [List.append_assoc] at later
              exact ⟨flag, i :: new, by simp, later⟩

/-- How the loop stands: still running, stopped with nobody ready, or all finished. -/
inductive Standing (M R : Matrix P n) (A : Fin (n + 1) → Int) (order : List (Fin P))
    (s : State P n) : Prop
  | running (status : s.exitStatus = .running)
  | stuck (status : s.exitStatus = .fail) (i : Fin P) (waiting : i ∉ order)
      (none : ∀ next, next ∉ order → ¬ Ready M R A order.toFinset next)
  | finished (status : s.exitStatus = .success) (all : order.length = P)

theorem visit_exitStatus (found : Bool × State P n) (i : Fin P) :
    (visit found i).2.exitStatus = found.2.exitStatus := by
  obtain ⟨_, allocated, _⟩ := forA_eq (fun j a => a - found.2.R i j) found.2
  obtain ⟨_, exited, _⟩ := forA_eq (fun j a => a + (allocate found.2 i).M i j) (allocate found.2 i)
  unfold visit
  split
  · rfl
  · split
    · change (exitProcess (allocate found.2 i) i).exitStatus = _
      rw [exitProcess, exited, allocate, allocated]
    · rfl

theorem scan_exitStatus (s : State P n) : (scan s).2.exitStatus = s.exitStatus := by
  have fold : ∀ (processes : List (Fin P)) (found : Bool × State P n),
      (processes.foldl visit found).2.exitStatus = found.2.exitStatus := by
    intro processes
    induction processes with
    | nil => exact fun _ => rfl
    | cons i rest ih =>
        intro found
        rw [List.foldl_cons, ih, visit_exitStatus]
  exact fold (List.finRange P) (false, s)

theorem round_of_none {s : State P n} (none : scan s = (false, s)) :
    round s = { s with exitStatus := if s.remainingPs ≤ 0 then .success else .fail } := by
  rw [round, none]
  by_cases last : s.remainingPs ≤ 0
  · simp [last]
  · simp [last]

theorem round_of_found {s : State P n} (found : (scan s).1 = true) :
    round s = if (scan s).2.remainingPs ≤ 0 then { (scan s).2 with exitStatus := .success }
      else (scan s).2 := by
  rw [round, if_pos found]

theorem exists_not_mem (order : List (Fin P)) (short : order.length < P) : ∃ i, i ∉ order := by
  by_contra complete
  simp only [not_exists, not_not] at complete
  have inside : List.finRange P ⊆ order := fun i _ => complete i
  have most := (List.subperm_of_subset (List.nodup_finRange P) inside).length_le
  rw [List.length_finRange] at most
  omega

/-- One round: either it ends the loop for a reason, or at least one more process has finished. -/
theorem Progress.round {order : List (Fin P)} {s : State P n}
    (bounds : ∀ i j, 0 ≤ R i j ∧ R i j ≤ M i j)
    (progress : Progress M R A order s) (status : s.exitStatus = .running) :
    ∃ new, Progress M R A (order ++ new) (round s) ∧
      Standing M R A (order ++ new) (round s) ∧
      ((round s).exitStatus = .running → new ≠ []) := by
  have bound := progress.length_le
  have remaining := progress.remaining
  cases progress.foldl_visit (false, s) bounds (List.finRange P) with
  | inl none =>
      rw [round_of_none none.1]
      refine ⟨[], ?_⟩
      rw [List.append_nil]
      by_cases last : s.remainingPs ≤ 0
      · rw [if_pos last]
        exact ⟨{ progress with }, .finished rfl (by omega), by simp⟩
      · rw [if_neg last]
        obtain ⟨i, waiting⟩ := exists_not_mem order (by omega)
        refine ⟨{ progress with }, .stuck rfl i waiting ?_, by simp⟩
        exact fun next outside => none.2 next (List.mem_finRange next) outside
  | inr some =>
      obtain ⟨flag, new, nonempty, later⟩ := some
      change (scan s).1 = true at flag
      change Progress M R A (order ++ new) (scan s).2 at later
      have kept : (scan s).2.exitStatus = .running := by rw [scan_exitStatus, status]
      rw [round_of_found flag]
      refine ⟨new, ?_⟩
      by_cases last : (scan s).2.remainingPs ≤ 0
      · have bound := later.length_le
        have remaining := later.remaining
        rw [if_pos last]
        exact ⟨{ later with }, .finished rfl (by omega), by simp⟩
      · rw [if_neg last]
        exact ⟨later, .running kept, fun _ => nonempty⟩

theorem Progress.loop {order : List (Fin P)} {s : State P n}
    (bounds : ∀ i j, 0 ≤ R i j ∧ R i j ≤ M i j)
    (progress : Progress M R A order s) (standing : Standing M R A order s) (fuel : Nat) :
    ∃ order, Progress M R A order (loop fuel s) ∧ Standing M R A order (loop fuel s) := by
  induction fuel generalizing order s with
  | zero => exact ⟨order, progress, standing⟩
  | succ fuel ih =>
      rw [Banker.loop]
      by_cases status : s.exitStatus = .running
      · obtain ⟨new, later, stands, _⟩ := progress.round bounds status
        rw [if_pos status]
        exact ih later stands
      · rw [if_neg status]
        exact ⟨order, progress, standing⟩

/-- Every round but the last finishes a process, so `P + 1` rounds are enough. -/
theorem Progress.loop_ends {order : List (Fin P)} {s : State P n}
    (bounds : ∀ i j, 0 ≤ R i j ∧ R i j ≤ M i j)
    (progress : Progress M R A order s) {fuel : Nat} (enough : P < order.length + fuel) :
    (Banker.loop fuel s).exitStatus ≠ .running := by
  induction fuel generalizing order s with
  | zero =>
      have bound := progress.length_le
      omega
  | succ fuel ih =>
      rw [Banker.loop]
      by_cases status : s.exitStatus = .running
      · obtain ⟨new, later, stands, grows⟩ := progress.round bounds status
        rw [if_pos status]
        by_cases again : (Banker.round s).exitStatus = .running
        · apply ih later
          have longer := List.length_pos_iff.2 (grows again)
          rw [List.length_append]
          omega
        · cases fuel with
          | zero => exact again
          | succ fuel => rw [Banker.loop, if_neg again]; exact again
      · rw [if_neg status]
        exact status

theorem Progress.all_finished {order : List (Fin P)} {s : State P n}
    (progress : Progress M R A order s) (all : order.length = P) :
    order.Perm (List.finRange P) := by
  have inside : order ⊆ List.finRange P := fun i _ => List.mem_finRange i
  have sub := List.subperm_of_subset progress.runs.nodup inside
  apply sub.perm_of_length_le
  rw [List.length_finRange, all]

theorem Progress.success_iff {order : List (Fin P)} {s : State P n}
    (bounds : ∀ i j, R i j ≤ M i j) (progress : Progress M R A order s)
    (standing : Standing M R A order s) (ended : s.exitStatus ≠ .running) :
    s.exitStatus = .success ↔ Safe M R A := by
  rw [safe_iff]
  cases standing with
  | running status => exact absurd status ended
  | stuck status i waiting none =>
      have none_safe := Greedy.stuck_of_none_ready (ready_monotone (A := A) bounds)
        order.toFinset (i := i) (by simpa using waiting) (by simpa using none)
      rw [status]
      refine ⟨fun impossible => by simp at impossible, ?_⟩
      rintro ⟨safe, perm, runs⟩
      refine absurd ⟨safe, ?_, runs⟩ none_safe
      exact fun task => perm.mem_iff.2 (List.mem_finRange task)
  | finished status all =>
      exact ⟨fun _ => ⟨order, progress.all_finished all, progress.runs⟩, fun _ => status⟩

theorem Progress.success_resources {order : List (Fin P)} {s : State P n}
    (progress : Progress M R A order s) (standing : Standing M R A order s)
    (success : s.exitStatus = .success) (j : Fin (n + 1)) :
    s.A j = A j + ∑ i, (M i j - R i j) := by
  cases standing with
  | running status => simp [status] at success
  | stuck status i waiting none => simp [status] at success
  | finished status all =>
      have complete : order.toFinset = Finset.univ := by
        ext i
        simp [(progress.all_finished all).mem_iff]
      rw [progress.resources, complete]
      rfl

end Run

/-- The loop ends, and it ends with success exactly when there is a safe order; no entry of `A`
is ever negative, and on success everything is back. -/
theorem loop_decides_safe {P n : Nat} (M R : Matrix P n) (A : Fin (n + 1) → Int)
    (bounds : ∀ i j, 0 ≤ R i j ∧ R i j ≤ M i j) (positive : ∀ j, 0 ≤ A j) :
    (∃ rounds, (loop rounds (start M R A)).exitStatus ≠ .running) ∧
    ∀ rounds, let last := loop rounds (start M R A)
      (last.exitStatus ≠ .running → (last.exitStatus = .success ↔ Safe M R A)) ∧
      (∀ v ∈ last.assigned, 0 ≤ v) ∧ (∀ j, 0 ≤ last.A j) ∧
      (last.exitStatus = .success → ∀ j, last.A j = A j + ∑ i, (M i j - R i j)) := by
  have first : Progress M R A [] (start M R A) := progress_start
  have most : ∀ i j, R i j ≤ M i j := fun i j => (bounds i j).2
  refine ⟨⟨P + 1, first.loop_ends bounds (by simp)⟩, ?_⟩
  intro rounds
  obtain ⟨order, progress, standing⟩ := first.loop bounds (.running rfl) rounds
  refine ⟨progress.success_iff most standing, progress.history, ?_,
    progress.success_resources standing⟩
  intro j
  rw [progress.resources]
  exact available_nonneg most positive order.toFinset j

def demoM : Matrix 5 3 :=
  ![![7, 5, 2, 4], ![3, 3, 2, 3], ![6, 2, 3, 4], ![2, 9, 4, 2], ![0, 0, 0, 0]]

def demoR : Matrix 5 3 :=
  ![![6, 4, 1, 3], ![1, 3, 0, 2], ![3, 1, 1, 2], ![1, 7, 0, 0], ![0, 0, 0, 0]]

def demoA : Fin 4 → Int := ![3, 2, 1, 3]

/-- The demo state of the source is denied, and it is indeed unsafe. -/
theorem loop_decides_safe_demo :
    (loop 6 (start demoM demoR demoA)).exitStatus = .fail ∧ ¬ Safe demoM demoR demoA := by
  have denied : (loop 6 (start demoM demoR demoA)).exitStatus = .fail := by decide +kernel
  have decides := (loop_decides_safe demoM demoR demoA (by decide) (by decide)).2 6
  refine ⟨denied, ?_⟩
  intro safe
  have success := (decides.1 (by rw [denied]; decide)).2 safe
  rw [denied] at success
  exact absurd success (by decide)

end Ve482.Banker
