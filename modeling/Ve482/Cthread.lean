import Ve482.Lib.Threads
import Mathlib.Logic.Function.Basic

set_option autoImplicit false

namespace Ve482.Cthread

open Function (update)
open Threads

/-- Where a thread is: not created yet; in `thread_count` at the test of the loop, at `sem_wait`,
between `sem_wait` and `sem_post`, at `sem_post`; or returned. -/
inductive Phase where
  | unborn
  | loop (i : Nat)
  | waiting (i : Nat)
  | entered (i : Nat)
  | loaded (i : Nat) (tmp : BitVec 32)
  | added (i : Nat) (tmp : BitVec 32)
  | stored (i : Nat)
  | returned
  deriving DecidableEq

/-- Where `main` is: in the loop of `pthread_create`, in that of `pthread_join`, at the last
comparison, or done, by `exit(1)` or by `pthread_exit`. -/
inductive Main where
  | creating (i : Nat)
  | joining (i : Nat)
  | reporting
  | failed (message : String)
  | reported (message : String)
  deriving DecidableEq

/-- The rounds of each thread. -/
abbrev N : Nat := 1000000

structure State (threads : Nat) where
  sem : Nat
  count : BitVec 32
  phases : Fin threads → Phase
  main : Main

/-- Who goes on: a thread, or `main`, where `pthread_create` and `pthread_join` may fail. -/
inductive Turn (threads : Nat) where
  | thread (id : Fin threads)
  | main (ok : Bool)

/-- `main` before its first `pthread_create`. -/
def start (threads : Nat) : State threads where
  sem := 1
  count := 0
  phases _ := .unborn
  main := .creating 0

variable {threads : Nat}

def State.goto (state : State threads) (id : Fin threads) (phase : Phase) : State threads :=
  { state with phases := update state.phases id phase }

/-- One step of `thread_count`, for `N` rounds; nothing where `sem_wait` blocks. -/
def threadCount (bound : Nat) (state : State threads) (id : Fin threads) : Option (State threads) :=
  match state.phases id with
  | .unborn => none
  | .loop i => some (state.goto id (if i < bound then .waiting i else .returned))
  | .waiting i =>
      match state.sem with
      | 0 => none
      | sem + 1 => some ({ state with sem := sem }.goto id (.entered i))
  | .entered i => some (state.goto id (.loaded i state.count))
  | .loaded i tmp => some (state.goto id (.added i (tmp + 1)))
  | .added i tmp => some ({ state with count := tmp }.goto id (.stored i))
  | .stored i => some ({ state with sem := state.sem + 1 }.goto id (.loop (i + 1)))
  | .returned => none

/-- The last `printf` of `main`. -/
def report (threads bound : Nat) (count : BitVec 32) : String :=
  if count.toInt < threads * bound then
    "Count is " ++ toString count.toInt ++ ", but should be " ++ toString (threads * bound) ++ "\n"
  else "Count is [" ++ toString count.toInt ++ "]\n"

/-- One step of `main`; nothing where `pthread_join` waits. -/
def main (bound : Nat) (state : State threads) (ok : Bool) : Option (State threads) :=
  match state.main with
  | .creating i =>
      if below : i < threads then
        if ok then some { state.goto ⟨i, below⟩ (.loop 0) with main := .creating (i + 1) }
        else some { state with
          main := .failed ("ERROR creating thread " ++ toString i ++ "\n") }
      else some { state with main := .joining 0 }
  | .joining i =>
      if below : i < threads then
        if ok then
          if state.phases ⟨i, below⟩ = .returned then some { state with main := .joining (i + 1) }
          else none
        else some { state with main := .failed "ERROR joining thread\n" }
      else some { state with main := .reporting }
  | .reporting => some { state with main := .reported (report threads bound state.count) }
  | .failed _ => none
  | .reported _ => none

/-- After `exit(1)` no thread goes on. -/
def step (bound : Nat) (state : State threads) : Turn threads → Option (State threads)
  | .thread id =>
      match state.main with
      | .failed _ => none
      | _ => threadCount bound state id
  | .main ok => main bound state ok

/-- Between `sem_wait` and `sem_post` -/
def Phase.inside : Phase → Nat
  | .entered _ | .loaded _ _ | .added _ _ | .stored _ => 1
  | .unborn | .loop _ | .waiting _ | .returned => 0

def Phase.counted (bound : Nat) : Phase → Nat
  | .unborn => 0
  | .loop i | .waiting i | .entered i | .loaded i _ | .added i _ => i
  | .stored i => i + 1
  | .returned => bound

def Phase.left (bound : Nat) : Phase → Nat
  | .unborn => 6 * bound + 2
  | .loop i => 6 * (bound - i) + 1
  | .waiting i => 6 * (bound - i)
  | .entered i => 6 * (bound - i) - 1
  | .loaded i _ => 6 * (bound - i) - 2
  | .added i _ => 6 * (bound - i) - 3
  | .stored i => 6 * (bound - i) - 4
  | .returned => 0

def Main.left (threads : Nat) : Main → Nat
  | .creating i => threads - i + threads + 3
  | .joining i => threads - i + 2
  | .reporting => 1
  | .failed _ => 0
  | .reported _ => 0

def State.left (bound : Nat) (state : State threads) : Nat :=
  state.main.left threads + total (Phase.left bound) state.phases

/-- What a thread knows: its round is one of the loop, and inside, where it alone is, `tmp` is
what `count` was. -/
def Phase.Holds (bound : Nat) (count : BitVec 32) : Phase → Prop
  | .loop i => i ≤ bound
  | .waiting i | .entered i | .stored i => i < bound
  | .loaded i tmp => i < bound ∧ tmp = count
  | .added i tmp => i < bound ∧ tmp = count + 1
  | .unborn | .returned => True

/-- What `main` knows of the threads. -/
def Main.Holds (bound : Nat) (phases : Fin threads → Phase) : Main → Prop
  | .creating i => ∀ id : Fin threads, phases id = .unborn ↔ i ≤ id
  | .joining i => ∀ id : Fin threads, phases id ≠ .unborn ∧ (id < i → phases id = .returned)
  | .reporting => ∀ id, phases id = .returned
  | .failed _ => True
  | .reported message => message = report threads bound (BitVec.ofNat 32 (threads * bound))

structure Sound (bound : Nat) (state : State threads) : Prop where
  shared : SharedOut 1 Phase.inside state.sem state.phases
  counts : state.count = BitVec.ofNat 32 (total (Phase.counted bound) state.phases)
  threads : ∀ id, (state.phases id).Holds bound state.count
  main : state.main.Holds bound state.phases

variable {bound : Nat}

theorem Phase.Holds.outside {count count' : BitVec 32} {phase : Phase}
    (holds : phase.Holds bound count) (outside : phase.inside = 0) : phase.Holds bound count' := by
  cases phase with
  | loaded i tmp | added i tmp => cases outside
  | unborn | loop i | waiting i | entered i | stored i | returned => exact holds

theorem start_sound (threads bound : Nat) : Sound bound (start threads) := by
  have idle : total Phase.inside (start threads).phases = 0 :=
    (total_of_all fun _ => rfl).trans (Nat.mul_zero _)
  have none : total (Phase.counted bound) (start threads).phases = 0 :=
    (total_of_all fun _ => rfl).trans (Nat.mul_zero _)
  refine ⟨?_, ?_, fun _ => trivial, fun id => ?_⟩
  · unfold SharedOut
    rw [idle]
    rfl
  · rw [none]
    rfl
  · exact iff_of_true rfl (Nat.zero_le _)

/-- A thread goes on, from what that means for itself and for the others. -/
theorem Sound.goto {state : State threads} (sound : Sound bound state) {id : Fin threads}
    {phase : Phase} {sem : Nat} {count : BitVec 32}
    (shared : SharedOut 1 Phase.inside sem (update state.phases id phase))
    (counts : count = BitVec.ofNat 32 (total (Phase.counted bound) (update state.phases id phase)))
    (own : phase.Holds bound count)
    (others : ∀ other, other ≠ id → (state.phases other).Holds bound count)
    (born : state.phases id ≠ .unborn) (runs : state.phases id ≠ .returned)
    (still : phase ≠ .unborn) :
    Sound bound ({ state with sem := sem, count := count }.goto id phase) := by
  refine ⟨shared, counts, fun other => ?_, ?_⟩
  · change (update state.phases id phase other).Holds bound count
    by_cases same : other = id
    · subst same
      rw [Function.update_self]
      exact own
    · rw [Function.update_of_ne same]
      exact others other same
  · have known := sound.main
    change state.main.Holds bound (update state.phases id phase)
    revert known
    cases state.main with
    | creating i =>
        intro known other
        by_cases same : other = id
        · subst same
          rw [Function.update_self]
          exact iff_of_false still fun later => born ((known other).mpr later)
        · rw [Function.update_of_ne same]
          exact known other
    | joining i =>
        intro known other
        by_cases same : other = id
        · subst same
          rw [Function.update_self]
          exact ⟨still, fun earlier => absurd ((known other).2 earlier) runs⟩
        · rw [Function.update_of_ne same]
          exact known other
    | reporting =>
        intro known
        exact absurd (known id) runs
    | failed message => exact fun known => known
    | reported message => exact fun known => known

/-- What is left shrinks with what the thread has left. -/
theorem left_goto {state : State threads} {id : Fin threads} {phase : Phase} {sem : Nat}
    {count : BitVec 32} (less : phase.left bound < (state.phases id).left bound) :
    ({ state with sem := sem, count := count }.goto id phase).left bound < state.left bound := by
  have changed := total_update (Phase.left bound) state.phases id phase
  change state.main.left threads + total (Phase.left bound) (update state.phases id phase) < _
  unfold State.left
  omega

/-- A step of a thread keeps what holds, and uses up a part of what is left. -/
theorem threadCount_sound {state state' : State threads} (sound : Sound bound state)
    {id : Fin threads} (stepped : threadCount bound state id = some state') :
    Sound bound state' ∧ state'.left bound < state.left bound := by
  have own := sound.threads id
  have counting (phase : Phase) := total_update (Phase.counted bound) state.phases id phase
  have sameCount {phase : Phase}
      (same : phase.counted bound = (state.phases id).counted bound) : state.count =
        BitVec.ofNat 32 (total (Phase.counted bound) (update state.phases id phase)) := by
    have changed := counting phase
    rw [sound.counts]
    congr 1
    omega
  unfold threadCount at stepped
  cases at_id : state.phases id with
  | unborn =>
      rw [at_id] at stepped
      cases stepped
  | returned =>
      rw [at_id] at stepped
      cases stepped
  | loop i =>
      rw [at_id] at stepped own
      cases stepped
      have within : i ≤ bound := own
      by_cases below : i < bound
      · rw [if_pos below]
        refine ⟨sound.goto (sound.shared.keep (at_id ▸ rfl)) (sameCount (at_id ▸ rfl)) below
          (fun other _ => sound.threads other) (by simp [at_id]) (by simp [at_id]) (by simp),
          left_goto ?_⟩
        rw [at_id, Phase.left, Phase.left]
        omega
      · rw [if_neg below]
        obtain rfl : i = bound := by omega
        refine ⟨sound.goto (sound.shared.keep (at_id ▸ rfl)) (sameCount (at_id ▸ rfl)) trivial
          (fun other _ => sound.threads other) (by simp [at_id]) (by simp [at_id]) (by simp),
          left_goto ?_⟩
        rw [at_id, Phase.left, Phase.left]
        omega
  | waiting i =>
      rw [at_id] at stepped own
      have within : i < bound := own
      cases value : state.sem with
      | zero =>
          rw [value] at stepped
          cases stepped
      | succ sem =>
          rw [value] at stepped
          cases stepped
          have shared := sound.shared
          rw [value] at shared
          refine ⟨sound.goto (shared.wait (at_id ▸ rfl)) (sameCount (at_id ▸ rfl)) within
            (fun other _ => sound.threads other) (by simp [at_id]) (by simp [at_id]) (by simp),
            left_goto ?_⟩
          rw [at_id, Phase.left, Phase.left]
          omega
  | entered i =>
      rw [at_id] at stepped own
      cases stepped
      have within : i < bound := own
      refine ⟨sound.goto (sound.shared.keep (at_id ▸ rfl)) (sameCount (at_id ▸ rfl))
        ⟨within, rfl⟩ (fun other _ => sound.threads other) (by simp [at_id]) (by simp [at_id])
        (by simp), left_goto ?_⟩
      rw [at_id, Phase.left, Phase.left]
      omega
  | loaded i tmp =>
      rw [at_id] at stepped own
      cases stepped
      obtain ⟨within, rfl⟩ := own
      refine ⟨sound.goto (sound.shared.keep (at_id ▸ rfl)) (sameCount (at_id ▸ rfl))
        ⟨within, rfl⟩ (fun other _ => sound.threads other) (by simp [at_id]) (by simp [at_id])
        (by simp), left_goto ?_⟩
      rw [at_id, Phase.left, Phase.left]
      omega
  | added i tmp =>
      rw [at_id] at stepped own
      cases stepped
      obtain ⟨within, rfl⟩ := own
      have changed := counting (.stored i)
      rw [at_id] at changed
      refine ⟨sound.goto (sound.shared.keep (at_id ▸ rfl)) ?_ within (fun other apart => ?_)
        (by simp [at_id]) (by simp [at_id]) (by simp), left_goto ?_⟩
      · rw [sound.counts]
        have one : total (Phase.counted bound) (update state.phases id (.stored i)) =
            total (Phase.counted bound) state.phases + 1 := by
          simp only [Phase.counted] at changed
          omega
        rw [one, BitVec.ofNat_add]
        rfl
      · -- nobody else is inside, where the old `count` would matter
        refine (sound.threads other).outside ?_
        by_contra inside
        have here : 0 < (state.phases id).inside := by
          rw [at_id]
          exact Nat.one_pos
        exact apart (sound.shared.alone here (Nat.pos_of_ne_zero inside))
      · rw [at_id, Phase.left, Phase.left]
        omega
  | stored i =>
      rw [at_id] at stepped own
      cases stepped
      have within : i < bound := own
      refine ⟨sound.goto (sound.shared.post (at_id ▸ rfl)) (sameCount (at_id ▸ rfl)) within
        (fun other _ => sound.threads other) (by simp [at_id]) (by simp [at_id]) (by simp),
        left_goto ?_⟩
      rw [at_id, Phase.left, Phase.left]
      omega

/-- A step of `main` keeps what holds, and uses up a part of what is left. -/
theorem main_sound {state state' : State threads} (sound : Sound bound state) {ok : Bool}
    (stepped : main bound state ok = some state') :
    Sound bound state' ∧ state'.left bound < state.left bound := by
  have known := sound.main
  unfold main at stepped
  cases at_main : state.main with
  | creating i =>
      rw [at_main] at stepped known
      dsimp only at stepped
      by_cases below : i < threads
      · rw [dif_pos below] at stepped
        have unborn : state.phases ⟨i, below⟩ = .unborn := (known ⟨i, below⟩).mpr (Nat.le_refl i)
        cases ok with
        | true =>
            cases stepped
            have changed := total_update (Phase.left bound) state.phases ⟨i, below⟩ (.loop 0)
            have counting := total_update (Phase.counted bound) state.phases ⟨i, below⟩
              (.loop 0)
            rw [unborn] at changed counting
            refine ⟨⟨sound.shared.keep (unborn ▸ rfl), ?_, fun other => ?_, fun other => ?_⟩, ?_⟩
            · exact sound.counts.trans (congrArg (BitVec.ofNat 32) counting.symm)
            · change (update state.phases ⟨i, below⟩ (.loop 0) other).Holds bound state.count
              by_cases same : other = ⟨i, below⟩
              · subst same
                rw [Function.update_self]
                exact Nat.zero_le bound
              · rw [Function.update_of_ne same]
                exact sound.threads other
            · change update state.phases ⟨i, below⟩ (.loop 0) other = .unborn ↔ i + 1 ≤ other
              by_cases same : other = ⟨i, below⟩
              · subst same
                rw [Function.update_self]
                exact iff_of_false (by simp) (by simp)
              · have apart : (other : Nat) ≠ i := fun equal => same (Fin.ext equal)
                rw [Function.update_of_ne same, known other]
                omega
            · change (Main.creating (i + 1)).left threads + total (Phase.left bound)
                (update state.phases ⟨i, below⟩ (.loop 0)) < _
              unfold State.left
              rw [at_main]
              simp only [Phase.left, Main.left] at changed ⊢
              omega
        | false =>
            cases stepped
            refine ⟨⟨sound.shared, sound.counts, sound.threads, trivial⟩, ?_⟩
            unfold State.left
            rw [at_main, Main.left, Main.left]
            dsimp only
            omega
      · rw [dif_neg below] at stepped
        cases stepped
        refine ⟨⟨sound.shared, sound.counts, sound.threads, fun other => ?_⟩, ?_⟩
        · have small := other.isLt
          exact ⟨fun unborn => by have := (known other).mp unborn; omega,
            fun earlier => absurd earlier (Nat.not_lt_zero _)⟩
        · unfold State.left
          rw [at_main, Main.left, Main.left]
          dsimp only
          omega
  | joining i =>
      rw [at_main] at stepped known
      dsimp only at stepped
      by_cases below : i < threads
      · rw [dif_pos below] at stepped
        cases ok with
        | true =>
            by_cases returned : state.phases ⟨i, below⟩ = .returned
            · rw [if_pos rfl, if_pos returned] at stepped
              cases stepped
              refine ⟨⟨sound.shared, sound.counts, sound.threads, fun other => ?_⟩, ?_⟩
              · refine ⟨(known other).1, fun earlier => ?_⟩
                by_cases same : (other : Nat) = i
                · obtain rfl : other = ⟨i, below⟩ := Fin.ext same
                  exact returned
                · exact (known other).2 (by omega)
              · unfold State.left
                rw [at_main, Main.left, Main.left]
                dsimp only
                omega
            · rw [if_pos rfl, if_neg returned] at stepped
              cases stepped
        | false =>
            cases stepped
            refine ⟨⟨sound.shared, sound.counts, sound.threads, trivial⟩, ?_⟩
            unfold State.left
            rw [at_main, Main.left, Main.left]
            dsimp only
            omega
      · rw [dif_neg below] at stepped
        cases stepped
        refine ⟨⟨sound.shared, sound.counts, sound.threads, fun other => ?_⟩, ?_⟩
        · have small := other.isLt
          exact (known other).2 (by omega)
        · unfold State.left
          rw [at_main, Main.left, Main.left]
          dsimp only
          omega
  | reporting =>
      rw [at_main] at stepped known
      cases stepped
      refine ⟨⟨sound.shared, sound.counts, sound.threads, ?_⟩, ?_⟩
      · have all : total (Phase.counted bound) state.phases = threads * bound := by
          rw [total_of_all fun id => congrArg (Phase.counted bound) (known id), Fintype.card_fin]
          rfl
        change report threads bound state.count = _
        rw [sound.counts, all]
      · unfold State.left
        rw [at_main, Main.left, Main.left]
        dsimp only
        omega
  | failed message =>
      rw [at_main] at stepped
      cases stepped
  | reported message =>
      rw [at_main] at stepped
      cases stepped

theorem step_sound {state state' : State threads} (sound : Sound bound state)
    {turn : Turn threads} (stepped : step bound state turn = some state') :
    Sound bound state' ∧ state'.left bound < state.left bound := by
  cases turn with
  | main ok => exact main_sound sound stepped
  | thread id =>
      unfold step at stepped
      cases at_main : state.main with
      | failed message =>
          rw [at_main] at stepped
          cases stepped
      | creating i | joining i | reporting | reported message =>
          rw [at_main] at stepped
          exact threadCount_sound sound stepped

theorem run_sound {turns : List (Turn threads)} {state : State threads}
    (ran : run (step bound) (start threads) turns = some state) : Sound bound state :=
  run_invariant (fun _ _ _ sound stepped => (step_sound sound stepped).1)
    (start_sound threads bound) ran

/-- Who is inside is never in the way of itself. -/
theorem threadCount_inside {state : State threads} {id : Fin threads}
    (inside : 0 < (state.phases id).inside) :
    ∃ state', threadCount bound state id = some state' := by
  unfold threadCount
  cases at_id : state.phases id with
  | entered i | loaded i tmp | added i tmp | stored i => exact ⟨_, rfl⟩
  | unborn | loop i | waiting i | returned =>
      rw [at_id] at inside
      exact absurd inside (Nat.lt_irrefl 0)

/-- While a thread runs, some thread can go on: the one that it waits for, if there is one. -/
theorem Sound.thread_goes {state : State threads} (sound : Sound bound state) {id : Fin threads}
    (born : state.phases id ≠ .unborn) (runs : state.phases id ≠ .returned) :
    ∃ id state', threadCount bound state id = some state' := by
  cases at_id : state.phases id with
  | unborn => exact absurd at_id born
  | returned => exact absurd at_id runs
  | loop i =>
      refine ⟨id, ?_⟩
      unfold threadCount
      rw [at_id]
      exact ⟨_, rfl⟩
  | waiting i =>
      cases value : state.sem with
      | zero =>
          have shared := sound.shared
          rw [value] at shared
          obtain ⟨holder, inside⟩ := shared.held Nat.one_pos
          exact ⟨holder, threadCount_inside inside⟩
      | succ sem =>
          refine ⟨id, ?_⟩
          unfold threadCount
          rw [at_id, value]
          exact ⟨_, rfl⟩
  | entered i | loaded i tmp | added i tmp | stored i =>
      refine ⟨id, threadCount_inside ?_⟩
      rw [at_id]
      exact Nat.one_pos

/-- While `main` is not done, somebody can go on without a call that fails. -/
theorem Sound.goes_on {state : State threads} (sound : Sound bound state)
    (unfailed : ∀ message, state.main ≠ .failed message)
    (unreported : ∀ message, state.main ≠ .reported message) :
    ∃ turn state', turn ≠ .main false ∧ step bound state turn = some state' := by
  by_cases main_goes : ∃ state', Cthread.main bound state true = some state'
  · obtain ⟨state', goes⟩ := main_goes
    exact ⟨.main true, state', nofun, goes⟩
  have known := sound.main
  unfold Cthread.main at main_goes
  cases at_main : state.main with
  | failed message => exact absurd at_main (unfailed message)
  | reported message => exact absurd at_main (unreported message)
  | reporting =>
      rw [at_main] at main_goes
      exact absurd ⟨_, rfl⟩ main_goes
  | creating i =>
      rw [at_main] at main_goes
      dsimp only at main_goes
      by_cases below : i < threads
      · rw [dif_pos below] at main_goes
        exact absurd ⟨_, rfl⟩ main_goes
      · rw [dif_neg below] at main_goes
        exact absurd ⟨_, rfl⟩ main_goes
  | joining i =>
      rw [at_main] at main_goes known
      dsimp only at main_goes
      by_cases below : i < threads
      · rw [dif_pos below, if_pos rfl] at main_goes
        have runs : state.phases ⟨i, below⟩ ≠ .returned := by
          intro returned
          rw [if_pos returned] at main_goes
          exact absurd ⟨_, rfl⟩ main_goes
        obtain ⟨id, state', goes⟩ := sound.thread_goes (known ⟨i, below⟩).1 runs
        refine ⟨.thread id, state', nofun, ?_⟩
        unfold step
        rw [at_main]
        exact goes
      · rw [dif_neg below] at main_goes
        exact absurd ⟨_, rfl⟩ main_goes

theorem threadCount_main {state state' : State threads} {id : Fin threads}
    (stepped : threadCount bound state id = some state') : state'.main = state.main := by
  unfold threadCount at stepped
  cases at_id : state.phases id with
  | unborn | returned =>
      rw [at_id] at stepped
      cases stepped
  | loop i | entered i | loaded i tmp | added i tmp | stored i =>
      rw [at_id] at stepped
      cases stepped
      rfl
  | waiting i =>
      rw [at_id] at stepped
      cases value : state.sem with
      | zero =>
          rw [value] at stepped
          cases stepped
      | succ sem =>
          rw [value] at stepped
          cases stepped
          rfl

/-- Only a call that fails makes `main` give up. -/
theorem step_unfailed {state state' : State threads} {turn : Turn threads}
    (succeeds : turn ≠ .main false) (stepped : step bound state turn = some state')
    (message : String) : state'.main ≠ .failed message := by
  intro failed
  cases turn with
  | thread id =>
      unfold step at stepped
      cases at_main : state.main with
      | failed message =>
          rw [at_main] at stepped
          cases stepped
      | creating i | joining i | reporting | reported message =>
          rw [at_main] at stepped
          have same := threadCount_main stepped
          rw [at_main, failed] at same
          cases same
  | main ok =>
      cases ok with
      | false => exact succeeds rfl
      | true =>
          unfold step main at stepped
          cases at_main : state.main with
          | failed message | reported message =>
              rw [at_main] at stepped
              cases stepped
          | reporting =>
              rw [at_main] at stepped
              cases stepped
              cases failed
          | creating i =>
              rw [at_main] at stepped
              dsimp only at stepped
              by_cases below : i < threads
              · rw [dif_pos below] at stepped
                cases stepped
                cases failed
              · rw [dif_neg below] at stepped
                cases stepped
                cases failed
          | joining i =>
              rw [at_main] at stepped
              dsimp only at stepped
              by_cases below : i < threads
              · rw [dif_pos below, if_pos rfl] at stepped
                by_cases returned : state.phases ⟨i, below⟩ = .returned
                · rw [if_pos returned] at stepped
                  cases stepped
                  cases failed
                · rw [if_neg returned] at stepped
                  cases stepped
              · rw [dif_neg below] at stepped
                cases stepped
                cases failed

theorem run_unfailed {turns : List (Turn threads)} (succeed : .main false ∉ turns)
    {state state' : State threads} (unfailed : ∀ message, state.main ≠ .failed message)
    (ran : run (step bound) state turns = some state') (message : String) :
    state'.main ≠ .failed message := by
  induction turns generalizing state with
  | nil => exact Option.some.inj ran ▸ unfailed message
  | cons turn turns ih =>
      obtain ⟨next, taken, rest⟩ := Option.bind_eq_some_iff.mp ran
      have succeeds : turn ≠ .main false := fun same => succeed (same ▸ List.mem_cons_self ..)
      exact ih (fun later => succeed (List.mem_cons_of_mem turn later))
        (step_unfailed succeeds taken) rest

/-- What `main` prints of a count that has not overflowed. -/
theorem report_exact (small : threads * bound < 2 ^ 31) :
    report threads bound (BitVec.ofNat 32 (threads * bound)) =
      "Count is [" ++ toString ((threads * bound : Nat) : Int) ++ "]\n" := by
  have value : (BitVec.ofNat 32 (threads * bound)).toInt = ((threads * bound : Nat) : Int) := by
    rw [BitVec.toInt_eq_toNat_of_lt (by rw [BitVec.toNat_ofNat]; omega), BitVec.toNat_ofNat,
      Nat.mod_eq_of_lt (by omega)]
  unfold report
  rw [value, if_neg]
  push_cast
  exact lt_irrefl _

/-- No update is lost: however the threads take turns, one of them at most is between `sem_wait` and
`sem_post`, and where `main` prints a count, it prints what all of them should have counted. -/
theorem counted_exactly (small : threads * bound < 2 ^ 31) {turns : List (Turn threads)}
    {state : State threads} (ran : run (step bound) (start threads) turns = some state) :
    (∀ id other, 0 < (state.phases id).inside → 0 < (state.phases other).inside → other = id) ∧
      ∀ message, state.main = .reported message →
        message = "Count is [" ++ toString ((threads * bound : Nat) : Int) ++ "]\n" := by
  have sound := run_sound ran
  refine ⟨fun id other inside also => sound.shared.alone inside also, fun message reported => ?_⟩
  have known := sound.main
  rw [reported] at known
  exact Eq.trans known (report_exact small)

/-- The program itself is small enough. -/
example : 2 * N < 2 ^ 31 := by decide

/-- Two threads of one round, the second of which comes to `sem_wait` while the first is inside. -/
theorem counted_exactly_two : ∃ state message,
    run (step 1) (start 2) [.main true, .main true, .main true, .thread 0, .thread 0, .thread 1,
      .thread 0, .thread 0, .thread 0, .thread 0, .thread 1, .thread 1, .thread 0, .thread 1,
      .thread 1, .thread 1, .thread 1, .main true, .main true, .main true, .main true] =
        some state ∧
      state.main = .reported message ∧
      message = "Count is [" ++ toString ((2 * 1 : Nat) : Int) ++ "]\n" := by
  have runs : (run (step 1) (start 2) [.main true, .main true, .main true, .thread 0, .thread 0,
      .thread 1, .thread 0, .thread 0, .thread 0, .thread 0, .thread 1, .thread 1, .thread 0,
      .thread 1, .thread 1, .thread 1, .thread 1, .main true, .main true, .main true,
      .main true]).map (fun state => state.main) = some (.reported (report 2 1 2)) := by
    decide +kernel
  obtain ⟨state, ran, reported⟩ := Option.map_eq_some_iff.mp runs
  exact ⟨state, _, ran, reported, (counted_exactly (by decide) ran).2 _ reported⟩

/-- The threads never block each other for good: every run ends, and where no call has failed and
nobody can go on, other than by one that fails, `main` has printed what all of them should have
counted. -/
theorem always_reports (small : threads * bound < 2 ^ 31) {turns : List (Turn threads)}
    {state : State threads} (ran : run (step bound) (start threads) turns = some state) :
    turns.length ≤ threads * (6 * bound + 4) + 3 ∧
      ((∀ turn, turn ≠ .main false → step bound state turn = none) → .main false ∉ turns →
        state.main =
          .reported ("Count is [" ++ toString ((threads * bound : Nat) : Int) ++ "]\n")) := by
  constructor
  · have short : turns.length ≤ (start threads).left bound := run_length_le
      (fun _ _ _ sound stepped => (step_sound sound stepped).1)
      (fun _ _ _ sound stepped => (step_sound sound stepped).2) (start_sound threads bound) ran
    have all : total (Phase.left bound) (start threads).phases = threads * (6 * bound + 2) :=
      (total_of_all fun _ => rfl).trans (congrArg (· * _) (Fintype.card_fin threads))
    unfold State.left at short
    rw [all, start, Main.left] at short
    rw [Nat.mul_add] at short ⊢
    omega
  · intro stuck succeed
    have sound := run_sound ran
    have unfailed := run_unfailed succeed (fun _ failed => by cases failed) ran
    by_contra unreported
    obtain ⟨turn, state', succeeds, goes⟩ := sound.goes_on unfailed fun message reported => by
      have known := sound.main
      rw [reported] at known
      exact unreported (reported.trans (congrArg Main.reported
        (Eq.trans known (report_exact small))))
    rw [stuck turn succeeds] at goes
    cases goes

theorem always_reports_two : ∃ state : State 2,
    run (step 1) (start 2) [.main true, .main true, .main true, .thread 0, .thread 0, .thread 1,
      .thread 0, .thread 0, .thread 0, .thread 0, .thread 1, .thread 1, .thread 0, .thread 1,
      .thread 1, .thread 1, .thread 1, .main true, .main true, .main true, .main true] =
        some state ∧
      state.main = .reported ("Count is [" ++ toString ((2 * 1 : Nat) : Int) ++ "]\n") := by
  have runs : (run (step 1) (start 2) [.main true, .main true, .main true, .thread 0, .thread 0,
      .thread 1, .thread 0, .thread 0, .thread 0, .thread 0, .thread 1, .thread 1, .thread 0,
      .thread 1, .thread 1, .thread 1, .thread 1, .main true, .main true, .main true,
      .main true]).map (fun state => (state.phases 0, state.phases 1, state.main)) =
        some (.returned, .returned, .reported (report 2 1 2)) := by decide +kernel
  obtain ⟨state, ran, ends⟩ := Option.map_eq_some_iff.mp runs
  obtain ⟨first, others⟩ := Prod.mk.inj ends
  obtain ⟨second, reported⟩ := Prod.mk.inj others
  have stuck (turn : Turn 2) : step 1 state turn = none := by
    cases turn with
    | main ok =>
        change Cthread.main 1 state ok = none
        unfold Cthread.main
        rw [reported]
    | thread id =>
        have returned : state.phases id = .returned := by
          refine Fin.cases first (fun last => ?_) id
          rw [Subsingleton.elim last 0]
          exact second
        unfold step
        rw [reported]
        change threadCount 1 state id = none
        unfold threadCount
        rw [returned]
  exact ⟨state, ran, (always_reports (by decide) ran).2 (fun turn _ => stuck turn) (by simp)⟩

end Ve482.Cthread
