import Ve482.Lib.Runs
import Mathlib.Algebra.Group.Int.Defs
import Mathlib.Algebra.Group.Nat.Defs
import Mathlib.Logic.Function.Basic
import Mathlib.Data.List.Basic

set_option autoImplicit false

namespace Ve482.Counter

open Runs

/-- `{1..20}` -/
abbrev iterations : Nat := 20

/-- Where a process of `ex3_fix.sh` is: at the test, at the `echo "0"` after it, at the head of
the loop with so many iterations to come, or in the subshell, with `flock` done, with the
operand counted up, or with the line written. -/
inductive Pc where
  | test
  | init
  | loop (left : Nat)
  | locked (left : Nat)
  | counted (left : Nat) (operand : Int)
  | written (left : Nat)
  deriving DecidableEq, Repr

/-- The lines of `ex3.out` as the numbers that the shell takes them for, the process that has
the lock on it, and all processes. -/
structure State (ι : Type) where
  file : Option (List Int)
  lock : Option ι
  procs : ι → Pc

/-- `tail -n 1 $FILE`; nothing counts as 0. -/
def lastLine (file : Option (List Int)) : Int := (file.getD []).getLast?.getD 0

/-- `operand=$(tail -n 1 $FILE)` and `((operand++))` in the 64 bits of the shell's numbers -/
def successor (file : Option (List Int)) : Int := (lastLine file + 1).bmod (2 ^ 64)

/-- `echo $line >> $FILE` -/
def append (file : Option (List Int)) (line : Int) : Option (List Int) :=
  some (file.getD [] ++ [line])

variable {ι : Type}

def State.goto [DecidableEq ι] (state : State ι) (id : ι) (pc : Pc) : State ι :=
  { state with procs := Function.update state.procs id pc }

def step [DecidableEq ι] (state : State ι) (id : ι) : State ι :=
  match state.procs id with
  | .test => state.goto id (if state.file.isSome then .loop iterations else .init)
  | .init => { state with file := append state.file 0 }.goto id (.loop iterations)
  | .loop 0 => state
  | .loop (left + 1) =>
      -- `33>>$FILE` creates the file
      let state := { state with file := some (state.file.getD []) }
      match state.lock with
      | none => { state with lock := some id }.goto id (.locked left)
      | some _ => state.goto id (.loop left)
  | .locked left => state.goto id (.counted left (successor state.file))
  | .counted left operand =>
      { state with file := append state.file operand }.goto id (.written left)
  | .written left => { state with lock := none }.goto id (.loop left)

def start (file : Option (List Int)) : State ι :=
  { file := file, lock := none, procs := fun _ => .test }

/-- The first number to append: 0, or one more than the last line. -/
def firstValue : Option (List Int) → Int
  | none => 0
  | some lines => lastLine (some lines) + 1

def sequence (first : Int) (count : Nat) : List Int :=
  (List.range count).map fun i : Nat => first + (i : Int)

/-- What was appended are consecutive numbers, each of them once. -/
def Consecutive (initial file : Option (List Int)) : Prop :=
  ∃ count, file.getD [] = initial.getD [] ++ sequence (firstValue initial) count

/-- A process that is about to write the first line still finds no file, and one that is about
to write the number it counted up to had a number of 64 bits to come to. -/
def Sound (state : State ι) (id : ι) : Prop :=
  match state.procs id with
  | .init => state.file = none
  | .counted _ _ => -2 ^ 63 ≤ lastLine state.file + 1 ∧ lastLine state.file + 1 < 2 ^ 63
  | _ => True

instance (state : State ι) (id : ι) : Decidable (Sound state id) := by
  unfold Sound
  split <;> infer_instance

theorem successor_eq_iff (file : Option (List Int)) :
    successor file = lastLine file + 1 ↔
      -2 ^ 63 ≤ lastLine file + 1 ∧ lastLine file + 1 < 2 ^ 63 := by
  constructor
  · intro same
    have least := Int.le_bmod (x := lastLine file + 1) (m := 2 ^ 64) (by decide)
    have greatest := Int.bmod_lt (x := lastLine file + 1) (m := 2 ^ 64) (by decide)
    rw [successor] at same
    rw [same] at least greatest
    omega
  · rintro ⟨least, greatest⟩
    exact Int.bmod_eq_of_le (by omega) (by omega)

theorem sequence_succ (first : Int) (count : Nat) :
    sequence first (count + 1) = sequence first count ++ [first + (count : Int)] := by
  rw [sequence, List.range_succ, List.map_append]
  rfl

@[simp] theorem sequence_length (first : Int) (count : Nat) :
    (sequence first count).length = count := by
  rw [sequence, List.length_map, List.length_range]

/-- The file as a run leaves it: absent as long as it was, or with numbers appended. -/
inductive FileIs (initial : Option (List Int)) : Option (List Int) → Prop where
  | absent (missing : initial = none) : FileIs initial none
  | counted (count : Nat) (first_line : initial = none → 0 < count) :
      FileIs initial (some (initial.getD [] ++ sequence (firstValue initial) count))

theorem FileIs.consecutive {initial file : Option (List Int)} (fileIs : FileIs initial file) :
    Consecutive initial file := by
  cases fileIs with
  | absent missing => exact ⟨0, by rw [missing]; rfl⟩
  | counted count first_line => exact ⟨count, rfl⟩

theorem FileIs.refl (initial : Option (List Int)) : FileIs initial initial := by
  cases initial with
  | none => exact .absent rfl
  | some lines =>
      have nothing : (some lines).getD [] ++ sequence (firstValue (some lines)) 0 = lines :=
        List.append_nil lines
      have same : FileIs (some lines) (some _) := .counted 0 fun missing => by cases missing
      rwa [nothing] at same

/-- One more than the last line is the next number. -/
theorem lastLine_counted (initial : Option (List Int)) {count : Nat}
    (first_line : initial = none → 0 < count) :
    lastLine (some (initial.getD [] ++ sequence (firstValue initial) count)) + 1 =
      firstValue initial + (count : Int) := by
  cases count with
  | zero =>
      cases initial with
      | none => exact absurd (first_line rfl) (Nat.lt_irrefl 0)
      | some lines =>
          rw [show sequence (firstValue (some lines)) 0 = [] from rfl, List.append_nil]
          exact (Int.add_zero _).symm
  | succ count =>
      rw [sequence_succ, ← List.append_assoc, lastLine, Option.getD_some, List.getLast?_concat,
        Option.getD_some]
      push_cast
      omega

theorem FileIs.append {initial file : Option (List Int)} (fileIs : FileIs initial file)
    (created : file ≠ none) : FileIs initial (append file (lastLine file + 1)) := by
  cases fileIs with
  | absent missing => exact absurd rfl created
  | counted count first_line =>
      rw [lastLine_counted initial first_line, Counter.append, Option.getD_some,
        List.append_assoc, ← sequence_succ]
      exact .counted (count + 1) fun _ => Nat.succ_pos count

/-- No other line keeps the numbers consecutive. -/
theorem FileIs.line_of_consecutive {initial file : Option (List Int)} {line : Int}
    (fileIs : FileIs initial file) (created : file ≠ none)
    (consecutive : Consecutive initial (Counter.append file line)) : line = lastLine file + 1 := by
  cases fileIs with
  | absent missing => exact absurd rfl created
  | counted count first_line =>
      obtain ⟨longer, same⟩ := consecutive
      rw [Counter.append, Option.getD_some, Option.getD_some, List.append_assoc] at same
      have same := List.append_cancel_left same
      have length := congrArg List.length same
      rw [List.length_append, sequence_length, sequence_length, List.length_singleton] at length
      rw [← length, sequence_succ] at same
      rw [lastLine_counted initial first_line]
      exact List.singleton_inj.mp (List.append_cancel_left same)

/-- A 0 comes first or not at all. -/
theorem FileIs.succ_lastLine_ne_zero {file : Option (List Int)} (fileIs : FileIs none file)
    (created : file ≠ none) : lastLine file + 1 ≠ 0 := by
  cases fileIs with
  | absent missing => exact absurd rfl created
  | counted count first_line =>
      have positive := first_line rfl
      rw [lastLine_counted none first_line, firstValue]
      omega

def Pc.InSubshell : Pc → Prop
  | .locked _ => True
  | .counted _ _ => True
  | .written _ => True
  | _ => False

/-- What holds of a process: it passed the test only if the file was there or it is to make it,
and in the subshell it has the lock, so that the last line is still the one it read. -/
def Pc.Holds (initial file : Option (List Int)) (lock : Option ι) (id : ι) : Pc → Prop
  | .test => True
  | .init => initial = none
  | .loop _ => file ≠ none
  | .locked _ => file ≠ none ∧ lock = some id
  | .counted _ operand => file ≠ none ∧ lock = some id ∧ operand = successor file
  | .written _ => file ≠ none ∧ lock = some id

theorem Pc.Holds.lock {initial file : Option (List Int)} {lock : Option ι} {id : ι} {pc : Pc}
    (holds : pc.Holds initial file lock id) (inside : pc.InSubshell) : lock = some id := by
  cases pc with
  | test => exact inside.elim
  | init => exact inside.elim
  | loop => exact inside.elim
  | locked => exact holds.2
  | counted => exact holds.2.1
  | written => exact holds.2

/-- Outside the subshell nothing depends on the lock or on the last line. -/
theorem Pc.Holds.outside {initial file file' : Option (List Int)} {lock lock' : Option ι} {id : ι}
    {pc : Pc} (holds : pc.Holds initial file lock id) (outside : ¬ pc.InSubshell)
    (created : file ≠ none → file' ≠ none) : pc.Holds initial file' lock' id := by
  cases pc with
  | test => trivial
  | init => exact holds
  | loop => exact created holds
  | locked => exact (outside trivial).elim
  | counted => exact (outside trivial).elim
  | written => exact (outside trivial).elim

theorem Pc.Holds.created {initial file : Option (List Int)} {lock : Option ι} {id : ι} {pc : Pc}
    (holds : pc.Holds initial file lock id) (inside : pc.InSubshell) : file ≠ none := by
  cases pc with
  | test => exact inside.elim
  | init => exact inside.elim
  | loop => exact inside.elim
  | locked => exact holds.1
  | counted => exact holds.1
  | written => exact holds.1

structure Invariant (initial : Option (List Int)) (state : State ι) : Prop where
  file : FileIs initial state.file
  procs : ∀ id, (state.procs id).Holds initial state.file state.lock id

theorem start_invariant (initial : Option (List Int)) :
    Invariant initial (start initial : State ι) := ⟨.refl initial, fun _ => trivial⟩

/-- While one process has the lock, no other is in its subshell. -/
theorem Invariant.alone {initial : Option (List Int)} {state : State ι}
    (invariant : Invariant initial state) {id other : ι} (lock : state.lock = some id)
    (apart : other ≠ id) : ¬ (state.procs other).InSubshell := by
  intro inside
  have own := (invariant.procs other).lock inside
  rw [lock] at own
  exact apart (Option.some.inj own).symm

variable [DecidableEq ι]

/-- A step of one process, from what it means for itself and for the others. -/
theorem Invariant.goto {initial : Option (List Int)} {state : State ι} {id : ι} {pc : Pc}
    (file : FileIs initial state.file) (own : pc.Holds initial state.file state.lock id)
    (others : ∀ other, other ≠ id → (state.procs other).Holds initial state.file state.lock other) :
    Invariant initial (state.goto id pc) := by
  refine ⟨file, fun other => ?_⟩
  change (Function.update state.procs id pc other).Holds initial state.file state.lock other
  by_cases same : other = id
  · subst same
    rw [Function.update_self]
    exact own
  · rw [Function.update_of_ne same]
    exact others other same

theorem Invariant.step {initial : Option (List Int)} {state : State ι}
    (invariant : Invariant initial state) {id : ι} (sound : Sound state id) :
    Invariant initial (step state id) := by
  have own := invariant.procs id
  unfold Sound at sound
  unfold Counter.step
  cases at_id : state.procs id with
  | test =>
      refine .goto invariant.file ?_ fun other _ => invariant.procs other
      cases found : state.file with
      | none =>
          have file := invariant.file
          rw [found] at file
          cases file with
          | absent missing => exact missing
      | some lines => exact Option.some_ne_none lines
  | init =>
      rw [at_id] at own sound
      have missing : initial = none := own
      refine .goto ?_ (Option.some_ne_none _) fun other _ => ?_
      · rw [sound, missing]
        exact FileIs.counted 1 fun _ => Nat.one_pos
      · refine (invariant.procs other).outside (fun inside => ?_) fun _ => Option.some_ne_none _
        exact (invariant.procs other).created inside sound
  | loop left =>
      rw [at_id] at own
      cases left with
      | zero => exact invariant
      | succ left =>
          obtain ⟨lines, there⟩ := Option.ne_none_iff_exists'.mp own
          have same : some (state.file.getD []) = state.file := by rw [there]; rfl
          have others := invariant.procs
          dsimp only
          rw [same]
          cases lock : state.lock with
          | none =>
              refine .goto invariant.file ⟨own, rfl⟩ fun other _ => ?_
              refine (others other).outside (fun inside => ?_) fun created => created
              have taken := (others other).lock inside
              rw [lock] at taken
              cases taken
          | some holder =>
              refine .goto invariant.file own fun other _ => ?_
              rw [lock] at others
              exact others other
  | locked left =>
      rw [at_id] at own
      exact .goto invariant.file ⟨own.1, own.2, rfl⟩ fun other _ => invariant.procs other
  | counted left operand =>
      rw [at_id] at own sound
      obtain ⟨created, lock, next⟩ := own
      refine .goto ?_ ⟨Option.some_ne_none _, lock⟩ fun other apart => ?_
      · change FileIs initial (append state.file operand)
        rw [next, (successor_eq_iff state.file).mpr sound]
        exact invariant.file.append created
      · exact (invariant.procs other).outside (invariant.alone lock apart)
          fun _ => Option.some_ne_none _
  | written left =>
      rw [at_id] at own
      refine .goto invariant.file own.1 fun other apart => ?_
      exact (invariant.procs other).outside (invariant.alone own.2 apart) fun created => created

/-- A line that is not the next number breaks the sequence. -/
theorem Invariant.sound_of_consecutive {initial : Option (List Int)} {state : State ι}
    (invariant : Invariant initial state) {id : ι}
    (consecutive : Consecutive initial (Counter.step state id).file) : Sound state id := by
  have own := invariant.procs id
  have file := invariant.file
  unfold Counter.step at consecutive
  unfold Sound
  cases at_id : state.procs id with
  | init =>
      rw [at_id] at own consecutive
      have missing : initial = none := own
      by_contra created
      rw [missing] at consecutive file
      exact file.succ_lastLine_ne_zero created (file.line_of_consecutive created consecutive).symm
  | counted left operand =>
      rw [at_id] at own consecutive
      have same := file.line_of_consecutive own.1 consecutive
      rw [own.2.2] at same
      exact (successor_eq_iff state.file).mp same
  | test => trivial
  | loop => trivial
  | locked => trivial
  | written => trivial

theorem reached_consecutive_iff {initial : Option (List Int)} {state : State ι}
    (invariant : Invariant initial state) (order : List ι) :
    (∀ earlier later, order = earlier ++ later →
        Consecutive initial (run step state earlier).file) ↔
      EveryStep step Sound state order := by
  induction order generalizing state with
  | nil =>
      refine iff_of_true (fun earlier later split => ?_) trivial
      rw [(List.nil_eq_append_iff.mp split).1]
      exact invariant.file.consecutive
  | cons id order ih =>
      constructor
      · intro consecutive
        have sound := invariant.sound_of_consecutive (consecutive [id] order rfl)
        refine ⟨sound, (ih (invariant.step sound)).mp fun earlier later split => ?_⟩
        exact consecutive (id :: earlier) later (by rw [split]; rfl)
      · rintro ⟨sound, rest⟩ earlier later split
        cases earlier with
        | nil => exact invariant.file.consecutive
        | cons head earlier =>
            obtain ⟨rfl, tail⟩ := List.cons.inj split
            exact (ih (invariant.step sound)).mpr rest earlier later tail

/-- Any number of processes, interleaved in any order, on a file that is absent or has lines:
in every state reached the appended lines are consecutive numbers exactly when no process
writes its first line once there is a file, and none counts past 64 bits. -/
theorem appended_consecutive_iff (initial : Option (List Int)) (order : List ι) :
    (∀ earlier later, order = earlier ++ later →
        Consecutive initial (run step (start initial) earlier).file) ↔
      EveryStep step Sound (start initial) order :=
  reached_consecutive_iff (start_invariant initial) order

/-- Two processes that start together on an absent file both write a 0. -/
theorem zero_written_twice :
    ¬ ∀ earlier later, [false, true, false, true] = earlier ++ later →
      Consecutive none (run step (start none : State Bool) earlier).file := by
  intro consecutive
  have last := consecutive [false, true, false, true] [] rfl
  have file : (run step (start none : State Bool) [false, true, false, true]).file =
      append (some [0]) 0 := by decide
  rw [file] at last
  have first : FileIs none (some [0]) := .counted 1 fun _ => Nat.one_pos
  have next := first.line_of_consecutive (Option.some_ne_none _) last
  exact first.succ_lastLine_ne_zero (Option.some_ne_none _) next.symm

end Ve482.Counter
