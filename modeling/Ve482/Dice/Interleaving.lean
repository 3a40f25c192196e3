import Ve482.Dice.Device
import Ve482.Lib.Runs
import Mathlib.Logic.Function.Basic

set_option autoImplicit false

namespace Ve482.Dice

open CString Runs

/-- Whether the loops of `dice_read` up to `dice_num` index `rd`, in order: the one that fills
it, and those that render it. -/
def loops : DiceType → List Bool
  | .regular => [true, false, true, true, true, false]
  | .backgammon => [true, true]
  | .generic => [true, true]

inductive ReadPc where
  | start
  | loaded
  | looping (loop i : Nat)
  | finished
  deriving DecidableEq, Repr

/-- A `dice_read` on its way. `num` is what its device held when it loaded it, and the last two
fields are history: the indices used in `rd`, and how many dice each loop rendered. -/
structure Reading where
  minor : Fin diceDevs
  pc : ReadPc
  diceType : DiceType
  num : Int32
  length : Int32
  used : List Nat
  rendered : List Nat
  deriving DecidableEq, Repr

inductive WritePc where
  | start
  | parsed
  | stored
  | finished
  deriving DecidableEq, Repr

/-- A `dice_write` on its way, with the number that it parses. -/
structure Writing where
  minor : Fin diceDevs
  pc : WritePc
  number : Int32
  deriving DecidableEq, Repr

inductive Handler where
  | read (reading : Reading)
  | write (writing : Writing)
  deriving DecidableEq, Repr

/-- The module with its calls under way, of which there may be any number. -/
structure System (ι : Type) where
  driver : Driver
  calls : ι → Handler

/-- A step of a read looks at `dice_num` at most once: to size `rd`, or to test a loop, whose
body it then runs. -/
def Reading.step (driver : Driver) (reading : Reading) : Driver × Reading :=
  match reading.pc with
  | .start =>
      let dev := driver.diceDevices reading.minor
      ({ driver with diceNum := dev.num },
        { reading with pc := .loaded, diceType := dev.diceType, num := dev.num })
  | .loaded => (driver, { reading with pc := .looping 0 0, length := driver.diceNum })
  | .looping loop i =>
      match (loops reading.diceType)[loop]? with
      | none => (driver, { reading with pc := .finished })
      | some indexes =>
          if (i : Int) < driver.diceNum.toInt then
            (driver,
              { reading with
                pc := .looping loop (i + 1)
                used := if indexes then reading.used ++ [i] else reading.used })
          else
            (driver,
              { reading with
                pc := .looping (loop + 1) 0
                rendered := if loop = 0 then reading.rendered else reading.rendered ++ [i] })
  | .finished => (driver, reading)

def Writing.step (driver : Driver) (writing : Writing) : Driver × Writing :=
  match writing.pc with
  | .start => (driver, { writing with pc := .parsed })
  | .parsed => ({ driver with diceNum := writing.number }, { writing with pc := .stored })
  -- the number is read back from the variable that all calls share
  | .stored => (driver.setNum writing.minor driver.diceNum, { writing with pc := .finished })
  | .finished => (driver, writing)

def Handler.step (driver : Driver) : Handler → Driver × Handler
  | .read reading => ((reading.step driver).1, .read (reading.step driver).2)
  | .write writing => ((writing.step driver).1, .write (writing.step driver).2)

def System.step {ι : Type} [DecidableEq ι] (system : System ι) (id : ι) : System ι :=
  let result := (system.calls id).step system.driver
  { driver := result.1, calls := Function.update system.calls id result.2 }

def Handler.Fresh : Handler → Prop
  | .read reading => reading.pc = .start ∧ reading.used = [] ∧ reading.rendered = []
  | .write writing => writing.pc = .start

/-- Every index was below the length of `rd`, and every loop that has ended rendered as many dice
as the device held. -/
structure Reading.Sound (reading : Reading) : Prop where
  used : ∀ i ∈ reading.used, (i : Int) < reading.length.toInt
  rendered : ∀ count ∈ reading.rendered, count = reading.num.toInt.toNat
  all : reading.pc = .finished → reading.rendered.length + 1 = (loops reading.diceType).length

def System.Sound {ι : Type} (system : System ι) : Prop :=
  ∀ id reading, system.calls id = .read reading → reading.Sound

/-- What the step makes of `dice_num` is what it would make of the read's own number: the
length of `rd`, or the outcome of a loop's test. -/
def Reading.Undisturbed (driver : Driver) (reading : Reading) : Prop :=
  match reading.pc with
  | .loaded => driver.diceNum = reading.num
  | .looping loop i =>
      loop < (loops reading.diceType).length →
        ((i : Int) < driver.diceNum.toInt ↔ (i : Int) < reading.num.toInt)
  | _ => True

instance (driver : Driver) (reading : Reading) : Decidable (reading.Undisturbed driver) := by
  unfold Reading.Undisturbed
  split <;> infer_instance

def Handler.Undisturbed (driver : Driver) : Handler → Prop
  | .read reading => reading.Undisturbed driver
  | .write _ => True

instance (driver : Driver) : (handler : Handler) → Decidable (handler.Undisturbed driver)
  | .read reading => inferInstanceAs (Decidable (reading.Undisturbed driver))
  | .write _ => .isTrue trivial

def System.Undisturbed {ι : Type} (system : System ι) (id : ι) : Prop :=
  (system.calls id).Undisturbed system.driver

instance {ι : Type} (system : System ι) (id : ι) : Decidable (system.Undisturbed id) :=
  inferInstanceAs (Decidable ((system.calls id).Undisturbed system.driver))

/-- Where an undisturbed read is. -/
inductive Reading.Progress (reading : Reading) : Prop where
  | early (before : reading.pc = .start ∨ reading.pc = .loaded) (used : reading.used = [])
      (rendered : reading.rendered = [])
  | looping {loop i : Nat} (at_loop : reading.pc = .looping loop i)
      (length : reading.length = reading.num) (within : i ≤ reading.num.toInt.toNat)
      (inside : loop ≤ (loops reading.diceType).length)
      (used : ∀ i ∈ reading.used, (i : Int) < reading.num.toInt)
      (rendered : reading.rendered = List.replicate (loop - 1) reading.num.toInt.toNat)
  | finished (ended : reading.pc = .finished) (length : reading.length = reading.num)
      (used : ∀ i ∈ reading.used, (i : Int) < reading.num.toInt)
      (rendered : reading.rendered =
        List.replicate ((loops reading.diceType).length - 1) reading.num.toInt.toNat)

theorem loops_length_pos (diceType : DiceType) : 0 < (loops diceType).length := by
  cases diceType <;> decide

theorem Reading.Progress.sound {reading : Reading} (progress : reading.Progress) :
    reading.Sound := by
  cases progress with
  | early before used rendered =>
      refine ⟨?_, ?_, fun ended => ?_⟩
      · rw [used]
        exact fun i member => by cases member
      · rw [rendered]
        exact fun count member => by cases member
      · rcases before with start | loaded
        · rw [start] at ended
          cases ended
        · rw [loaded] at ended
          cases ended
  | looping at_loop length within inside used rendered =>
      refine ⟨length ▸ used, ?_, fun ended => ?_⟩
      · rw [rendered]
        exact fun count member => List.eq_of_mem_replicate member
      · rw [at_loop] at ended
        cases ended
  | finished ended length used rendered =>
      refine ⟨length ▸ used, ?_, fun _ => ?_⟩
      · rw [rendered]
        exact fun count member => List.eq_of_mem_replicate member
      · have some := loops_length_pos reading.diceType
        rw [rendered, List.length_replicate]
        omega

theorem Reading.Progress.step {driver : Driver} {reading : Reading} (progress : reading.Progress)
    (undisturbed : reading.Undisturbed driver) : (reading.step driver).2.Progress := by
  unfold Reading.Undisturbed at undisturbed
  cases progress with
  | early before used rendered =>
      unfold Reading.step
      rcases before with start | loaded
      · rw [start]
        exact .early (.inr rfl) used rendered
      · rw [loaded] at undisturbed ⊢
        refine .looping rfl undisturbed (Nat.zero_le _) (Nat.zero_le _) ?_ rendered
        intro i member
        rw [show reading.used = [] from used] at member
        cases member
  | @looping loop i at_loop length within inside used rendered =>
      rw [at_loop] at undisturbed
      unfold Reading.step
      rw [at_loop]
      dsimp only
      cases found : (loops reading.diceType)[loop]? with
      | none =>
          have last : loop = (loops reading.diceType).length := by
            have past := List.getElem?_eq_none_iff.mp found
            omega
          exact .finished rfl length used (last ▸ rendered)
      | some indexes =>
          have more := (List.getElem?_eq_some_iff.mp found).1
          have test := undisturbed more
          dsimp only
          by_cases again : (i : Int) < driver.diceNum.toInt
          · have own := test.mp again
            rw [if_pos again]
            refine .looping rfl length ?_ inside ?_ rendered
            · change i + 1 ≤ reading.num.toInt.toNat
              omega
            · intro j member
              change j ∈ (if indexes then reading.used ++ [i] else reading.used) at member
              cases indexes with
              | false => exact used j member
              | true =>
                  rcases List.mem_append.mp member with old | new
                  · exact used j old
                  · rw [List.mem_singleton.mp new]
                    exact own
          · have own : ¬ (i : Int) < reading.num.toInt := fun less => again (test.mpr less)
            have whole : i = reading.num.toInt.toNat := by omega
            rw [if_neg again]
            refine .looping rfl length (Nat.zero_le _) more used ?_
            change (if loop = 0 then reading.rendered else reading.rendered ++ [i]) = _
            cases loop with
            | zero => exact rendered
            | succ loop =>
                rw [if_neg (Nat.succ_ne_zero loop), rendered, whole, Nat.add_sub_cancel,
                  Nat.add_sub_cancel, List.replicate_succ']
  | finished ended length used rendered =>
      unfold Reading.step
      rw [ended]
      exact .finished ended length used rendered

/-- Every read is where its own number led it. -/
def System.Progress {ι : Type} (system : System ι) : Prop :=
  ∀ id reading, system.calls id = .read reading → reading.Progress

theorem System.Progress.step {ι : Type} [DecidableEq ι] {system : System ι}
    (progress : system.Progress) {id : ι} (undisturbed : system.Undisturbed id) :
    (system.step id).Progress := by
  intro other reading after
  by_cases same : other = id
  · subst same
    have updated : (system.step other).calls other =
        ((system.calls other).step system.driver).2 := Function.update_self ..
    have made := updated.symm.trans after
    unfold System.Undisturbed at undisturbed
    cases before : system.calls other with
    | write writing =>
        rw [before] at made
        cases made
    | read earlier =>
        rw [before] at made undisturbed
        cases made
        exact (progress other earlier before).step undisturbed
  · have kept : (system.step id).calls other = system.calls other :=
      Function.update_of_ne same ..
    exact progress other reading (kept.symm.trans after)

/-- Any number of calls on any devices, interleaved in any order: as long as no step of a read
takes another number for its own, every read stays inside `rd` and renders as many dice as its
device held. -/
theorem interleaved_sound {ι : Type} [DecidableEq ι] (driver : Driver) (calls : ι → Handler)
    (fresh : ∀ id, (calls id).Fresh) (order : List ι)
    (undisturbed : EveryStep System.step System.Undisturbed ⟨driver, calls⟩ order) :
    (run System.step ⟨driver, calls⟩ order).Sound := by
  have initial : (⟨driver, calls⟩ : System ι).Progress := by
    intro id reading at_id
    have start := fresh id
    rw [show calls id = .read reading from at_id] at start
    exact .early (.inl start.1) start.2.1 start.2.2
  have progress := run_invariant System.Progress
    (fun system id progress undisturbed => progress.step undisturbed) initial undisturbed
  exact fun id reading at_id => (progress id reading at_id).sound

/-- A read that has not begun. -/
def readOf (minor : Fin diceDevs) : Handler :=
  .read
    { minor := minor, pc := .start, diceType := .generic, num := 0, length := 0, used := []
      rendered := [] }

def writeOf (minor : Fin diceDevs) (number : Int32) : Handler :=
  .write { minor := minor, pc := .start, number := number }

/-- A read of the regular dice and a write to the backgammon dice. -/
def readAndWrite (number : Int32) : Bool → Handler
  | false => readOf 0
  | true => writeOf 1 number

theorem readAndWrite_fresh (number : Int32) (id : Bool) : (readAndWrite number id).Fresh := by
  cases id
  · exact ⟨rfl, rfl, rfl⟩
  · rfl

/-- The write stores the number that all devices hold. -/
theorem interleaved_sound_same_number :
    (run System.step ⟨diceInitialization, readAndWrite 2⟩
      ([false, false, true, true, true] ++ List.replicate 19 false)).Sound :=
  interleaved_sound diceInitialization (readAndWrite 2) (readAndWrite_fresh 2) _
    (by decide +kernel)

/-- Between the sizing of `rd` and its first use the other device gets five dice. -/
theorem write_between_overruns :
    ¬ (run System.step ⟨diceInitialization, readAndWrite 5⟩
      [false, false, true, true, false, false, false]).Sound := by
  intro sound
  have after : (run System.step ⟨diceInitialization, readAndWrite 5⟩
      [false, false, true, true, false, false, false]).calls false =
        .read
          { minor := 0, pc := .looping 0 3, diceType := .regular, num := 2, length := 2
            used := [0, 1, 2], rendered := [] } := by decide +kernel
  exact absurd ((sound false _ after).used 2 (by decide)) (by decide)

end Ve482.Dice
