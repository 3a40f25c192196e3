import Ve482.Dice.Faces
import Ve482.Lib.Chunks
import Ve482.Lib.Runs
import Mathlib.Data.List.GetD

set_option autoImplicit false

namespace Ve482.Dice

open CString Runs
open Chunks (appended_below_iff)

/-- The rendering of a `dice_read` stays inside its arrays: `rd` has a positive length and holds
every index that is used, the tables hold every face, and each `snprintf` writes its piece and
the NUL inside `str`. -/
structure RendersInside (dev : DiceDev) (rd : List Int32) : Prop where
  length : 0 < dev.num.toInt
  indices : ∀ i : Nat, (i : Int) < dev.num.toInt → i < rd.length
  faces : dev.diceType ≠ .generic → ∀ face ∈ rd, 0 ≤ face.toInt ∧ face.toInt < 6
  running : ∀ before after, pieces dev.diceType rd = before ++ after →
    before.flatten.length ≤ maxDiceStr
  inside : ∀ before piece after, pieces dev.diceType rd = before ++ piece :: after →
    before.flatten.length + piece.length < maxDiceStr

/-- The calls on the devices, in the order in which they are made. -/
inductive DiceCall where
  | read (minor : Fin diceDevs) (call : ReadCall) (offp : Nat)
  | write (minor : Fin diceDevs) (call : WriteCall)

def next (params : Params) (driver : Driver) : DiceCall → Driver
  | .read minor call offp => (diceRead params driver minor call offp).2
  | .write minor call => (diceWrite driver minor call).2

/-- What a read rolls in the state in which it is made. -/
def Driver.rolls (params : Params) (driver : Driver) (minor : Fin diceDevs) (call : ReadCall) :
    List Int32 :=
  roll params (driver.diceDevices minor).diceType (driver.diceDevices minor).num call.random

def InBounds (params : Params) (driver : Driver) : DiceCall → Prop
  | .read minor call _ =>
      RendersInside (driver.diceDevices minor) (driver.rolls params minor call)
  | .write _ _ => True

/-- How many characters some dice take: nine in each of five lines, or the digits of the
numbers that they show with a blank after each. -/
def width : DiceType → List Int32 → Nat
  | .regular, rd => 5 * (9 * rd.length + 1)
  | .backgammon, rd => (rd.map fun face => if face.toInt < 3 then 2 else 3).sum + 1
  | .generic, rd => (rd.map fun face => (decimal face.toInt).length + 1).sum + 1

/-- At least one die, and few enough of them for `str`. -/
def Fits (params : Params) (driver : Driver) : DiceCall → Prop
  | .read minor call _ =>
      0 < (driver.diceDevices minor).num.toInt ∧
        width (driver.diceDevices minor).diceType (driver.rolls params minor call) < maxDiceStr
  | .write _ _ => True

theorem rollFace_range (params : Params) {diceType : DiceType} (six : diceType ≠ .generic)
    (rd : Int32) :
    0 ≤ (rollFace params diceType rd).toInt ∧ (rollFace params diceType rd).toInt < 6 := by
  have same : rollFace params diceType rd = ((rd % 6) + 12) % 6 := by
    cases diceType with
    | regular => rfl
    | backgammon => rfl
    | generic => exact absurd rfl six
  have face : (((rd % 6) + 12) % 6).toInt = rd.toInt % 6 := sixSided_face rd
  rw [same, face]
  omega

theorem roll_length (params : Params) (diceType : DiceType) (diceNum : Int32)
    (random : Nat → Int32) : (roll params diceType diceNum random).length = diceNum.toInt.toNat := by
  rw [roll, List.length_map, List.length_range]

theorem roll_range (params : Params) {diceType : DiceType} (six : diceType ≠ .generic)
    (diceNum : Int32) (random : Nat → Int32) :
    ∀ face ∈ roll params diceType diceNum random, 0 ≤ face.toInt ∧ face.toInt < 6 := by
  intro face member
  obtain ⟨i, -, rfl⟩ := List.mem_map.mp member
  exact rollFace_range params six (random i)

theorem flatten_map_length {α : Type} (rd : List α) (piece : α → Text) (length : α → Nat)
    (same : ∀ face ∈ rd, (piece face).length = length face) :
    (rd.map piece).flatten.length = (rd.map length).sum := by
  rw [List.length_flatten, List.map_map]
  exact congrArg List.sum (List.map_congr_left same)

theorem regularLine_length (rd : List Int32) (piece : Int32 → Text)
    (nine : ∀ face ∈ rd, (piece face).length = 9) :
    (regularLine rd piece).flatten.length = 9 * rd.length + 1 := by
  rw [regularLine, List.flatten_append, List.length_append,
    flatten_map_length rd piece (fun _ => 9) nine, List.map_const',
    List.sum_replicate_nat, Nat.mul_comm]
  rfl

theorem regularPattern_length {row : Nat} (inside : row < 3) {face : Int32}
    (range : 0 ≤ face.toInt ∧ face.toInt < 6) : (regularPattern row face).length = 9 := by
  have all : ∀ patterns ∈ diceRegPattern, patterns.length = 6 ∧
      ∀ pattern ∈ patterns, pattern.length = 9 := by decide +kernel
  have rows : row < diceRegPattern.length := inside
  obtain ⟨six, nine⟩ := all _ (List.getElem_mem rows)
  have column : face.toInt.toNat < diceRegPattern[row].length := by omega
  rw [regularPattern, List.getD_eq_getElem _ _ rows, List.getD_eq_getElem _ _ column]
  exact nine _ (List.getElem_mem column)

theorem backgammonPiece_length {face : Int32} (range : 0 ≤ face.toInt ∧ face.toInt < 6) :
    (backgammonPiece face).length = if face.toInt < 3 then 2 else 3 := by
  obtain ⟨k, same⟩ := Int.eq_ofNat_of_zero_le range.1
  have all : ∀ k < 6, (diceBackgammon.getD k [] ++ bytes " ").length = if k < 3 then 2 else 3 := by
    decide +kernel
  unfold backgammonPiece
  rw [same, Int.toNat_natCast, all k (by omega)]
  simp only [Nat.cast_lt_ofNat]

theorem render_length {diceType : DiceType} {rd : List Int32}
    (range : diceType ≠ .generic → ∀ face ∈ rd, 0 ≤ face.toInt ∧ face.toInt < 6) :
    (pieces diceType rd).flatten.length = width diceType rd := by
  cases diceType with
  | regular =>
      have faces := range (by decide)
      have border := regularLine_length rd (fun _ => bytes "-------  ") fun _ _ => by decide +kernel
      have pattern (row : Nat) (inside : row < 3) :=
        regularLine_length rd (regularPattern row) fun face member =>
          regularPattern_length inside (faces face member)
      simp only [pieces, List.flatten_append, List.length_append, border, pattern 0 (by decide),
        pattern 1 (by decide), pattern 2 (by decide), width]
      omega
  | backgammon =>
      have faces := range (by decide)
      rw [pieces, List.flatten_append, List.length_append, flatten_map_length rd backgammonPiece _
        fun face member => backgammonPiece_length (faces face member)]
      rfl
  | generic =>
      rw [pieces, List.flatten_append, List.length_append,
        flatten_map_length rd genericPiece (fun face => (decimal face.toInt).length + 1)
          fun face _ => List.length_append]
      rfl

theorem pieces_ne_nil (diceType : DiceType) (rd : List Int32) : pieces diceType rd ≠ [] := by
  cases diceType <;> simp [pieces, regularLine]

/-- One read. -/
theorem rendersInside_iff (params : Params) (dev : DiceDev) (random : Nat → Int32) :
    RendersInside dev (roll params dev.diceType dev.num random) ↔
      0 < dev.num.toInt ∧
        width dev.diceType (roll params dev.diceType dev.num random) < maxDiceStr := by
  have range := fun six => @roll_range params dev.diceType six dev.num random
  have length := roll_length params dev.diceType dev.num random
  generalize roll params dev.diceType dev.num random = rd at range length
  have below := appended_below_iff (pieces_ne_nil dev.diceType rd) maxDiceStr
  rw [render_length range] at below
  constructor
  · intro renders
    exact ⟨renders.length, below.mp renders.inside⟩
  · rintro ⟨positive, fits⟩
    refine ⟨positive, fun i small => by omega, range, fun before after split => ?_, below.mpr fits⟩
    have whole := render_length range
    rw [split, List.flatten_append, List.length_append] at whole
    omega

/-- Over every sequence of calls on the devices, from any state: the reads render inside their
arrays exactly when each finds at least one die in its device, and few enough for `str`. -/
theorem renderings_inBounds_iff (params : Params) (driver : Driver) (calls : List DiceCall) :
    EveryStep (next params) (InBounds params) driver calls ↔
      EveryStep (next params) (Fits params) driver calls := by
  refine everyStep_congr (fun _ => True) (fun state call _ => ?_) (fun _ _ _ _ => trivial) trivial
  cases call with
  | read minor call offp => exact rendersInside_iff params (state.diceDevices minor) call.random
  | write minor call => exact Iff.rfl

/-- `echo` of a text to a device. -/
def echo (minor : Fin diceDevs) (text : String) : DiceCall :=
  .write minor { buff := bytes text, copied := true, stack := [] }

def cat (minor : Fin diceDevs) : DiceCall :=
  .read minor { random := fun _ => 0, copied := true, count := 131072 } 0

/-- The number of dice fits the input, and the rendering does not fit `str`. -/
theorem regular_228_outside :
    ¬ EveryStep (next .default) (InBounds .default) diceInitialization
      [echo 0 "228\n", cat 0] := by
  intro inBounds
  have fits := (rendersInside_iff .default _ _).mp inBounds.2.1
  have number : ((next .default diceInitialization (echo 0 "228\n")).diceDevices 0) =
      { num := 228, diceType := .regular } := by decide +kernel
  rw [number, width, roll_length] at fits
  exact absurd fits.2 (by decide +kernel)

end Ve482.Dice
