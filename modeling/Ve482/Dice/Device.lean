import Ve482.Lib.CString

set_option autoImplicit false

namespace Ve482.Dice

open CString

abbrev diceDevs : Nat := 3
abbrev diceNumDefault : Int32 := 2
abbrev maxDiceStr : Nat := 10240
abbrev maxDiceIn : Nat := 10

abbrev efault : Int := 14
abbrev einval : Int := 22

/-- `TYPE_REGULAR`, `TYPE_BACKGAMMON` and `TYPE_GENERIC`. -/
inductive DiceType where
  | regular
  | backgammon
  | generic
  deriving DecidableEq, Repr

/-- The module parameter. A generic die is rolled with a division by it. -/
structure Params where
  genSides : Int32
  nonzero : genSides ≠ 0

/-- `GEN_SIDES`. -/
def Params.default : Params := { genSides := 20, nonzero := by decide }

/-- `struct dice_dev`, less its `cdev`. -/
structure DiceDev where
  num : Int32
  diceType : DiceType
  deriving DecidableEq, Repr

/-- The static variables of the module. -/
structure Driver where
  diceDevices : Fin diceDevs → DiceDev
  diceNum : Int32

def Driver.setNum (driver : Driver) (minor : Fin diceDevs) (num : Int32) : Driver :=
  { driver with
    diceDevices := Function.update driver.diceDevices minor
      { driver.diceDevices minor with num := num } }

/-- `dice_initialization`. -/
def diceInitialization : Driver :=
  { diceDevices := fun minor =>
      { num := diceNumDefault
        diceType :=
          if minor.val = 0 then .regular
          else if minor.val = 1 then .backgammon
          else .generic }
    diceNum := diceNumDefault }

/-! The rendering of `dice_read`. -/

/-- `rd[i]`, from the bytes that `get_random_bytes` puts there. -/
def rollFace (params : Params) : DiceType → Int32 → Int32
  | .regular, rd => ((rd % 6) + 12) % 6
  | .backgammon, rd => ((rd % 6) + 12) % 6
  | .generic, rd => ((rd % params.genSides) + 2 * params.genSides) % params.genSides + 1

/-- The array `rd` after the loop that fills it. -/
def roll (params : Params) (diceType : DiceType) (diceNum : Int32) (random : Nat → Int32) :
    List Int32 :=
  (List.range diceNum.toInt.toNat).map fun i => rollFace params diceType (random i)

def diceRegPattern : List (List Text) :=
  [["|     |  ", "|     |  ", "|  o  |  ", "| o o |  ", "| o o |  ", "| o o |  "].map bytes,
    ["|  o  |  ", "| o o |  ", "|     |  ", "|     |  ", "|  o  |  ", "| o o |  "].map bytes,
    ["|     |  ", "|     |  ", "| o o |  ", "| o o |  ", "| o o |  ", "| o o |  "].map bytes]

def diceBackgammon : List Text := ["2", "4", "8", "16", "32", "64"].map bytes

/-- A line of regular dice: one `snprintf` for each die and one for the end of the line. -/
def regularLine (rd : List Int32) (piece : Int32 → Text) : List Text :=
  rd.map piece ++ [bytes "\n"]

def regularPattern (row : Nat) (face : Int32) : Text :=
  (diceRegPattern.getD row []).getD face.toInt.toNat []

def backgammonPiece (face : Int32) : Text := diceBackgammon.getD face.toInt.toNat [] ++ bytes " "

def genericPiece (face : Int32) : Text := decimal face.toInt ++ bytes " "

/-- What each `snprintf` of a rendering appends to `str`, in order. The size that it is given
is never reached by one piece. -/
def pieces : DiceType → List Int32 → List Text
  | .regular, rd =>
      regularLine rd (fun _ => bytes "-------  ") ++ regularLine rd (regularPattern 0) ++
        regularLine rd (regularPattern 1) ++ regularLine rd (regularPattern 2) ++
        regularLine rd (fun _ => bytes "-------  ")
  | .backgammon, rd => rd.map backgammonPiece ++ [bytes "\n"]
  | .generic, rd => rd.map genericPiece ++ [bytes "\n"]

/-- `str`, up to its end. -/
def render (diceType : DiceType) (rd : List Int32) : Text := (pieces diceType rd).flatten

/-- The return value, `*offp` and what is in the user's buffer after a `dice_read`. -/
structure ReadResult where
  ret : Int
  offp : Nat
  buff : Text
  deriving DecidableEq, Repr

/-- A `dice_read` of one device: the values of `get_random_bytes`, and whether `copy_to_user`
succeeds. -/
structure ReadCall where
  random : Nat → Int32
  copied : Bool
  count : Nat

def diceRead (params : Params) (driver : Driver) (minor : Fin diceDevs) (call : ReadCall)
    (offp : Nat) : ReadResult × Driver :=
  let dev := driver.diceDevices minor
  let driver := { driver with diceNum := dev.num }
  let str := render dev.diceType (roll params dev.diceType driver.diceNum call.random)
  let strcount := str.length
  if offp ≥ strcount then ({ ret := 0, offp := offp, buff := [] }, driver)
  else
    let count := if offp + call.count > strcount then strcount - offp else call.count
    if !call.copied then ({ ret := -efault, offp := offp, buff := [] }, driver)
    else
      ({ ret := count, offp := offp + count, buff := (str.drop offp).take count }, driver)

/-! The number that `dice_write` reads. -/

/-- `kstrtoull` in base 10, after the sign. -/
def kstrtoull (text : Text) : Option Nat :=
  let digits := text.takeWhile isDigit
  let rest := text.drop digits.length
  if digits = [] then none
  else if number digits < 2 ^ 64 ∧ (rest = [] ∨ rest = [newline]) then some (number digits)
  else none

/-- `kstrtol(s, 10, &res)`, with `none` for an error, which leaves `res` alone. -/
def kstrtol (text : Text) : Option Int :=
  match text with
  | [] => none
  | c :: rest =>
      if c = minus then
        (kstrtoull rest).bind fun value => if value ≤ 2 ^ 63 then some (-(value : Int)) else none
      else
        (kstrtoull (if c = plus then rest else c :: rest)).bind fun value =>
          if value < 2 ^ 63 then some (value : Int) else none

/-- A `dice_write` of one device. `stack` is what `input_str` and the bytes behind it hold
before the copy. -/
structure WriteCall where
  buff : Text
  copied : Bool
  stack : Text

/-- `input_str` when it is parsed. With a count of 0 the NUL goes to the byte before it. -/
def WriteCall.input (call : WriteCall) : Text :=
  let copied := call.buff ++ call.stack.drop call.buff.length
  if call.buff = [] then copied else copied.set (call.buff.length - 1) 0

/-- `(int) tmp_num`. -/
def WriteCall.number (call : WriteCall) : Int32 :=
  Int32.ofInt ((kstrtol (cstr call.input)).getD 0)

def diceWrite (driver : Driver) (minor : Fin diceDevs) (call : WriteCall) : Int × Driver :=
  if call.buff.length > maxDiceIn then (-einval, driver)
  else if !call.copied then (-einval, driver)
  else
    let driver := { driver with diceNum := call.number }
    (call.buff.length, driver.setNum minor driver.diceNum)

end Ve482.Dice
