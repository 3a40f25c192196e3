import Ve482.Dice.Bounds

set_option autoImplicit false

namespace Ve482.Dice

open CString Chunks

/-- The number that a die of the other two kinds shows. -/
def faceNumber : DiceType → Int32 → Int
  | .backgammon, face => 2 ^ (face.toInt.toNat + 1)
  | .regular, face | .generic, face => face.toInt

def numeralWidth (value : Int) : Nat := Nat.log 10 value.natAbs + if value < 0 then 2 else 1

/-- What a number shows at a place: its sign, or the digit with so many others behind it. -/
def numeralShows (value : Int) (place : Nat) : UInt8 :=
  let behind := numeralWidth value - 1 - place
  if value < 0 ∧ place = 0 then minus else digit (value.natAbs / 10 ^ behind % 10)

/-- A blank comes after each number, and a line end after all of them. -/
def numbersShow : List Int → Nat → UInt8
  | [], _ => newline
  | value :: values, place =>
      if place < numeralWidth value then numeralShows value place
      else if place = numeralWidth value then blank
      else numbersShow values (place - (numeralWidth value + 1))

/-- Whether a row of a die has a spot in its middle, and whether it has one at each side. -/
def centre (row : Nat) (face : Int) : Prop := row = 0 ∧ face = 2 ∨ row = 1 ∧ (face = 0 ∨ face = 4)

def sides (row : Nat) (face : Int) : Prop :=
  row = 0 ∧ 3 ≤ face ∨ row = 1 ∧ (face = 1 ∨ face = 5) ∨ row = 2 ∧ 2 ≤ face

instance (row : Nat) (face : Int) : Decidable (centre row face) :=
  inferInstanceAs (Decidable (_ ∨ _))

instance (row : Nat) (face : Int) : Decidable (sides row face) :=
  inferInstanceAs (Decidable (_ ∨ _))

def bar : UInt8 := 124
def spot : UInt8 := 111

/-- What a die shows in one of its three rows. -/
def rowShows (row : Nat) (face : Int) (column : Nat) : UInt8 :=
  if column = 0 ∨ column = 6 then bar
  else if column = 3 ∧ centre row face ∨ (column = 2 ∨ column = 4) ∧ sides row face then spot
  else blank

/-- Five lines, with nine columns for each die. -/
def regularShows (rd : List Int32) (place : Nat) : UInt8 :=
  let line := place / (9 * rd.length + 1)
  let column := place % (9 * rd.length + 1)
  if column = 9 * rd.length then newline
  else if line = 0 ∨ line = 4 then if column % 9 < 7 then minus else blank
  else rowShows (line - 1) (rd.getD (column / 9) 0).toInt (column % 9)

/-- What some faces show at a place. -/
def shows (diceType : DiceType) (rd : List Int32) : Nat → UInt8 :=
  match diceType with
  | .regular => regularShows rd
  | .backgammon | .generic => numbersShow (rd.map (faceNumber diceType))

theorem decimal_length (value : Int) : (decimal value).length = numeralWidth value := by
  unfold decimal numeralWidth
  split
  · rw [List.length_cons, length_decimalNat]
  · rw [length_decimalNat]

theorem decimal_getD (value : Int) {place : Nat} (inside : place < numeralWidth value) :
    (decimal value).getD place 0 = numeralShows value place := by
  unfold decimal numeralShows
  unfold numeralWidth at inside ⊢
  by_cases negative : value < 0
  · rw [if_pos negative] at inside ⊢
    rw [if_pos negative]
    cases place with
    | zero => rw [if_pos ⟨negative, rfl⟩, List.getD_cons_zero]
    | succ place =>
        rw [if_neg fun both => Nat.succ_ne_zero place both.2, List.getD_cons_succ,
          decimalNat_getD _ (by omega)]
        congr 4
        omega
  · rw [if_neg negative] at inside ⊢
    rw [if_neg negative, if_neg fun both => negative both.1, decimalNat_getD _ (by omega)]
    rfl

/-- Numbers as they are printed, a blank after each. -/
theorem numbers_getD (values : List Int) {place : Nat}
    (inside : place < (values.map fun value => decimal value ++ bytes " ").flatten.length + 1) :
    ((values.map fun value => decimal value ++ bytes " ").flatten ++ bytes "\n").getD place 0 =
      numbersShow values place := by
  induction values generalizing place with
  | nil =>
      obtain rfl : place = 0 := Nat.lt_one_iff.mp inside
      rfl
  | cons value values ih =>
      have width := decimal_length value
      rw [List.map_cons, List.flatten_cons, List.length_append, List.length_append] at inside
      have one : (bytes " ").length = 1 := rfl
      rw [List.map_cons, List.flatten_cons, numbersShow, List.append_assoc, List.append_assoc]
      by_cases number : place < numeralWidth value
      · rw [if_pos number, List.getD_append _ _ _ _ (by omega), decimal_getD value number]
      · rw [if_neg number, List.getD_append_right _ _ _ _ (by omega), width]
        by_cases last : place = numeralWidth value
        · rw [if_pos last, last, Nat.sub_self]
          rfl
        · rw [if_neg last, List.getD_append_right _ _ _ _ (by omega), one, Nat.sub_sub, ih (by omega)]

theorem backgammonPiece_eq {face : Int32} (range : 0 ≤ face.toInt ∧ face.toInt < 6) :
    backgammonPiece face = decimal (faceNumber .backgammon face) ++ bytes " " := by
  obtain ⟨k, same⟩ := Int.eq_ofNat_of_zero_le range.1
  have all : ∀ k < 6, diceBackgammon.getD k [] = decimal (2 ^ (k + 1)) := by decide +kernel
  have number : faceNumber .backgammon face = 2 ^ (k + 1) := by
    rw [faceNumber, same, Int.toNat_natCast]
  rw [backgammonPiece, number, same, Int.toNat_natCast, all k (by omega)]

theorem regularPattern_getD {row : Nat} (inside : row < 3) {face : Int32}
    (range : 0 ≤ face.toInt ∧ face.toInt < 6) {column : Nat} (small : column < 9) :
    (regularPattern row face).getD column 0 = rowShows row face.toInt column := by
  obtain ⟨k, same⟩ := Int.eq_ofNat_of_zero_le range.1
  have all : ∀ row < 3, ∀ k < 6, ∀ column < 9,
      ((diceRegPattern.getD row []).getD k []).getD column 0 = rowShows row (k : Int) column := by
    decide +kernel
  unfold regularPattern
  rw [same, Int.toNat_natCast, all row inside k (by omega) column small]

/-- A line of regular dice: nine columns for each die. -/
theorem regularLine_getD {rd : List Int32} {piece : Int32 → Text}
    (nine : ∀ face ∈ rd, (piece face).length = 9) {column : Nat} (inside : column ≤ 9 * rd.length) :
    (regularLine rd piece).flatten.getD column 0 =
      if column = 9 * rd.length then newline
      else (piece (rd.getD (column / 9) 0)).getD (column % 9) 0 := by
  have length : (rd.map piece).flatten.length = 9 * rd.length := by
    rw [flatten_map_length rd piece (fun _ => 9) nine, List.map_const', List.sum_replicate_nat,
      Nat.mul_comm]
  have pieces : ∀ text ∈ rd.map piece, text.length = 9 := List.forall_mem_map.mpr nine
  rw [regularLine, List.flatten_append]
  by_cases last : column = 9 * rd.length
  · rw [if_pos last, List.getD_append_right _ _ _ _ (by omega), length, last, Nat.sub_self]
    rfl
  · have die : column / 9 < rd.length := by omega
    rw [if_neg last, List.getD_append _ _ _ _ (by omega), flatten_getD (by decide) pieces,
      getD_map_of_lt piece die [] 0]

theorem regular_getD {rd : List Int32} (range : ∀ face ∈ rd, 0 ≤ face.toInt ∧ face.toInt < 6)
    {place : Nat} (inside : place < width .regular rd) :
    (render .regular rd).getD place 0 = regularShows rd place := by
  let size := 9 * rd.length + 1
  let border : Int32 → Text := fun _ => bytes "-------  "
  let lines := [border, regularPattern 0, regularPattern 1, regularPattern 2, border]
  have nine : ∀ piece ∈ lines, ∀ face ∈ rd, (piece face).length = 9 := by
    have edge : ∀ face ∈ rd, (border face).length = 9 := fun _ _ => by decide +kernel
    have pattern (row : Nat) (low : row < 3) : ∀ face ∈ rd, (regularPattern row face).length = 9 :=
      fun face member => regularPattern_length low (range face member)
    simp only [lines, List.forall_mem_cons, List.not_mem_nil, false_implies, implies_true, and_true]
    exact ⟨edge, pattern 0 (by decide), pattern 1 (by decide), pattern 2 (by decide), edge⟩
  have whole : render .regular rd =
      (lines.map fun piece => (regularLine rd piece).flatten).flatten := by
    simp only [render, pieces, lines, List.map_cons, List.map_nil, List.flatten_append,
      List.flatten_cons, List.flatten_nil, List.append_nil, List.append_assoc, border]
  have sizes : ∀ text ∈ lines.map fun piece => (regularLine rd piece).flatten,
      text.length = size := List.forall_mem_map.mpr fun piece member =>
    regularLine_length rd piece (nine piece member)
  have line : place / size < 5 := Nat.div_lt_of_lt_mul (by rw [Nat.mul_comm]; exact inside)
  have column : place % size ≤ 9 * rd.length := Nat.le_of_lt_succ (Nat.mod_lt _ (Nat.succ_pos _))
  have listed : place / size < lines.length := line
  rw [whole, flatten_getD (Nat.succ_pos _) sizes, getD_map_of_lt _ listed [] border,
    List.getD_eq_getElem _ _ listed, regularLine_getD (nine _ (List.getElem_mem listed)) column,
    regularShows]
  by_cases last : place % size = 9 * rd.length
  · rw [if_pos last, if_pos last]
  · rw [if_neg last, if_neg last]
    have die : place % size / 9 < rd.length := by omega
    have face := range _ (List.getElem_mem die)
    have small : place % size % 9 < 9 := Nat.mod_lt _ (by decide)
    have edge : ∀ column < 9, (bytes "-------  ").getD column 0 =
        if column < 7 then minus else blank := by decide +kernel
    rw [List.getD_eq_getElem _ _ die]
    generalize place / size = row at line listed
    have rows : row = 0 ∨ row = 1 ∨ row = 2 ∨ row = 3 ∨ row = 4 := by omega
    rcases rows with rfl | rfl | rfl | rfl | rfl
    · exact edge _ small
    · exact regularPattern_getD (by decide) face small
    · exact regularPattern_getD (by decide) face small
    · exact regularPattern_getD (by decide) face small
    · exact edge _ small

/-- A rendering, place by place. -/
theorem render_getD {diceType : DiceType} {rd : List Int32}
    (range : diceType ≠ .generic → ∀ face ∈ rd, 0 ≤ face.toInt ∧ face.toInt < 6) {place : Nat}
    (inside : place < width diceType rd) :
    (render diceType rd).getD place 0 = shows diceType rd place := by
  have length : (render diceType rd).length = width diceType rd := render_length range
  have numbers (piece : Int32 → Text)
      (same : ∀ face ∈ rd, piece face = decimal (faceNumber diceType face) ++ bytes " ")
      (rendered : render diceType rd = (rd.map piece).flatten ++ bytes "\n") :
      (render diceType rd).getD place 0 = numbersShow (rd.map (faceNumber diceType)) place := by
    have pieces : rd.map piece =
        (rd.map (faceNumber diceType)).map fun value => decimal value ++ bytes " " := by
      rw [List.map_map]
      exact List.map_congr_left same
    rw [pieces] at rendered
    have line : (bytes "\n").length = 1 := rfl
    rw [← length, rendered, List.length_append, line] at inside
    rw [rendered, numbers_getD _ inside]
  cases diceType with
  | regular => exact regular_getD (range (by decide)) inside
  | backgammon =>
      refine numbers backgammonPiece (fun face member => ?_) ?_
      · exact backgammonPiece_eq (range (by decide) face member)
      · rw [render, pieces, List.flatten_append, List.flatten_singleton]
  | generic =>
      refine numbers genericPiece (fun _ _ => rfl) ?_
      rw [render, pieces, List.flatten_append, List.flatten_singleton]

end Ve482.Dice
