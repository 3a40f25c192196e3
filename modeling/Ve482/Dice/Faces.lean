import Ve482.Dice.Device
import Mathlib.Data.Int.ModEq

set_option autoImplicit false

namespace Ve482.Dice

/-- `((rd % sides) + lift) % sides`, where `lift` is a multiple of the number of sides: C's
remainder has the sign of `rd`, and the sum has none. -/
theorem reroll_eq (rd sides lift : Int32) (positive : 0 < sides.toInt)
    (multiple : sides.toInt ∣ lift.toInt) (above : sides.toInt ≤ lift.toInt)
    (fits : rd.toInt.tmod sides.toInt + lift.toInt < 2 ^ 31) :
    ((rd % sides) + lift).toInt = (rd % sides).toInt + lift.toInt ∧
      (((rd % sides) + lift) % sides).toInt = rd.toInt % sides.toInt := by
  have low : -sides.toInt < rd.toInt.tmod sides.toInt := Int.lt_tmod_of_pos rd.toInt positive
  have exact : ((rd % sides) + lift).toInt = (rd % sides).toInt + lift.toInt := by
    rw [Int32.toInt_add, Int32.toInt_mod]
    exact Int.bmod_eq_of_le (by omega) (by omega)
  refine ⟨exact, ?_⟩
  have remainder : rd.toInt.tmod sides.toInt + lift.toInt ≡ rd.toInt [ZMOD sides.toInt] := by
    have whole := Int.mul_tdiv_add_tmod rd.toInt sides.toInt
    obtain ⟨times, lifted⟩ := multiple
    rw [lifted]
    apply Int.modEq_iff_dvd.mpr
    exact ⟨rd.toInt.tdiv sides.toInt - times, by rw [Int.mul_sub]; omega⟩
  rw [Int32.toInt_mod, exact, Int32.toInt_mod, Int.tmod_eq_emod_of_nonneg (by omega)]
  exact remainder

theorem sixSided_face (rd : Int32) : (((rd % 6) + 12) % 6).toInt = rd.toInt % 6 := by
  have high : rd.toInt.tmod 6 < 6 := Int.tmod_lt_of_pos rd.toInt (by decide)
  have fits : rd.toInt.tmod (Int32.toInt 6) + Int32.toInt 12 < 2 ^ 31 := by
    rw [show Int32.toInt 6 = 6 from rfl, show Int32.toInt 12 = 12 from rfl]
    omega
  exact (reroll_eq rd 6 12 (by decide) (by decide) (by decide) fits).2

section

variable (params : Params)

/-- No operation on the way to a generic face leaves the range of an `int`. -/
structure NoOverflow (rd : Int32) : Prop where
  remainder : (rd % params.genSides).toInt = rd.toInt.tmod params.genSides.toInt
  doubled : (2 * params.genSides).toInt = 2 * params.genSides.toInt
  lifted : (rd % params.genSides + 2 * params.genSides).toInt =
    (rd % params.genSides).toInt + (2 * params.genSides).toInt
  reduced : ((rd % params.genSides + 2 * params.genSides) % params.genSides).toInt =
    (rd % params.genSides + 2 * params.genSides).toInt.tmod params.genSides.toInt
  face : (rollFace params .generic rd).toInt =
    ((rd % params.genSides + 2 * params.genSides) % params.genSides).toInt + 1

/-- A face of the die, and the one that the random value stands for. -/
def LegalFace (diceType : DiceType) (rd : Int32) : Prop :=
  let face := (rollFace params diceType rd).toInt
  match diceType with
  | .regular | .backgammon => (0 ≤ face ∧ face ≤ 5) ∧ face ≡ rd.toInt [ZMOD 6]
  | .generic => NoOverflow params rd ∧ (1 ≤ face ∧ face ≤ params.genSides.toInt) ∧
      face ≡ rd.toInt + 1 [ZMOD params.genSides.toInt]

/-- Twice the sides and the remainder are an `int`. -/
def SidesFit (diceType : DiceType) (rd : Int32) : Prop :=
  match diceType with
  | .regular | .backgammon => True
  | .generic =>
      2 * params.genSides.toInt + max 0 (rd.toInt.tmod params.genSides.toInt) < 2 ^ 31

theorem sixSided_legal {diceType : DiceType} (six : diceType ≠ .generic) (rd : Int32) :
    LegalFace params diceType rd := by
  have legal : (0 ≤ rd.toInt % 6 ∧ rd.toInt % 6 ≤ 5) ∧ rd.toInt % 6 ≡ rd.toInt [ZMOD 6] :=
    ⟨by omega, Int.mod_modEq rd.toInt 6⟩
  rw [← sixSided_face rd] at legal
  cases diceType with
  | regular => exact legal
  | backgammon => exact legal
  | generic => exact absurd rfl six

variable {params} (positive : 1 ≤ params.genSides.toInt)
include positive

theorem generic_legal {rd : Int32} (fit : SidesFit params .generic rd) :
    LegalFace params .generic rd := by
  have bound : 2 * params.genSides.toInt + max 0 (rd.toInt.tmod params.genSides.toInt) < 2 ^ 31 :=
    fit
  have doubled : (2 * params.genSides).toInt = 2 * params.genSides.toInt := by
    rw [Int32.toInt_mul, show Int32.toInt 2 = 2 from rfl]
    exact Int.bmod_eq_of_le (by omega) (by omega)
  obtain ⟨lifted, reduced⟩ := reroll_eq rd params.genSides (2 * params.genSides) positive
    (by rw [doubled]; exact Int.dvd_mul_left 2 _) (by omega) (by omega)
  have low := Int.emod_nonneg rd.toInt (show params.genSides.toInt ≠ 0 by omega)
  have high := Int.emod_lt_of_pos rd.toInt (show 0 < params.genSides.toInt by omega)
  have limit := params.genSides.toInt_lt
  have face : (rollFace params .generic rd).toInt = rd.toInt % params.genSides.toInt + 1 := by
    rw [rollFace, Int32.toInt_add, reduced, show Int32.toInt 1 = 1 from rfl]
    exact Int.bmod_eq_of_le (by omega) (by omega)
  refine ⟨⟨Int32.toInt_mod _ _, doubled, lifted, Int32.toInt_mod _ _, ?_⟩, ?_, ?_⟩
  · rw [face, reduced]
  · rw [face]
    omega
  · rw [face]
    exact (Int.mod_modEq rd.toInt params.genSides.toInt).add_right 1

theorem generic_fits {rd : Int32} (legal : LegalFace params .generic rd) :
    SidesFit params .generic rd := by
  have exact := legal.1
  have limit := (2 * params.genSides).toInt_lt
  have limit' := (rd % params.genSides + 2 * params.genSides).toInt_lt
  rw [exact.lifted, exact.remainder, exact.doubled] at limit'
  rw [exact.doubled] at limit
  change 2 * params.genSides.toInt + max 0 (rd.toInt.tmod params.genSides.toInt) < 2 ^ 31
  omega

/-- The remainders of all random values fit exactly when the largest does. -/
theorem sidesFit_all :
    (∀ diceType rd, SidesFit params diceType rd) ↔ 3 * params.genSides.toInt ≤ 2 ^ 31 := by
  constructor
  · intro fit
    have limit := params.genSides.toInt_lt
    -- the largest remainder
    have last : (Int32.ofInt (params.genSides.toInt - 1)).toInt = params.genSides.toInt - 1 :=
      Int32.toInt_ofInt_of_le (by omega) (by omega)
    have bound : 2 * params.genSides.toInt +
        max 0 ((params.genSides.toInt - 1).tmod params.genSides.toInt) < 2 ^ 31 :=
      last ▸ fit .generic (Int32.ofInt (params.genSides.toInt - 1))
    rw [Int.tmod_eq_of_lt (by omega) (by omega)] at bound
    omega
  · intro few diceType rd
    cases diceType with
    | regular => trivial
    | backgammon => trivial
    | generic =>
        have high := Int.tmod_lt_of_pos rd.toInt (show 0 < params.genSides.toInt by omega)
        change 2 * params.genSides.toInt + max 0 (rd.toInt.tmod params.genSides.toInt) < 2 ^ 31
        omega

theorem legalFace_iff (diceType : DiceType) (rd : Int32) :
    LegalFace params diceType rd ↔ SidesFit params diceType rd := by
  cases diceType with
  | regular => exact iff_of_true (sixSided_legal params (by decide) rd) trivial
  | backgammon => exact iff_of_true (sixSided_legal params (by decide) rd) trivial
  | generic => exact ⟨generic_fits positive, generic_legal positive⟩

end

/-- A face is legal exactly when twice the sides and the remainder are an `int`, and every face
is exactly when three times the sides are at most 2 ^ 31. -/
theorem faces_legal_iff (params : Params) (positive : 1 ≤ params.genSides.toInt) :
    (∀ diceType rd, LegalFace params diceType rd ↔ SidesFit params diceType rd) ∧
      ((∀ diceType rd, LegalFace params diceType rd) ↔ 3 * params.genSides.toInt ≤ 2 ^ 31) := by
  refine ⟨legalFace_iff positive, ?_⟩
  rw [← sidesFit_all positive]
  exact forall₂_congr (legalFace_iff positive)

theorem faces_legal_default :
    (∀ diceType rd, LegalFace .default diceType rd ↔ SidesFit .default diceType rd) ∧
      ((∀ diceType rd, LegalFace .default diceType rd) ↔
        3 * Params.default.genSides.toInt ≤ 2 ^ 31) :=
  faces_legal_iff .default (by decide)

/-- The least number of sides with a face that is not legal. -/
def manySides : Params := { genSides := 715827883, nonzero := by decide }

/-- The sum wraps to the least `int`, and the face is negative. -/
theorem largest_roll_negative :
    (rollFace manySides .generic 715827882).toInt = -715827881 ∧
      ¬ LegalFace manySides .generic 715827882 := by
  have face : (rollFace manySides .generic 715827882).toInt = -715827881 := by decide +kernel
  refine ⟨face, fun legal => ?_⟩
  have low := legal.2.1.1
  rw [face] at low
  exact absurd low (by decide)

end Ve482.Dice
