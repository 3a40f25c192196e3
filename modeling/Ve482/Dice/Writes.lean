import Ve482.Dice.Device

set_option autoImplicit false

namespace Ve482.Dice

open CString

/-- The indices of `input_str` that a `dice_write` stores to: those of the copy, and that of
the NUL. -/
def WriteCall.stores (call : WriteCall) : List Int :=
  if call.buff.length > maxDiceIn then []
  else
    let copy := (List.range call.buff.length).map Int.ofNat
    if !call.copied then copy else copy ++ [(call.buff.length : Int) - 1]

/-- A decimal number of at most nine digits. -/
def DiceNumber (digits : Text) : Prop :=
  digits ≠ [] ∧ digits.length ≤ 9 ∧ ∀ c ∈ digits, isDigit c

instance (digits : Text) : Decidable (DiceNumber digits) := by
  unfold DiceNumber
  infer_instance

/-- The bytes of the call are the number, with or without a newline. -/
def WriteCall.Spells (call : WriteCall) (digits : Text) : Prop :=
  call.copied = true ∧ DiceNumber digits ∧
    (call.buff = digits ∨ call.buff = digits ++ [newline])

/-- A write sets the number of dice or changes nothing. -/
structure SetsOrRefuses (driver : Driver) (minor : Fin diceDevs) (call : WriteCall) : Prop where
  sets : ∀ digits, call.Spells digits →
    (diceWrite driver minor call).1 = call.buff.length ∧
      ((diceWrite driver minor call).2.diceDevices minor).num.toInt = number digits
  refuses : (∀ digits, ¬ call.Spells digits) →
    (diceWrite driver minor call).1 < 0 ∧
      ((diceWrite driver minor call).2.diceDevices minor).num =
        (driver.diceDevices minor).num
  inside : ∀ index ∈ call.stores, 0 ≤ index ∧ index < maxDiceIn

/-- The call ends with an error before the parse, or its last byte is not needed: it is the
newline, or the last zero of a zero. -/
def WriteCall.LastUnused (call : WriteCall) : Prop :=
  maxDiceIn < call.buff.length ∨ call.copied = false ∨
    (∃ digits, DiceNumber digits ∧ call.buff = digits ++ [newline]) ∨
    (DiceNumber call.buff ∧ ∀ c ∈ call.buff, c = digit 0)

variable {driver : Driver} {minor : Fin diceDevs} {call : WriteCall}

/-- The string that is parsed: the last byte of the input has become the NUL. -/
theorem cstr_input (filled : call.buff ≠ []) : cstr call.input = cstr call.buff.dropLast := by
  have last : call.buff.length - 1 < call.buff.length := by
    have positive := List.length_pos_of_ne_nil filled
    omega
  have cut : call.input =
      call.buff.dropLast ++ 0 :: (call.stack.drop call.buff.length) := by
    rw [WriteCall.input, if_neg filled, List.set_append_left _ _ last,
      List.set_eq_take_append_cons_drop, if_pos last, ← List.dropLast_eq_take]
    simp [Nat.sub_add_cancel (List.length_pos_of_ne_nil filled)]
  rw [cut]
  exact cstr_before_nul call.buff.dropLast _

theorem kstrtoull_digits {digits : Text} (numeric : ∀ c ∈ digits, isDigit c = true)
    (filled : digits ≠ []) (small : digits.length ≤ 9) :
    kstrtoull digits = some (number digits) := by
  have whole : digits.takeWhile isDigit = digits := List.takeWhile_eq_self_iff.mpr numeric
  have bound := number_lt_pow numeric
  have nine := Nat.pow_le_pow_right (show 0 < 10 by decide) small
  simp only [kstrtoull, whole, if_neg filled, List.drop_length, true_or, and_true]
  exact if_pos (by omega)

/-- Digits alone give the number that they denote, and none at all gives no number. -/
theorem kstrtol_digits {digits : Text} (numeric : ∀ c ∈ digits, isDigit c = true)
    (small : digits.length ≤ 9) : (kstrtol digits).getD 0 = number digits := by
  cases digits with
  | nil => rfl
  | cons c digits =>
      have first := numeric c List.mem_cons_self
      have notMinus : c ≠ minus := by
        rintro rfl
        exact absurd first (by decide)
      have notPlus : c ≠ plus := by
        rintro rfl
        exact absurd first (by decide)
      have bound := number_lt_pow numeric
      have nine := Nat.pow_le_pow_right (show 0 < 10 by decide) small
      have read := kstrtoull_digits numeric (List.cons_ne_nil c digits) small
      have fits : number (c :: digits) < 2 ^ 63 := by omega
      simp only [kstrtol, if_neg notMinus, if_neg notPlus, read, Option.bind_some, if_pos fits,
        Option.getD_some]

/-- The new number of dice, where digits are left of the input. -/
theorem number_of_digits {digits : Text} (numeric : ∀ c ∈ digits, isDigit c = true)
    (small : digits.length ≤ 9) (filled : call.buff ≠ []) (left : call.buff.dropLast = digits) :
    call.number.toInt = number digits := by
  have noNul : 0 ∉ digits := fun member => absurd (numeric 0 member) (by decide)
  have bound := number_lt_pow numeric
  have nine := Nat.pow_le_pow_right (show 0 < 10 by decide) small
  rw [WriteCall.number, cstr_input filled, left, cstr_of_not_mem noNul,
    kstrtol_digits numeric small, Int32.toInt_ofInt_of_le (by omega) (by omega)]

theorem stores_inside (filled : call.buff ≠ [] ∨ call.copied = false) :
    ∀ index ∈ call.stores, 0 ≤ index ∧ index < maxDiceIn := by
  intro index member
  rw [WriteCall.stores] at member
  by_cases long : call.buff.length > maxDiceIn
  · rw [if_pos long] at member
    cases member
  rw [if_neg long] at member
  have copy : index ∈ (List.range call.buff.length).map Int.ofNat →
      0 ≤ index ∧ index < maxDiceIn := by
    intro member
    obtain ⟨i, inside, rfl⟩ := List.mem_map.mp member
    have below := List.mem_range.mp inside
    exact ⟨Int.natCast_nonneg i, by simp only [Int.ofNat_eq_natCast]; omega⟩
  cases copied : call.copied with
  | false =>
      simp only [copied, Bool.not_false, if_true] at member
      exact copy member
  | true =>
      simp only [copied, Bool.not_true, Bool.false_eq_true, if_false] at member
      rcases List.mem_append.mp member with member | member
      · exact copy member
      · have positive := List.length_pos_of_ne_nil
          (filled.resolve_right (by rw [copied]; decide))
        rw [List.mem_singleton.mp member]
        omega

/-- A call that ends with an error before the parse. -/
theorem diceWrite_refused (early : maxDiceIn < call.buff.length ∨ call.copied = false) :
    diceWrite driver minor call = (-einval, driver) := by
  rw [diceWrite]
  rcases early with long | failed
  · exact if_pos long
  · by_cases long : call.buff.length > maxDiceIn
    · exact if_pos long
    · rw [if_neg long, failed]
      rfl

/-- Every other call returns its length, whatever the parse says. -/
theorem diceWrite_parsed (short : call.buff.length ≤ maxDiceIn) (copied : call.copied = true) :
    (diceWrite driver minor call).1 = call.buff.length ∧
      ((diceWrite driver minor call).2.diceDevices minor).num = call.number := by
  rw [diceWrite, if_neg (Nat.not_lt.mpr short), copied]
  simp [Driver.setNum]

theorem spells_short {digits : Text} (spells : call.Spells digits) :
    call.buff ≠ [] ∧ call.buff.length ≤ maxDiceIn := by
  obtain ⟨-, ⟨filled, small, -⟩, same | same⟩ := spells
  · rw [same]
    exact ⟨filled, Nat.le_succ_of_le small⟩
  · rw [same]
    refine ⟨by simp, ?_⟩
    rw [List.length_append, List.length_singleton]
    exact Nat.succ_le_succ small

/-- The digits of an input are determined by it. -/
theorem spells_unique {digits other : Text} (spells : call.Spells digits)
    (spells' : call.Spells other) : digits = other := by
  have noNewline : ∀ text, DiceNumber text → newline ∉ text := fun text known member =>
    absurd (known.2.2 newline member) (by decide)
  obtain ⟨-, known, same | same⟩ := spells
  · obtain ⟨-, -, same' | same'⟩ := spells'
    · exact same.symm.trans same'
    · exact absurd (by rw [← same, same']; simp) (noNewline digits known)
  · obtain ⟨-, known', same' | same'⟩ := spells'
    · exact absurd (by rw [← same', same]; simp) (noNewline other known')
    · exact List.append_cancel_right (same.symm.trans same')

/-- The digits before a newline are all read. -/
theorem number_before_newline {digits : Text} (known : DiceNumber digits)
    (same : call.buff = digits ++ [newline]) : call.number.toInt = number digits :=
  number_of_digits known.2.2 known.2.1 (by rw [same]; simp)
    (by rw [same, List.dropLast_concat])

/-- Without a newline the last digit is lost, which is seen unless the number is zero. -/
theorem number_cut_iff (known : DiceNumber call.buff) :
    call.number.toInt = number call.buff ↔ ∀ c ∈ call.buff, c = digit 0 := by
  obtain ⟨filled, small, numeric⟩ := known
  obtain ⟨digits, c, same⟩ : ∃ digits c, call.buff = digits ++ [c] :=
    ⟨_, _, (List.dropLast_append_getLast filled).symm⟩
  have before : ∀ d ∈ digits, isDigit d = true := fun d member =>
    numeric d (by rw [same]; exact List.mem_append_left [c] member)
  have shorter : digits.length ≤ 9 := by
    rw [same, List.length_append] at small
    omega
  have left : call.buff.dropLast = digits := by rw [same, List.dropLast_concat]
  rw [number_of_digits before shorter filled left, ← number_eq_zero numeric, same, number_concat]
  omega

/-- A write sets the number or changes nothing exactly when the byte that it overwrites is not
needed. -/
theorem diceWrite_sets_iff (driver : Driver) (minor : Fin diceDevs) (call : WriteCall) :
    SetsOrRefuses driver minor call ↔ call.LastUnused := by
  by_cases early : maxDiceIn < call.buff.length ∨ call.copied = false
  · have refused : diceWrite driver minor call = (-einval, driver) := diceWrite_refused early
    have unspelled : ∀ digits, ¬ call.Spells digits := by
      intro digits spells
      rcases early with long | failed
      · exact absurd (spells_short spells).2 (Nat.not_le.mpr long)
      · exact absurd (spells.1.symm.trans failed) (by decide)
    refine iff_of_true ⟨?_, ?_, ?_⟩ ?_
    · exact fun digits spells => absurd spells (unspelled digits)
    · rw [refused]
      exact fun _ => ⟨Int.neg_neg_of_pos (by decide), rfl⟩
    · apply stores_inside
      refine early.imp_left fun long empty => ?_
      rw [empty] at long
      cases long
    · exact early.imp_right Or.inl
  obtain ⟨short, copied⟩ := not_or.mp early
  rw [Bool.not_eq_false] at copied
  obtain ⟨returned, number⟩ : (diceWrite driver minor call).1 = call.buff.length ∧
      ((diceWrite driver minor call).2.diceDevices minor).num = call.number :=
    diceWrite_parsed (Nat.le_of_not_lt short) copied
  constructor
  · intro meets
    -- the call does not return an error, so that the input has to be a number
    obtain ⟨digits, spells⟩ : ∃ digits, call.Spells digits := by
      by_contra unspelled
      have refused := (meets.refuses (not_exists.mp unspelled)).1
      rw [returned] at refused
      exact absurd refused (Int.not_lt.mpr (Int.natCast_nonneg _))
    have value := (meets.sets digits spells).2
    rw [number] at value
    obtain ⟨-, known, same | same⟩ := spells
    · subst same
      exact .inr (.inr (.inr ⟨known, (number_cut_iff known).mp value⟩))
    · exact .inr (.inr (.inl ⟨digits, known, same⟩))
  · intro unused
    have spelled : ∃ digits, call.Spells digits ∧ call.number.toInt = CString.number digits := by
      rcases unused with long | failed | ⟨digits, known, same⟩ | ⟨known, zeros⟩
      · exact absurd long short
      · exact absurd (copied.symm.trans failed) (by decide)
      · exact ⟨digits, ⟨copied, known, .inr same⟩, number_before_newline known same⟩
      · exact ⟨call.buff, ⟨copied, known, .inl rfl⟩, (number_cut_iff known).mpr zeros⟩
    obtain ⟨digits, spells, value⟩ := spelled
    refine ⟨?_, ?_, stores_inside (.inl (spells_short spells).1)⟩
    · intro other spells'
      refine ⟨returned, ?_⟩
      rw [number, value, spells_unique spells spells']
    · exact fun unspelled => absurd spells (unspelled digits)

/-- A line that is not a number. -/
def garbage : WriteCall := { buff := bytes "abc\n", copied := true, stack := [] }

/-- The error of `kstrtol` is printed, and the number is set to 0. -/
theorem garbage_sets_zero :
    (diceWrite diceInitialization 0 garbage).1 = 4 ∧
      ((diceWrite diceInitialization 0 garbage).2.diceDevices 0).num = 0 ∧
      ¬ SetsOrRefuses diceInitialization 0 garbage := by
  have written : (diceWrite diceInitialization 0 garbage).1 = 4 := by decide +kernel
  refine ⟨written, by decide +kernel, fun meets => ?_⟩
  have unspelled : ∀ digits, ¬ garbage.Spells digits := by
    rintro digits ⟨-, known, same⟩
    have first : (97 : UInt8) ∈ garbage.buff := by decide +kernel
    have other : (97 : UInt8) ≠ newline := by decide
    rcases same with same | same
    · rw [same] at first
      exact absurd (known.2.2 97 first) (by decide)
    · rw [same, List.mem_append, List.mem_singleton] at first
      exact absurd (known.2.2 97 (first.resolve_right other)) (by decide)
  have refused := (meets.refuses unspelled).1
  rw [written] at refused
  exact absurd refused (by decide)

end Ve482.Dice
