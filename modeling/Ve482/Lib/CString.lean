import Mathlib.Data.List.GetD
import Mathlib.Data.List.TakeWhile
import Mathlib.Data.Nat.Digits.Lemmas
import Mathlib.Tactic.IntervalCases

set_option autoImplicit false

namespace Ve482.CString

/-- Bytes of a file or a buffer. -/
abbrev Text := List UInt8

/-- The bytes of a string literal. -/
def bytes (literal : String) : Text := literal.toByteArray.data.toList

def newline : UInt8 := 10
def blank : UInt8 := 32
def minus : UInt8 := 45
def plus : UInt8 := 43

/-- The string that a `char *` into these bytes denotes. -/
def cstr (buffer : Text) : Text := buffer.takeWhile (· ≠ 0)

def takeLine : Nat → Text → Text
  | 0, _ => []
  | _, [] => []
  | room + 1, c :: rest => if c = newline then [c] else c :: takeLine room rest

/-- `fgets(buffer, size, stream)`: what it stores and what is left, or NULL at the end. -/
def fgets (size : Nat) (stream : Text) : Option (Text × Text) :=
  if stream = [] then none
  else
    let line := takeLine (size - 1) stream
    some (line, stream.drop line.length)

/-- `strtok`: the next token and where the static pointer is left. -/
def strtok (delims text : Text) : Option (Text × Text) :=
  let start := text.dropWhile (delims.contains ·)
  if start = [] then none
  else
    let token := start.takeWhile (!delims.contains ·)
    some (token, start.drop (token.length + 1))

/-- `strsep` on a buffer in memory: the token's place, the buffer and the pointer afterwards. -/
def strsep (delims buffer : Text) : Option Nat → Option Nat × Text × Option Nat
  | none => (none, buffer, none)
  | some start =>
      let word := cstr (buffer.drop start)
      let token := word.takeWhile (!delims.contains ·)
      if token.length < word.length then
        (some start, buffer.set (start + token.length) 0, some (start + token.length + 1))
      else (some start, buffer, none)

/-- `strcmp`, which stops at the first bytes that differ or at the NUL. -/
def strcmp : Text → Text → Int
  | [], [] => 0
  | [], d :: _ => -d.toNat
  | c :: _, [] => c.toNat
  | c :: left, d :: right =>
      if c ≠ d then (c.toNat : Int) - d.toNat else if c = 0 then 0 else strcmp left right

def isSpace (c : UInt8) : Bool := c == blank || (9 ≤ c && c ≤ 13)
def isDigit (c : UInt8) : Bool := 48 ≤ c && c ≤ 57

def digit (d : Nat) : UInt8 := UInt8.ofNat (48 + d)

/-- The number that a run of digits denotes. -/
def number (digits : Text) : Nat := digits.foldl (fun value c => 10 * value + (c.toNat - 48)) 0

/-- What `strtol` makes of a number: `LONG_MIN` and `LONG_MAX` where it does not fit. -/
def saturated (value : Int) : Int := max (-2 ^ 63) (min (2 ^ 63 - 1) value)

/-- `strtol(text, NULL, 10)` -/
def strtol (text : Text) : Int :=
  match text.dropWhile isSpace with
  | [] => 0
  | c :: rest =>
      if c = minus then saturated (-number (rest.takeWhile isDigit))
      else if c = plus then saturated (number (rest.takeWhile isDigit))
      else saturated (number ((c :: rest).takeWhile isDigit))

/-- `atoi` is `strtol` cut to an `int`. -/
def atoi (text : Text) : Int32 := Int32.ofInt (strtol text)

/-- `%u` -/
def decimalNat (n : Nat) : Text :=
  if n = 0 then [digit 0] else (Nat.digits 10 n).reverse.map digit

/-- `%d` -/
def decimal (value : Int) : Text :=
  if value < 0 then minus :: decimalNat value.natAbs else decimalNat value.natAbs

/-- What holds of each byte of a text is decided by going through the text. -/
instance (priority := high) decidableBytes (p : UInt8 → Prop) [DecidablePred p] (text : Text) :
    Decidable (∀ c ∈ text, p c) :=
  List.decidableBAll p text

/-- Digits, and no zero in front of others. -/
def Numeral (digits : Text) : Prop :=
  digits ≠ [] ∧ (∀ c ∈ digits, isDigit c) ∧ (digits.head? = some (digit 0) → digits = [digit 0])

/-- The way `%d` writes an `int`. -/
def CanonicalInt : Text → Prop
  | [] => False
  | c :: rest =>
      if c = minus then Numeral rest ∧ 0 < number rest ∧ number rest ≤ 2 ^ 31
      else Numeral (c :: rest) ∧ number (c :: rest) < 2 ^ 31

instance (digits : Text) : Decidable (Numeral digits) := by
  unfold Numeral
  infer_instance

instance (text : Text) : Decidable (CanonicalInt text) := by
  cases text <;> (unfold CanonicalInt; infer_instance)

/-! Lines and tokens -/

theorem takeLine_line {room : Nat} {line : Text} (rest : Text) (noNewline : newline ∉ line)
    (fits : line.length < room) :
    takeLine room (line ++ newline :: rest) = line ++ [newline] := by
  induction line generalizing room with
  | nil =>
      cases room with
      | zero => simp at fits
      | succ room => simp [takeLine]
  | cons c line ih =>
      cases room with
      | zero => simp at fits
      | succ room =>
          simp only [List.mem_cons, not_or] at noNewline
          simp only [List.length_cons] at fits
          rw [List.cons_append, takeLine, if_neg (Ne.symm noNewline.1),
            ih noNewline.2 (by omega), List.cons_append]

theorem takeLine_last {room : Nat} {line : Text} (noNewline : newline ∉ line)
    (fits : line.length ≤ room) : takeLine room line = line := by
  induction line generalizing room with
  | nil => cases room <;> rfl
  | cons c line ih =>
      cases room with
      | zero => simp at fits
      | succ room =>
          simp only [List.mem_cons, not_or] at noNewline
          simp only [List.length_cons] at fits
          rw [takeLine, if_neg (Ne.symm noNewline.1), ih noNewline.2 (by omega)]

theorem takeLine_ne_nil {room : Nat} {stream : Text} (positive : 0 < room)
    (more : stream ≠ []) : takeLine room stream ≠ [] := by
  cases room with
  | zero => omega
  | succ room =>
      cases stream with
      | nil => exact absurd rfl more
      | cons c stream =>
          rw [takeLine]
          by_cases last : c = newline
          · simp [last]
          · simp [last]

theorem fgets_line {size : Nat} {line : Text} (rest : Text) (noNewline : newline ∉ line)
    (fits : line.length + 1 < size) :
    fgets size (line ++ newline :: rest) = some (line ++ [newline], rest) := by
  have taken : takeLine (size - 1) (line ++ newline :: rest) = line ++ [newline] :=
    takeLine_line rest noNewline (by omega)
  rw [fgets, if_neg (by simp), taken]
  simp

theorem fgets_last {size : Nat} {line : Text} (noNewline : newline ∉ line)
    (fits : line.length < size) (filled : line ≠ []) : fgets size line = some (line, []) := by
  have taken : takeLine (size - 1) line = line := takeLine_last noNewline (by omega)
  rw [fgets, if_neg filled, taken]
  simp

@[simp] theorem fgets_nil (size : Nat) : fgets size [] = none := rfl

theorem fgets_shorter {size : Nat} {stream line rest : Text} (large : 1 < size)
    (read : fgets size stream = some (line, rest)) : rest.length < stream.length := by
  rw [fgets] at read
  by_cases empty : stream = []
  · simp [empty] at read
  · rw [if_neg empty, Option.some.injEq, Prod.mk.injEq] at read
    obtain ⟨rfl, rfl⟩ := read
    have room : 0 < size - 1 := by omega
    have taken := List.length_pos_iff.mpr (takeLine_ne_nil room empty)
    have filled := List.length_pos_iff.mpr empty
    rw [List.length_drop]
    omega

theorem strtok_token {delims token : Text} {d : UInt8} (rest : Text) (filled : token ≠ [])
    (apart : ∀ c ∈ token, c ∉ delims) (ends : d ∈ delims) :
    strtok delims (token ++ d :: rest) = some (token, rest) := by
  have start : (token ++ d :: rest).dropWhile (delims.contains ·) = token ++ d :: rest := by
    cases token with
    | nil => exact absurd rfl filled
    | cons c token => simp [apart c List.mem_cons_self]
  have whole : (token ++ d :: rest).takeWhile (!delims.contains ·) = token := by
    rw [List.takeWhile_append_of_pos (by simpa using apart)]
    simp [ends]
  simp only [strtok, start, whole]
  simp

theorem strtok_last {delims token : Text} (filled : token ≠ [])
    (apart : ∀ c ∈ token, c ∉ delims) : strtok delims token = some (token, []) := by
  have start : token.dropWhile (delims.contains ·) = token := by
    cases token with
    | nil => exact absurd rfl filled
    | cons c token => simp [apart c List.mem_cons_self]
  have whole : token.takeWhile (!delims.contains ·) = token := by
    rw [List.takeWhile_eq_self_iff]
    simpa using apart
  simp only [strtok, start, whole, if_neg filled]
  simp

theorem strtok_skips {delims skipped : Text} (text : Text) (inside : ∀ c ∈ skipped, c ∈ delims) :
    strtok delims (skipped ++ text) = strtok delims text := by
  have start : (skipped ++ text).dropWhile (delims.contains ·) =
      text.dropWhile (delims.contains ·) :=
    List.dropWhile_append_of_pos (by simpa using inside)
  rw [strtok, strtok, start]

/-- What a call finds: delimiters, the token, and another delimiter if that is not the end. -/
structure Token (delims text token rest : Text) (skipped tail : Text) : Prop where
  split : text = skipped ++ (token ++ tail)
  before : ∀ c ∈ skipped, c ∈ delims
  filled : token ≠ []
  apart : ∀ c ∈ token, c ∉ delims
  ends : ∀ c ∈ tail.head?, c ∈ delims
  left : rest = tail.tail

theorem strtok_iff {delims text token rest : Text} :
    strtok delims text = some (token, rest) ↔
      ∃ skipped tail, Token delims text token rest skipped tail := by
  constructor
  · intro found
    rw [strtok] at found
    by_cases empty : text.dropWhile (delims.contains ·) = []
    · rw [if_pos empty] at found
      cases found
    · rw [if_neg empty, Option.some.injEq, Prod.mk.injEq] at found
      obtain ⟨rfl, rfl⟩ := found
      generalize shape : text.dropWhile (delims.contains ·) = start at empty ⊢
      refine ⟨text.takeWhile (delims.contains ·), start.dropWhile (!delims.contains ·),
        ?_, ?_, ?_, ?_, ?_, ?_⟩
      · rw [List.takeWhile_append_dropWhile, ← shape, List.takeWhile_append_dropWhile]
      · intro c member
        simpa using List.mem_takeWhile_imp member
      · obtain ⟨c, start, rfl⟩ := List.exists_cons_of_ne_nil empty
        have first := List.head?_dropWhile_not (delims.contains ·) text
        rw [shape] at first
        simp at first
        simp [first]
      · intro c member
        simpa using List.mem_takeWhile_imp member
      · intro c member
        have first := List.head?_dropWhile_not (!delims.contains ·) start
        rw [Option.mem_def] at member
        rw [member] at first
        simpa using first
      · have cut : start.drop (start.takeWhile (!delims.contains ·)).length =
            start.dropWhile (!delims.contains ·) := by
          conv_lhs => rw [← List.takeWhile_append_dropWhile (p := (!delims.contains ·)) (l := start)]
          exact List.drop_left' (by rw [List.takeWhile_append_dropWhile])
        rw [← List.tail_drop, cut]
  · rintro ⟨skipped, tail, rfl, before, filled, apart, ends, rfl⟩
    rw [strtok_skips _ before]
    cases tail with
    | nil =>
        rw [List.append_nil]
        exact strtok_last filled apart
    | cons d tail => exact strtok_token tail filled apart (ends d rfl)

theorem cstr_of_not_mem {text : Text} (noNul : 0 ∉ text) : cstr text = text := by
  rw [cstr, List.takeWhile_eq_self_iff]
  intro c inside
  have other : c ≠ 0 := fun zero => noNul (zero ▸ inside)
  simpa using other

/-- What stands behind a NUL is not part of the string. -/
theorem cstr_before_nul (text rest : Text) : cstr (text ++ 0 :: rest) = cstr text := by
  induction text with
  | nil => rfl
  | cons c text ih =>
      by_cases zero : c = 0
      · rw [zero]
        rfl
      · simp only [cstr, List.cons_append, List.takeWhile_cons, ne_eq, zero, not_false_eq_true,
          decide_true, if_true]
        exact congrArg (c :: ·) ih

theorem cstr_append {text : Text} (rest : Text) (noNul : 0 ∉ text) :
    cstr (text ++ 0 :: rest) = text := by
  rw [cstr_before_nul, cstr_of_not_mem noNul]

/-- `strsep` cuts the buffer after the token. -/
theorem strsep_token {delims buffer token rest : Text} {start : Nat} {d : UInt8}
    (here : buffer.drop start = token ++ d :: rest) (noNul : 0 ∉ token)
    (apart : ∀ c ∈ token, c ∉ delims) (ends : d ∈ delims) (visible : d ≠ 0) :
    ∃ cut, strsep delims buffer (some start) =
        (some start, cut, some (start + token.length + 1)) ∧
      cut.drop start = token ++ 0 :: rest ∧
      cut.drop (start + token.length + 1) = rest := by
  have word : cstr (buffer.drop start) = token ++ d :: cstr rest := by
    rw [here, cstr, List.takeWhile_append_of_pos]
    · simp [cstr, visible]
    · intro c inside
      have other : c ≠ 0 := fun zero => noNul (zero ▸ inside)
      simpa using other
  have whole : (cstr (buffer.drop start)).takeWhile (!delims.contains ·) = token := by
    rw [word, List.takeWhile_append_of_pos (by simpa using apart)]
    simp [ends]
  refine ⟨buffer.set (start + token.length) 0, ?_, ?_, ?_⟩
  · have longer : token.length < (cstr (buffer.drop start)).length := by
      rw [word, List.length_append, List.length_cons]
      omega
    simp only [strsep, whole, longer, if_true]
  · rw [List.drop_set, if_neg (by omega), here, Nat.add_sub_cancel_left,
      List.set_append_right _ _ (Nat.le_refl _), Nat.sub_self, List.set_cons_zero]
  · rw [List.drop_set_of_lt (by omega), Nat.add_assoc, ← List.drop_drop, here,
      ← List.drop_drop, List.drop_left, List.drop_succ_cons, List.drop_zero]

/-- A word without delimiters is the last one. -/
theorem strsep_last {delims buffer token : Text} {start : Nat}
    (here : cstr (buffer.drop start) = token) (apart : ∀ c ∈ token, c ∉ delims) :
    strsep delims buffer (some start) = (some start, buffer, none) := by
  have whole : token.takeWhile (!delims.contains ·) = token :=
    List.takeWhile_eq_self_iff.mpr (by simpa using apart)
  simp only [strsep, here, whole, Nat.lt_irrefl, if_false]

/-! Comparing -/

theorem strcmp_cons (c d : UInt8) (left right : Text) :
    strcmp (c :: left) (d :: right) =
      if c.toNat ≠ d.toNat then (c.toNat : Int) - d.toNat
      else if c.toNat = 0 then 0 else strcmp left right := by
  have same : c.toNat = d.toNat ↔ c = d := UInt8.toNat_inj
  have zero : c.toNat = 0 ↔ c = 0 := UInt8.toNat_inj (b := 0)
  rw [strcmp]
  simp only [ne_eq, same, zero]

theorem strcmp_swap (left right : Text) : strcmp right left = -strcmp left right := by
  induction left generalizing right with
  | nil => cases right <;> simp [strcmp]
  | cons c left ih =>
      cases right with
      | nil => simp [strcmp]
      | cons d right =>
          rw [strcmp_cons, strcmp_cons, ih right]
          by_cases same : c.toNat = d.toNat
          · by_cases zero : c.toNat = 0
            · simp [← same, zero]
            · simp [← same, zero]
          · rw [if_pos same, if_pos (Ne.symm same)]
            omega

theorem strcmp_trans {left middle right : Text} (first : strcmp left middle ≤ 0)
    (second : strcmp middle right ≤ 0) : strcmp left right ≤ 0 := by
  induction left generalizing middle right with
  | nil => cases right <;> simp [strcmp]
  | cons c left ih =>
      -- an empty string compares like one that starts with the NUL
      cases middle with
      | nil =>
          have zero : c.toNat = 0 := by
            simp only [strcmp] at first
            omega
          cases right with
          | nil => simp [strcmp, zero]
          | cons e right =>
              rw [strcmp_cons]
              by_cases same : c.toNat = e.toNat
              · simp [← same, zero]
              · rw [if_pos same]
                omega
      | cons d middle =>
          rw [strcmp_cons] at first
          cases right with
          | nil =>
              simp only [strcmp] at second ⊢
              by_cases same : c.toNat = d.toNat
              · omega
              · rw [if_pos same] at first
                omega
          | cons e right =>
              rw [strcmp_cons] at second ⊢
              split_ifs at first second ⊢ <;> first | omega | exact ih first second

theorem strcmp_eq_zero {left right : Text} (noNul : 0 ∉ left) (noNul' : 0 ∉ right) :
    strcmp left right = 0 ↔ left = right := by
  induction left generalizing right with
  | nil =>
      cases right with
      | nil => exact iff_of_true rfl rfl
      | cons d right =>
          have other : d.toNat ≠ 0 := fun zero =>
            noNul' (List.mem_cons.mpr (Or.inl (UInt8.toNat_inj.mp zero).symm))
          simp only [strcmp]
          refine iff_of_false (by omega) nofun
  | cons c left ih =>
      have other : c.toNat ≠ 0 := fun zero =>
        noNul (List.mem_cons.mpr (Or.inl (UInt8.toNat_inj.mp zero).symm))
      cases right with
      | nil =>
          simp only [strcmp]
          exact iff_of_false (by omega) nofun
      | cons d right =>
          rw [List.mem_cons, not_or] at noNul noNul'
          rw [strcmp_cons, if_neg other, List.cons.injEq, ← ih noNul.2 noNul'.2]
          by_cases same : c.toNat = d.toNat
          · rw [if_neg (not_not.mpr same)]
            exact ⟨fun equal => ⟨UInt8.toNat_inj.mp same, equal⟩, And.right⟩
          · rw [if_pos same]
            refine iff_of_false (by omega) fun equal => same (congrArg UInt8.toNat equal.1)

/-! Numbers -/

theorem isDigit_digit {d : Nat} (small : d < 10) : isDigit (digit d) = true := by
  interval_cases d <;> rfl

theorem digit_value {d : Nat} (small : d < 10) : (digit d).toNat - 48 = d := by
  interval_cases d <;> rfl

theorem digit_of_isDigit {c : UInt8} (numeric : isDigit c = true) :
    c.toNat - 48 < 10 ∧ digit (c.toNat - 48) = c := by
  simp only [isDigit, Bool.and_eq_true, decide_eq_true_eq, UInt8.le_iff_toNat_le] at numeric
  have low : 48 ≤ c.toNat := numeric.1
  have high : c.toNat ≤ 57 := numeric.2
  refine ⟨by omega, ?_⟩
  rw [digit, show 48 + (c.toNat - 48) = c.toNat by omega, UInt8.ofNat_toNat]

theorem not_space_of_isDigit {c : UInt8} (numeric : isDigit c = true) : isSpace c = false := by
  obtain ⟨small, same⟩ := digit_of_isDigit numeric
  rw [← same]
  generalize c.toNat - 48 = d at small
  interval_cases d <;> rfl

/-- A numeral lists its digits with the last one first in `Nat.digits`. -/
theorem number_eq (digits : Text) :
    number digits = Nat.ofDigits 10 (digits.reverse.map fun c => c.toNat - 48) := by
  rw [Nat.ofDigits_eq_foldr, List.foldr_map, List.foldr_reverse, number]
  congr 1
  funext value c
  simp only [Nat.cast_id]
  omega

theorem numeral_digits {digits : Text} (numeric : ∀ c ∈ digits, isDigit c = true) :
    digits.map (fun c => digit (c.toNat - 48)) = digits := by
  conv_rhs => rw [← List.map_id digits]
  exact List.map_congr_left fun c inside => (digit_of_isDigit (numeric c inside)).2

theorem decimalNat_isDigit (n : Nat) : ∀ c ∈ decimalNat n, isDigit c = true := by
  intro c inside
  rw [decimalNat] at inside
  by_cases zero : n = 0
  · rw [if_pos zero, List.mem_singleton] at inside
    exact inside ▸ isDigit_digit (by omega)
  · rw [if_neg zero, List.mem_map] at inside
    obtain ⟨d, inside, rfl⟩ := inside
    exact isDigit_digit (Nat.digits_lt_base (by omega) (List.mem_reverse.mp inside))

theorem length_decimalNat (n : Nat) : (decimalNat n).length = Nat.log 10 n + 1 := by
  rw [decimalNat]
  split
  · rename_i zero
    rw [zero, Nat.log_zero_right]
    rfl
  · rename_i positive
    rw [List.length_map, List.length_reverse, Nat.length_digits 10 n (by decide) positive]

/-- The digit at a place is the one with so many others behind it. -/
theorem decimalNat_getD (n : Nat) {place : Nat} (inside : place ≤ Nat.log 10 n) :
    (decimalNat n).getD place 0 = digit (n / 10 ^ (Nat.log 10 n - place) % 10) := by
  have length := length_decimalNat n
  have small : place < (decimalNat n).length := by omega
  rw [List.getD_eq_getElem _ _ small]
  by_cases zero : n = 0
  · subst zero
    rw [Nat.log_zero_right] at inside ⊢
    obtain rfl := Nat.le_zero.mp inside
    rfl
  · have digits := Nat.length_digits 10 n (by decide) zero
    have behind : Nat.log 10 n - place < (Nat.digits 10 n).length := by omega
    have found := Nat.getD_digits n (Nat.log 10 n - place) (show 2 ≤ 10 by decide)
    rw [List.getD_eq_getElem _ _ behind] at found
    simp only [decimalNat, if_neg zero, List.getElem_map, List.getElem_reverse, ← found]
    congr 2
    omega

theorem decimalNat_ne_nil (n : Nat) : decimalNat n ≠ [] := by
  rw [decimalNat]
  by_cases zero : n = 0
  · simp [zero]
  · simp [zero, Nat.digits_ne_nil_iff_ne_zero]

theorem number_decimalNat (n : Nat) : number (decimalNat n) = n := by
  rw [decimalNat]
  by_cases zero : n = 0
  · rw [if_pos zero, zero]
    rfl
  · have values : (Nat.digits 10 n).map (fun d => (digit d).toNat - 48) = Nat.digits 10 n := by
      conv_rhs => rw [← List.map_id (Nat.digits 10 n)]
      exact List.map_congr_left fun d inside => digit_value (Nat.digits_lt_base (by omega) inside)
    rw [if_neg zero, number_eq, ← List.map_reverse, List.reverse_reverse, List.map_map]
    exact (congrArg (Nat.ofDigits 10) values).trans (Nat.ofDigits_digits 10 n)

theorem number_concat (digits : Text) (c : UInt8) :
    number (digits ++ [c]) = 10 * number digits + (c.toNat - 48) := by
  rw [number, List.foldl_append]
  rfl

theorem number_lt_pow {digits : Text} (numeric : ∀ c ∈ digits, isDigit c = true) :
    number digits < 10 ^ digits.length := by
  induction digits using List.reverseRecOn with
  | nil => exact Nat.one_pos
  | append_singleton digits c ih =>
      have before := ih fun d member => numeric d (List.mem_append_left [c] member)
      have last := (digit_of_isDigit (numeric c (by simp))).1
      rw [number_concat, List.length_append, List.length_singleton, Nat.pow_succ]
      omega

theorem number_eq_zero {digits : Text} (numeric : ∀ c ∈ digits, isDigit c = true) :
    number digits = 0 ↔ ∀ c ∈ digits, c = digit 0 := by
  induction digits using List.reverseRecOn with
  | nil => exact iff_of_true rfl (by simp)
  | append_singleton digits c ih =>
      have before := ih fun d member => numeric d (List.mem_append_left [c] member)
      obtain ⟨-, same⟩ := digit_of_isDigit (numeric c (by simp))
      have zero : c.toNat - 48 = 0 ↔ c = digit 0 := by
        constructor
        · intro value
          rw [← same, value]
        · rintro rfl
          rfl
      rw [number_concat, Nat.add_eq_zero_iff, zero, Nat.mul_eq_zero, before]
      simp only [List.mem_append, List.mem_singleton, or_imp, forall_and, forall_eq,
        OfNat.ofNat_ne_zero, false_or]

/-- There is only one numeral for a number. -/
theorem Numeral.eq_decimalNat {digits : Text} (numeral : Numeral digits) :
    digits = decimalNat (number digits) := by
  obtain ⟨filled, numeric, lead⟩ := numeral
  by_cases zero : digits.head? = some (digit 0)
  · rw [lead zero]
    rfl
  -- the first digit is the last of `Nat.digits`, which is not zero
  obtain ⟨c, rest, rfl⟩ := List.exists_cons_of_ne_nil filled
  have notZero : c.toNat - 48 ≠ 0 := by
    intro value
    have same := (digit_of_isDigit (numeric c List.mem_cons_self)).2
    rw [value] at same
    exact zero (by rw [same]; rfl)
  have read : Nat.digits 10 (number (c :: rest)) =
      (c :: rest).reverse.map fun c => c.toNat - 48 := by
    rw [number_eq]
    apply Nat.digits_ofDigits 10 (by omega)
    · intro d inside
      obtain ⟨e, member, rfl⟩ := List.mem_map.mp inside
      exact (digit_of_isDigit (numeric e (List.mem_reverse.mp member))).1
    · intro _
      simpa [List.getLast_map] using notZero
  have positive : number (c :: rest) ≠ 0 := by
    intro value
    rw [value, Nat.digits_zero] at read
    simp at read
  rw [decimalNat, if_neg positive, read, ← List.map_reverse, List.reverse_reverse, List.map_map]
  exact (numeral_digits numeric).symm

theorem strtol_decimal {value : Int} (low : -2 ^ 63 ≤ value) (high : value < 2 ^ 63) :
    strtol (decimal value) = value := by
  have numeric := decimalNat_isDigit value.natAbs
  have whole : (decimalNat value.natAbs).takeWhile isDigit = decimalNat value.natAbs :=
    List.takeWhile_eq_self_iff.mpr numeric
  rw [decimal]
  by_cases negative : value < 0
  · rw [if_pos negative, strtol, List.dropWhile_cons_of_neg (by decide)]
    simp only [if_true, whole, number_decimalNat, saturated]
    omega
  · rw [if_neg negative]
    obtain ⟨c, rest, text⟩ := List.exists_cons_of_ne_nil (decimalNat_ne_nil value.natAbs)
    rw [text] at numeric whole
    have first := numeric c List.mem_cons_self
    have notSpace : ¬ isSpace c = true := by simp [not_space_of_isDigit first]
    have notMinus : c ≠ minus := by
      rintro rfl
      exact absurd first (by decide)
    have notPlus : c ≠ plus := by
      rintro rfl
      exact absurd first (by decide)
    rw [text, strtol, List.dropWhile_cons_of_neg notSpace]
    simp only [if_neg notMinus, if_neg notPlus, whole]
    rw [← text, number_decimalNat, saturated]
    omega

/-- `atoi` reads back what `%d` wrote. -/
theorem atoi_decimal (value : Int32) : atoi (decimal value.toInt) = value := by
  have low := value.le_toInt
  have high := value.toInt_lt
  rw [atoi, strtol_decimal (by omega) (by omega), Int32.ofInt_toInt]

theorem CanonicalInt.eq_decimal {text : Text} (canonical : CanonicalInt text) :
    ∃ value : Int32, text = decimal value.toInt := by
  cases text with
  | nil => exact canonical.elim
  | cons c rest =>
      rw [CanonicalInt] at canonical
      by_cases negative : c = minus
      · rw [if_pos negative] at canonical
        obtain ⟨numeral, positive, fits⟩ := canonical
        refine ⟨Int32.ofInt (-number rest), ?_⟩
        rw [Int32.toInt_ofInt_of_le (by omega) (by omega), decimal,
          if_pos (by omega), Int.natAbs_neg, Int.natAbs_natCast, ← numeral.eq_decimalNat, negative]
      · rw [if_neg negative] at canonical
        obtain ⟨numeral, fits⟩ := canonical
        refine ⟨Int32.ofInt (number (c :: rest)), ?_⟩
        rw [Int32.toInt_ofInt_of_le (by omega) (by omega), decimal,
          if_neg (by omega), Int.natAbs_natCast, ← numeral.eq_decimalNat]

theorem decimal_chars (value : Int) : ∀ c ∈ decimal value, c = minus ∨ isDigit c = true := by
  intro c inside
  rw [decimal] at inside
  by_cases negative : value < 0
  · rw [if_pos negative, List.mem_cons] at inside
    exact inside.imp_right (decimalNat_isDigit _ c)
  · rw [if_neg negative] at inside
    exact Or.inr (decimalNat_isDigit _ c inside)

theorem decimal_ne_nil (value : Int) : decimal value ≠ [] := by
  rw [decimal]
  by_cases negative : value < 0
  · simp [negative]
  · simpa [negative] using decimalNat_ne_nil value.natAbs

end Ve482.CString
