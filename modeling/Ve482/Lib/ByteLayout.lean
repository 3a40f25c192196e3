import Mathlib.Algebra.Group.Nat.Defs
import Mathlib.Data.List.GetD

set_option autoImplicit false

namespace Ve482.ByteLayout

def toBytes : Nat → Nat → List UInt8
  | 0, _ => []
  | width + 1, value => UInt8.ofNat value :: toBytes width (value / 256)

def ofBytes : List UInt8 → Nat
  | [] => 0
  | byte :: bytes => byte.toNat + 256 * ofBytes bytes

@[simp] theorem length_toBytes (width value : Nat) : (toBytes width value).length = width := by
  induction width generalizing value with
  | zero => rfl
  | succ width ih => rw [toBytes, List.length_cons, ih]

/-- What is too large for its width wraps. -/
theorem ofBytes_toBytes (width value : Nat) :
    ofBytes (toBytes width value) = value % 256 ^ width := by
  induction width generalizing value with
  | zero => rw [toBytes, ofBytes, Nat.pow_zero, Nat.mod_one]
  | succ width ih =>
      rw [toBytes, ofBytes, ih, Nat.pow_succ', Nat.mod_mul, UInt8.toNat_ofNat']

theorem ofBytes_toBytes_of_lt {width value : Nat} (fits : value < 256 ^ width) :
    ofBytes (toBytes width value) = value := by
  rw [ofBytes_toBytes, Nat.mod_eq_of_lt fits]

theorem ofBytes_lt (bytes : List UInt8) : ofBytes bytes < 256 ^ bytes.length := by
  induction bytes with
  | nil => exact Nat.one_pos
  | cons byte bytes ih =>
      have small : byte.toNat < 256 := byte.toNat_lt
      rw [ofBytes, List.length_cons, Nat.pow_succ]
      omega

abbrev Buffer := Nat → UInt8

def load (memory : Buffer) (start count : Nat) : List UInt8 :=
  (List.range count).map fun i => memory (start + i)

def store (memory : Buffer) (start : Nat) (data : List UInt8) : Buffer :=
  fun i => if start ≤ i ∧ i < start + data.length then data.getD (i - start) 0 else memory i

section Store

variable (memory : Buffer) {start : Nat} {data : List UInt8}

@[simp] theorem length_load (start count : Nat) : (load memory start count).length = count := by
  rw [load, List.length_map, List.length_range]

theorem store_inside {i : Nat} (inside : i < data.length) :
    store memory start data (start + i) = data.getD i 0 := by
  rw [store, if_pos ⟨Nat.le_add_right .., by omega⟩, Nat.add_sub_cancel_left]

theorem store_outside {i : Nat} (outside : i < start ∨ start + data.length ≤ i) :
    store memory start data i = memory i := if_neg (by omega)

theorem load_congr {memory other : Buffer} {start count : Nat}
    (same : ∀ i, i < count → memory (start + i) = other (start + i)) :
    load memory start count = load other start count :=
  List.map_congr_left fun i member => same i (List.mem_range.mp member)

/-- A piece of what was stored. -/
theorem load_store_piece (start : Nat) {offset count : Nat} (within : offset + count ≤ data.length) :
    load (store memory start data) (start + offset) count = (data.drop offset).take count := by
  apply List.ext_getElem
  · rw [length_load, List.length_take, List.length_drop]
    omega
  · intro i small _
    rw [length_load] at small
    have inside : offset + i < data.length := by omega
    have read : store memory start data (start + offset + i) = data.getD (offset + i) 0 := by
      rw [Nat.add_assoc, store_inside memory inside]
    simp only [load, List.getElem_map, List.getElem_range, List.getElem_take, List.getElem_drop, read]
    exact List.getD_eq_getElem data 0 inside

theorem load_store_self (start : Nat) (data : List UInt8) :
    load (store memory start data) start data.length = data := by
  have whole := load_store_piece memory start (show 0 + data.length ≤ data.length by omega)
  rwa [Nat.add_zero, List.drop_zero, List.take_length] at whole

theorem load_store_apart {place count : Nat}
    (apart : place + count ≤ start ∨ start + data.length ≤ place) :
    load (store memory start data) place count = load memory place count :=
  load_congr fun i small => store_outside memory (by omega)

end Store

/-! Numbers in memory. -/

def word (memory : Buffer) (start width : Nat) : Nat := ofBytes (load memory start width)

def storeWord (memory : Buffer) (start width value : Nat) : Buffer :=
  store memory start (toBytes width value)

section Word

variable (memory : Buffer)

theorem word_lt (start width : Nat) : word memory start width < 256 ^ width := by
  have bound := ofBytes_lt (load memory start width)
  rwa [length_load] at bound

theorem word_store_apart {start place width : Nat} {data : List UInt8}
    (apart : place + width ≤ start ∨ start + data.length ≤ place) :
    word (store memory start data) place width = word memory place width := by
  rw [word, load_store_apart memory apart, word]

theorem word_storeWord_self (start : Nat) {width value : Nat} (fits : value < 256 ^ width) :
    word (storeWord memory start width value) start width = value := by
  have whole := load_store_self memory start (toBytes width value)
  rw [length_toBytes] at whole
  rw [word, storeWord, whole, ofBytes_toBytes_of_lt fits]

theorem word_storeWord_apart {start place width size : Nat} (value : Nat)
    (apart : place + width ≤ start ∨ start + size ≤ place) :
    word (storeWord memory start size value) place width = word memory place width :=
  word_store_apart memory (by rwa [length_toBytes])

/-- A number inside a stored structure, with what stands before it and after it. -/
theorem word_store_field {start width value : Nat} {before after : List UInt8}
    (fits : value < 256 ^ width) :
    word (store memory start (before ++ toBytes width value ++ after)) (start + before.length) width =
      value := by
  rw [word, load_store_piece memory start (by simp), List.append_assoc, List.drop_left,
    List.take_left' (length_toBytes ..), ofBytes_toBytes_of_lt fits]

end Word

/-! C strings. -/

/-- The bytes before the first NUL, of which at most `limit` are looked at. -/
def cstring (memory : Buffer) : Nat → Nat → List UInt8
  | _, 0 => []
  | start, limit + 1 =>
      if memory start = 0 then [] else memory start :: cstring memory (start + 1) limit

/-- `strcmp` of a string in memory and one of these bytes returns 0. -/
def strcmpZero (memory : Buffer) : Nat → List UInt8 → Bool
  | start, [] => memory start == 0
  | start, byte :: bytes => memory start == byte && strcmpZero memory (start + 1) bytes

theorem cstring_congr {memory other : Buffer} {start limit : Nat}
    (same : ∀ i, i < limit → memory (start + i) = other (start + i)) :
    cstring memory start limit = cstring other start limit := by
  induction limit generalizing start with
  | zero => rfl
  | succ limit ih =>
      have first : memory start = other start := same 0 (Nat.succ_pos limit)
      have rest : cstring memory (start + 1) limit = cstring other (start + 1) limit := by
        refine ih fun i small => ?_
        rw [Nat.add_assoc, Nat.add_comm 1 i]
        exact same (i + 1) (Nat.succ_lt_succ small)
      rw [cstring, cstring, first, rest]

theorem cstring_eq_iff (memory : Buffer) {start limit : Nat} {text : List UInt8}
    (terminated : 0 ∉ text) (short : text.length < limit) :
    cstring memory start limit = text ↔ strcmpZero memory start text = true := by
  induction text generalizing start limit with
  | nil =>
      obtain ⟨limit, rfl⟩ := Nat.exists_eq_add_one_of_ne_zero (Nat.ne_of_gt short)
      rw [cstring, strcmpZero, beq_iff_eq]
      by_cases zero : memory start = 0
      · exact iff_of_true (if_pos zero) zero
      · rw [if_neg zero]
        exact iff_of_false (List.cons_ne_nil _ _) zero
  | cons byte bytes ih =>
      rw [List.mem_cons, not_or] at terminated
      obtain ⟨limit, rfl⟩ := Nat.exists_eq_add_one_of_ne_zero (show limit ≠ 0 by
        rintro rfl
        exact absurd short (Nat.not_lt_zero _))
      rw [List.length_cons, Nat.succ_lt_succ_iff] at short
      rw [cstring, strcmpZero, Bool.and_eq_true, beq_iff_eq, ← ih terminated.2 short]
      by_cases zero : memory start = 0
      · rw [if_pos zero]
        refine iff_of_false (List.cons_ne_nil _ _).symm fun same => ?_
        exact terminated.1 (zero.symm.trans same.1)
      · rw [if_neg zero, List.cons_eq_cons]

theorem strcmpZero_of_load {memory : Buffer} {start : Nat} {text : List UInt8}
    (loaded : load memory start (text.length + 1) = text ++ [0]) :
    strcmpZero memory start text = true := by
  induction text generalizing start with
  | nil =>
      have first : memory start = 0 := List.head_eq_of_cons_eq loaded
      rw [strcmpZero, first]
      rfl
  | cons byte bytes ih =>
      rw [load, List.length_cons, List.range_succ_eq_map, List.map_cons, List.map_map] at loaded
      obtain ⟨first, rest⟩ := List.cons.inj loaded
      have later : load memory (start + 1) (bytes.length + 1) = bytes ++ [0] := by
        refine Eq.trans (List.map_congr_left fun i _ => ?_) rest
        rw [Function.comp, Nat.succ_eq_add_one, Nat.add_assoc, Nat.add_comm 1 i]
      rw [strcmpZero, Bool.and_eq_true, beq_iff_eq]
      exact ⟨first, ih later⟩

/-- `strcpy`: the bytes and their NUL. -/
def strcpy (memory : Buffer) (start : Nat) (text : List UInt8) : Buffer :=
  store memory start (text ++ [0])

theorem cstring_strcpy_self (memory : Buffer) (start : Nat) {limit : Nat} {text : List UInt8}
    (terminated : 0 ∉ text) (short : text.length < limit) :
    cstring (strcpy memory start text) start limit = text := by
  refine (cstring_eq_iff _ terminated short).mpr (strcmpZero_of_load ?_)
  have whole := load_store_self memory start (text ++ [0])
  rwa [List.length_append] at whole

theorem cstring_store_apart (memory : Buffer) {start place limit : Nat} {data : List UInt8}
    (apart : place + limit ≤ start ∨ start + data.length ≤ place) :
    cstring (store memory start data) place limit = cstring memory place limit :=
  cstring_congr fun i small => store_outside memory (by omega)

/-! Arrays of structures of one size. -/

section Elements

variable (memory : Buffer) {size index other : Nat}

theorem elements_apart (size : Nat) (apart : other ≠ index) :
    other * size + size ≤ index * size ∨ index * size + size ≤ other * size := by
  rw [← Nat.succ_mul, ← Nat.succ_mul]
  rcases Nat.lt_or_gt_of_ne apart with before | after
  · exact Or.inl (Nat.mul_le_mul_right size before)
  · exact Or.inr (Nat.mul_le_mul_right size after)

/-- A store inside one element leaves the others. -/
theorem store_element_other {place offset : Nat} {data : List UInt8} (apart : other ≠ index)
    (stored : place + data.length ≤ size) (read : offset < size) :
    store memory (index * size + place) data (other * size + offset) =
      memory (other * size + offset) := by
  have places := elements_apart size apart
  exact store_outside memory (by omega)

theorem word_element_other {place offset width : Nat} {data : List UInt8} (apart : other ≠ index)
    (stored : place + data.length ≤ size) (read : offset + width ≤ size) :
    word (store memory (index * size + place) data) (other * size + offset) width =
      word memory (other * size + offset) width := by
  have places := elements_apart size apart
  exact word_store_apart memory (by omega)

theorem cstring_element_other {place limit : Nat} {data : List UInt8} (apart : other ≠ index)
    (stored : place + data.length ≤ size) (read : limit ≤ size) :
    cstring (store memory (index * size + place) data) (other * size) limit =
      cstring memory (other * size) limit := by
  have places := elements_apart size apart
  exact cstring_store_apart memory (by omega)

end Elements

end Ve482.ByteLayout
