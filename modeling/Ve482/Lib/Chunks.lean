import Mathlib.Data.List.Basic
import Mathlib.Data.List.GetD

set_option autoImplicit false

namespace Ve482.Chunks

variable {α : Type}

/-- The pieces are what the text has from a position on, up to its end. -/
def Cuts (text : List α) : Nat → List (List α) → Prop
  | pos, [] => pos = text.length
  | pos, piece :: pieces =>
      piece = (text.drop pos).take piece.length ∧ Cuts text (pos + piece.length) pieces

theorem cuts_iff_flatten {text : List α} {pos : Nat} {pieces : List (List α)} :
    Cuts text pos pieces ↔
      pieces.flatten = text.drop pos ∧ pos + pieces.flatten.length = text.length := by
  induction pieces generalizing pos with
  | nil =>
      constructor
      · intro here
        exact ⟨by rw [show pos = text.length from here, List.drop_length]; rfl, here⟩
      · intro whole
        exact whole.2
  | cons piece pieces ih =>
      rw [Cuts, ih, List.flatten_cons, List.length_append, Nat.add_assoc]
      constructor
      · rintro ⟨first, rest, last⟩
        refine ⟨?_, last⟩
        conv_lhs => rw [first, rest, ← List.drop_drop]
        exact List.take_append_drop ..
      · rintro ⟨whole, last⟩
        refine ⟨?_, ?_, last⟩
        · rw [← whole, List.take_left]
        · rw [← List.drop_drop, ← whole, List.drop_left]

theorem cuts_zero_iff {text : List α} {pieces : List (List α)} :
    Cuts text 0 pieces ↔ pieces.flatten = text := by
  rw [cuts_iff_flatten, List.drop_zero, Nat.zero_add]
  exact and_iff_left_of_imp (congrArg List.length)

/-- Nothing delivered: the piece is cut anywhere. -/
theorem cuts_nil_cons {text : List α} {pos : Nat} {pieces : List (List α)} :
    Cuts text pos ([] :: pieces) ↔ Cuts text pos pieces := by
  rw [Cuts, List.length_nil, List.take_zero, Nat.add_zero]
  exact and_iff_right rfl

/-- Pieces written one after the other stay below a bound exactly when the last of them ends
there. -/
theorem appended_below_iff {pieces : List (List α)} (some_piece : pieces ≠ []) (bound : Nat) :
    (∀ before piece after, pieces = before ++ piece :: after →
      before.flatten.length + piece.length < bound) ↔ pieces.flatten.length < bound := by
  constructor
  · intro below
    have last := below pieces.dropLast (pieces.getLast some_piece) []
      (List.dropLast_append_getLast some_piece).symm
    rw [← List.dropLast_append_getLast some_piece, List.flatten_append, List.flatten_singleton,
      List.length_append]
    exact last
  · intro whole before piece after split
    rw [split, List.flatten_append, List.flatten_cons, List.length_append, List.length_append]
      at whole
    omega

/-- Two texts are the same over a stretch that lies in both. -/
theorem stretch_eq_iff {left right : List α} {start size : Nat} (inLeft : size ≤ left.length - start)
    (inRight : size ≤ right.length - start) (d : α) :
    (left.drop start).take size = (right.drop start).take size ↔
      ∀ place, start ≤ place → place < start + size → left.getD place d = right.getD place d := by
  constructor
  · intro same place low high
    have both := congrArg (fun stretch : List α => stretch.getD (place - start) d) same
    have read (text : List α) (inside : size ≤ text.length - start) :
        ((text.drop start).take size).getD (place - start) d = text.getD place d := by
      have short : place - start < ((text.drop start).take size).length := by
        rw [List.length_take, List.length_drop]
        omega
      have whole : place < text.length := by omega
      rw [List.getD_eq_getElem _ _ short, List.getD_eq_getElem _ _ whole, List.getElem_take,
        List.getElem_drop]
      congr 1
      omega
    exact (read left inLeft).symm.trans (both.trans (read right inRight))
  · intro same
    apply List.ext_getElem
    · simp only [List.length_take, List.length_drop]
      omega
    · intro i small _
      rw [List.length_take, List.length_drop] at small
      have here := same (start + i) (Nat.le_add_right ..) (by omega)
      rw [List.getD_eq_getElem _ _ (by omega), List.getD_eq_getElem _ _ (by omega)] at here
      simp only [List.getElem_take, List.getElem_drop]
      exact here
theorem getD_map_of_lt {β : Type} (f : α → β) {list : List α} {i : Nat} (inside : i < list.length)
    (d : β) (e : α) : (list.map f).getD i d = f (list.getD i e) := by
  rw [List.getD_eq_getElem _ _ inside,
    List.getD_eq_getElem _ _ (show i < (list.map f).length by rwa [List.length_map]),
    List.getElem_map]

/-- A place in pieces of one size lies in one of them. -/
theorem flatten_getD {size : Nat} {pieces : List (List α)} (positive : 0 < size)
    (same : ∀ piece ∈ pieces, piece.length = size) (place : Nat) (d : α) :
    pieces.flatten.getD place d = (pieces.getD (place / size) []).getD (place % size) d := by
  induction pieces generalizing place with
  | nil => rfl
  | cons piece pieces ih =>
      obtain ⟨here, rest⟩ := List.forall_mem_cons.mp same
      rw [List.flatten_cons]
      rcases Nat.lt_or_ge place size with inside | beyond
      · rw [List.getD_append _ _ _ _ (by omega), Nat.div_eq_of_lt inside, Nat.mod_eq_of_lt inside]
        rfl
      · rw [List.getD_append_right _ _ _ _ (by omega), ih rest, here,
          Nat.div_eq_sub_div positive beyond, List.getD_cons_succ, Nat.mod_eq_sub_mod beyond]

/-- The last answer, and no other, is one to stop at. -/
def StopsAt {β : Type} (stop : β → Prop) [DecidablePred stop] : List β → Prop
  | [] => False
  | answer :: answers => if stop answer then answers = [] else StopsAt stop answers

theorem stopsAt_cons {β : Type} {stop : β → Prop} [DecidablePred stop] {answer : β}
    {answers : List β} :
    StopsAt stop (answer :: answers) ↔ if stop answer then answers = [] else StopsAt stop answers :=
  Iff.rfl

instance StopsAt.decidable {β : Type} (stop : β → Prop) [DecidablePred stop] :
    (answers : List β) → Decidable (StopsAt stop answers)
  | [] => .isFalse fun stops => stops
  | answer :: answers =>
      have := StopsAt.decidable stop answers
      inferInstanceAs (Decidable (if stop answer then answers = [] else StopsAt stop answers))

end Ve482.Chunks
