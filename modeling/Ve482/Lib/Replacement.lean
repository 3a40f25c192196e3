import Mathlib.Data.List.Basic
import Mathlib.Data.List.Nodup

set_option autoImplicit false

/- Replacement by the place in a chain: a miss takes the first entry, every access puts its
entry at one of the ends. -/
namespace Ve482.Replacement

variable {κ : Type} [BEq κ] [LawfulBEq κ]

/-- The keys in a chain of entries, where an entry may be empty, after an access. -/
def access (chain : List (Option κ)) (key : κ) (toFront : Bool) : List (Option κ) :=
  let rest := if some key ∈ chain then chain.erase (some key) else chain.tail
  if toFront then some key :: rest else rest ++ [some key]

/-- No key is in the chain twice. -/
def Distinct (chain : List (Option κ)) : Prop := ∀ key, chain.count (some key) ≤ 1

omit [BEq κ] [LawfulBEq κ] in
/-- The second chain is the first with one more entry somewhere. -/
def Extends (small large : List (Option κ)) : Prop :=
  ∃ left extra right, small = left ++ right ∧ large = left ++ extra :: right

omit [BEq κ] [LawfulBEq κ] in
theorem Extends.mem {small large : List (Option κ)} (extends' : Extends small large)
    {entry : Option κ} (member : entry ∈ small) : entry ∈ large := by
  obtain ⟨left, extra, right, rfl, rfl⟩ := extends'
  simp only [List.mem_append, List.mem_cons] at member ⊢
  tauto

omit [BEq κ] [LawfulBEq κ] in
theorem Extends.cons {small large : List (Option κ)} (extends' : Extends small large)
    (entry : Option κ) : Extends (entry :: small) (entry :: large) := by
  obtain ⟨left, extra, right, rfl, rfl⟩ := extends'
  exact ⟨entry :: left, extra, right, rfl, rfl⟩

omit [BEq κ] [LawfulBEq κ] in
theorem Extends.concat {small large : List (Option κ)} (extends' : Extends small large)
    (entry : Option κ) : Extends (small ++ [entry]) (large ++ [entry]) := by
  obtain ⟨left, extra, right, rfl, rfl⟩ := extends'
  exact ⟨left, extra, right ++ [entry], by simp, by simp⟩

omit [BEq κ] [LawfulBEq κ] in
theorem extends_cons (entry : Option κ) (chain : List (Option κ)) :
    Extends chain (entry :: chain) :=
  ⟨[], entry, chain, rfl, rfl⟩

/-- Taking out an entry that both chains have. -/
theorem Extends.erase {small large : List (Option κ)} (extends' : Extends small large)
    {entry : Option κ} (member : entry ∈ small) (once : large.count entry ≤ 1) :
    Extends (small.erase entry) (large.erase entry) := by
  obtain ⟨left, extra, right, rfl, rfl⟩ := extends'
  by_cases inLeft : entry ∈ left
  · refine ⟨left.erase entry, extra, right, ?_, ?_⟩
    · exact List.erase_append_left right inLeft
    · exact List.erase_append_left (extra :: right) inLeft
  · have inRight : entry ∈ right := (List.mem_append.1 member).resolve_left inLeft
    have different : extra ≠ entry := by
      rintro rfl
      have again := List.count_pos_iff.2 inRight
      rw [List.count_append, List.count_cons_self] at once
      omega
    refine ⟨left, extra, right.erase entry, ?_, ?_⟩
    · exact List.erase_append_right right inLeft
    · rw [List.erase_append_right _ inLeft, List.erase_cons_tail (by simpa using different)]

omit [BEq κ] [LawfulBEq κ] in
/-- The first entries leave. The one that only the larger chain had may be among them. -/
theorem Extends.tail {first : Option κ} {small large : List (Option κ)}
    (extends' : Extends (first :: small) large) : Extends small large.tail := by
  obtain ⟨left, extra, right, split, rfl⟩ := extends'
  cases left with
  | nil =>
      rw [List.nil_append] at split
      subst split
      exact extends_cons first small
  | cons other left =>
      rw [List.cons_append, List.cons.injEq] at split
      obtain ⟨-, rfl⟩ := split
      exact ⟨left, extra, right, rfl, rfl⟩

/-- An entry that only the larger chain has is taken out there, in the smaller one the first. -/
theorem Extends.erase_tail {first : Option κ} {small large : List (Option κ)}
    (extends' : Extends (first :: small) large) {entry : Option κ} (member : entry ∈ large)
    (missing : entry ∉ first :: small) : Extends small (large.erase entry) := by
  obtain ⟨left, extra, right, split, rfl⟩ := extends'
  have inLeft : entry ∉ left := by
    rw [split, List.mem_append, not_or] at missing
    exact missing.1
  have inRight : entry ∉ right := by
    rw [split, List.mem_append, not_or] at missing
    exact missing.2
  have same : extra = entry := by
    simp only [List.mem_append, List.mem_cons, inLeft, inRight, or_false, false_or] at member
    exact member.symm
  subst same
  rw [List.erase_append_right _ inLeft, List.erase_cons_head, ← split]
  exact extends_cons first small

/-- An access keeps the larger chain ahead of the smaller one by a single entry. -/
theorem Extends.access {small large : List (Option κ)} (extends' : Extends small large)
    (nonempty : small ≠ []) (distinct : Distinct large) (key : κ) (toFront : Bool) :
    Extends (access small key toFront) (access large key toFront) := by
  have rest : Extends
      (if some key ∈ small then small.erase (some key) else small.tail)
      (if some key ∈ large then large.erase (some key) else large.tail) := by
    by_cases hit : some key ∈ small
    · rw [if_pos hit, if_pos (extends'.mem hit)]
      exact extends'.erase hit (distinct key)
    · rw [if_neg hit]
      cases small with
      | nil => exact absurd rfl nonempty
      | cons first small =>
          by_cases more : some key ∈ large
          · rw [if_pos more]
            exact extends'.erase_tail more hit
          · rw [if_neg more]
            exact extends'.tail
  unfold Replacement.access
  cases toFront with
  | true => exact rest.cons (some key)
  | false => exact rest.concat (some key)

theorem Distinct.access {chain : List (Option κ)} (distinct : Distinct chain) (key : κ)
    (toFront : Bool) : Distinct (access chain key toFront) := by
  intro other
  have once := distinct other
  have fewer (entry : Option κ) :
      (if some key ∈ chain then chain.erase (some key) else chain.tail).count entry ≤
        chain.count entry := by
    by_cases hit : some key ∈ chain
    · rw [if_pos hit]
      exact List.erase_sublist.count_le entry
    · rw [if_neg hit]
      exact (List.tail_sublist chain).count_le entry
  have left := fewer (some other)
  unfold Replacement.access
  by_cases same : key = other
  · subst same
    have gone : (if some key ∈ chain then chain.erase (some key) else chain.tail).count
        (some key) = 0 := by
      by_cases hit : some key ∈ chain
      · rw [if_pos hit, List.count_erase_self]
        omega
      · have none := List.count_eq_zero_of_not_mem hit
        omega
    cases toFront with
    | true => simp [gone]
    | false => simp [gone]
  · have different : some key ≠ some other := fun equal => same (Option.some.inj equal)
    cases toFront with
    | true => simpa [List.count_cons_of_ne different] using Nat.le_trans left once
    | false => simpa [List.count_cons_of_ne different] using Nat.le_trans left once

/-- Taking out the node of a key takes out the key. -/
theorem Distinct.map_erase {ν : Type} [DecidableEq ν] {entry : ν → Option κ} {nodes : List ν}
    (distinct : Distinct (nodes.map entry)) {node : ν} (member : node ∈ nodes) {key : κ}
    (own : entry node = some key) :
    (nodes.erase node).map entry = (nodes.map entry).erase (some key) := by
  obtain ⟨left, right, -, split, erased⟩ := List.exists_erase_eq member
  have once := distinct key
  have missing : some key ∉ left.map entry := by
    intro again
    have positive := List.count_pos_iff.2 again
    rw [split, List.map_append, List.map_cons, own, List.count_append, List.count_cons_self] at once
    omega
  rw [erased, split, List.map_append, List.map_append, List.map_cons, own,
    List.erase_append_right _ missing, List.erase_cons_head]

end Ve482.Replacement
