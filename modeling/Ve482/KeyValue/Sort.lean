import Ve482.Lib.CString
import Ve482.Lib.InsertionSort

set_option autoImplicit false

namespace Ve482.KeyValue

open CString

/-- The parts of the C library whose values the programs only pass on. -/
structure Libc where
  Double : Type
  atof : Text → Double
  /-- `%lf` -/
  lf : Double → Text
  /-- `a - b` as the `int` that a comparison returns. -/
  difference : Double → Double → Int
  /-- What `srand` sets. -/
  Random : Type
  rand : Random → Nat × Random

inductive DataType where
  | char
  | int
  | double
deriving DecidableEq

inductive SortType where
  | rand
  | inc
  | dec
deriving DecidableEq

/-- `Type` -/
structure Kind where
  sortType : SortType
  dataType : DataType
deriving DecidableEq

/-- What the `void *data` of a node points to. -/
def Data (L : Libc) : DataType → Type
  | .char => Text
  | .int => Int32
  | .double => L.Double

structure Node (L : Libc) (dataType : DataType) where
  key : Text
  data : Data L dataType

/-- `List`: the chain that starts at `head`, and its length. -/
structure NodeList (L : Libc) (dataType : DataType) where
  head : List (Node L dataType)
  length : Nat
  counted : head.length = length

variable {L : Libc} {dataType : DataType}

theorem NodeList.ext_head {left right : NodeList L dataType} (same : left.head = right.head) :
    left = right := by
  obtain ⟨head, length, counted⟩ := left
  obtain ⟨head', length', counted'⟩ := right
  subst same counted counted'
  rfl

def listConstructor (L : Libc) (dataType : DataType) : NodeList L dataType := ⟨[], 0, rfl⟩

def listAdd (list : NodeList L dataType) (node : Node L dataType) : NodeList L dataType :=
  ⟨list.head ++ [node], list.length + 1, by rw [List.length_append, list.counted]; rfl⟩

def insert (list : NodeList L dataType) (key : Text) (data : Data L dataType) :
    NodeList L dataType :=
  listAdd list ⟨key, data⟩

@[simp] theorem insert_head (list : NodeList L dataType) (key : Text) (data : Data L dataType) :
    (insert list key data).head = list.head ++ [⟨key, data⟩] := rfl

abbrev Comparison (L : Libc) (dataType : DataType) : Type :=
  InsertionSort.Comparison (Node L dataType) L.Random

def rnd : Comparison L dataType := fun _ _ rng => ((L.rand rng).1 % 2 * 2 - 1, (L.rand rng).2)

/-- `*(int *)node->data` -/
def Node.int (node : Node L .int) : Int32 := node.data

def intInc : Comparison L .int := fun a b rng => ((a.int - b.int).toInt, rng)

def intDec : Comparison L .int := fun a b rng => intInc b a rng

def doubleInc : Comparison L .double := fun a b rng => (L.difference a.data b.data, rng)

def doubleDec : Comparison L .double := fun a b rng => doubleInc b a rng

/-- `(char *)node->data` -/
def Node.string (node : Node L .char) : Text := node.data

def charInc : Comparison L .char := fun a b rng => (strcmp a.string b.string, rng)

def charDec : Comparison L .char := fun a b rng => charInc b a rng

def cmp : (dataType : DataType) → SortType → Comparison L dataType
  | .char, .rand => rnd
  | .char, .inc => charInc
  | .char, .dec => charDec
  | .int, .rand => rnd
  | .int, .inc => intInc
  | .int, .dec => intDec
  | .double, .rand => rnd
  | .double, .inc => doubleInc
  | .double, .dec => doubleDec

def sort (sortType : SortType) (list : NodeList L dataType) (rng : L.Random) :
    NodeList L dataType × L.Random :=
  if list.length = 0 then (list, rng)
  else
    let sorted := InsertionSort.sort (cmp dataType sortType) list.head rng
    (⟨sorted.1, list.length, by
      rw [(InsertionSort.sort_perm _ list.head rng).length_eq, list.counted]⟩, sorted.2)

theorem sort_spec (sortType : SortType) (list : NodeList L dataType) (rng : L.Random) :
    (sort sortType list rng).1.head =
        (InsertionSort.sort (cmp dataType sortType) list.head rng).1 ∧
      (sort sortType list rng).2 =
        (InsertionSort.sort (cmp dataType sortType) list.head rng).2 := by
  rw [sort]
  by_cases empty : list.length = 0
  · have none : list.head = [] := List.length_eq_zero_iff.mp (list.counted.trans empty)
    rw [if_pos empty, none]
    exact ⟨rfl, rfl⟩
  · rw [if_neg empty]
    exact ⟨rfl, rfl⟩

theorem sort_head (sortType : SortType) (list : NodeList L dataType) (rng : L.Random) :
    (sort sortType list rng).1.head =
      (InsertionSort.sort (cmp dataType sortType) list.head rng).1 :=
  (sort_spec sortType list rng).1

theorem sort_random (sortType : SortType) (list : NodeList L dataType) (rng : L.Random) :
    (sort sortType list rng).2 = (InsertionSort.sort (cmp dataType sortType) list.head rng).2 :=
  (sort_spec sortType list rng).2

/-- Only `rnd` draws random numbers. -/
theorem cmp_stateless (dataType : DataType) {sortType : SortType} (asked : sortType ≠ .rand) :
    ∃ sign : Node L dataType → Node L dataType → Int,
      ∀ a b rng, cmp dataType sortType a b rng = (sign a b, rng) := by
  cases sortType with
  | rand => exact absurd rfl asked
  | inc => cases dataType <;> exact ⟨_, fun _ _ _ => rfl⟩
  | dec => cases dataType <;> exact ⟨_, fun _ _ _ => rfl⟩

theorem sort_seed {sortType : SortType} (asked : sortType ≠ .rand) (list : NodeList L dataType)
    (rng other : L.Random) : (sort sortType list rng).1 = (sort sortType list other).1 := by
  obtain ⟨sign, stateless⟩ := cmp_stateless (L := L) dataType asked
  apply NodeList.ext_head
  rw [sort_head, sort_head, InsertionSort.sort_stateless stateless list.head rng other]

end Ve482.KeyValue
