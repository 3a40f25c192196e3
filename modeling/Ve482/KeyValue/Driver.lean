import Ve482.KeyValue.Menu
import Ve482.Lib.StableSort
import Mathlib.Logic.Function.Iterate

set_option autoImplicit false

namespace Ve482.KeyValue

open CString InsertionSort Stdio

variable {L : Libc} {dataType : DataType} {ι : Type} [DecidableEq ι]

/-- `a` may stand before `b` where the values ascend. The text format holds no doubles. -/
def ascends : {dataType : DataType} → Node L dataType → Node L dataType → Bool
  | .char, a, b => strcmp a.string b.string ≤ 0
  | .int, a, b => a.int.toInt ≤ b.int.toInt
  | .double, _, _ => true

def mayPrecede (sortType : SortType) (a b : Node L dataType) : Bool :=
  match sortType with
  | .dec => ascends b a
  | _ => ascends a b

/-- The difference of two integers fits an `int`. -/
def Near : {dataType : DataType} → Node L dataType → Node L dataType → Prop
  | .int, a, b => a.int.toInt - b.int.toInt < 2 ^ 31
  | .char, _, _ | .double, _, _ => True

theorem ascends_trans (a b c : Node L dataType) (first : ascends a b = true)
    (second : ascends b c = true) : ascends a c = true := by
  cases dataType with
  | char =>
      simp only [ascends, decide_eq_true_eq] at first second ⊢
      exact strcmp_trans first second
  | int =>
      simp only [ascends, decide_eq_true_eq] at first second ⊢
      exact Int.le_trans first second
  | double => rfl

theorem ascends_total (a b : Node L dataType) : (ascends a b || ascends b a) = true := by
  cases dataType with
  | char =>
      have swapped := strcmp_swap a.string b.string
      simp only [ascends, Bool.or_eq_true, decide_eq_true_eq]
      omega
  | int =>
      simp only [ascends, Bool.or_eq_true, decide_eq_true_eq]
      exact Int.le_total _ _
  | double => rfl

theorem mayPrecede_trans (sortType : SortType) (a b c : Node L dataType)
    (first : mayPrecede sortType a b = true) (second : mayPrecede sortType b c = true) :
    mayPrecede sortType a c = true := by
  cases sortType with
  | rand | inc => exact ascends_trans a b c first second
  | dec => exact ascends_trans c b a second first

theorem mayPrecede_total (sortType : SortType) (a b : Node L dataType) :
    (mayPrecede sortType a b || mayPrecede sortType b a) = true := by
  cases sortType with
  | rand | inc => exact ascends_total a b
  | dec => exact ascends_total b a

/-- A difference that fits does not wrap. -/
theorem intInc_ascends {a b : Node L .int} (near : Near a b) (near' : Near b a) (rng : L.Random) :
    0 ≤ (intInc a b rng).1 ↔ ascends b a = true := by
  have apart : a.int.toInt - b.int.toInt < 2 ^ 31 := near
  have apart' : b.int.toInt - a.int.toInt < 2 ^ 31 := near'
  have exact : (a.int - b.int).toInt = a.int.toInt - b.int.toInt := by
    rw [Int32.toInt_sub]
    exact Int.bmod_eq_of_le (by omega) (by omega)
  rw [intInc, exact, ascends, decide_eq_true_eq]
  omega

theorem charInc_ascends (a b : Node L .char) (rng : L.Random) :
    0 ≤ (charInc a b rng).1 ↔ ascends b a = true := by
  have swapped := strcmp_swap a.string b.string
  rw [charInc, ascends, decide_eq_true_eq]
  omega

/-- The comparisons follow the order. -/
theorem cmp_mayPrecede {sortType : SortType} (asked : sortType ≠ .rand) {a b : Node L dataType}
    (printable : Printable a) (near : Near a b) (near' : Near b a) (rng : L.Random) :
    0 ≤ (cmp dataType sortType a b rng).1 ↔ mayPrecede sortType b a = true := by
  cases sortType with
  | rand => exact absurd rfl asked
  | inc =>
      cases dataType with
      | char => exact charInc_ascends a b rng
      | int => exact intInc_ascends near near' rng
      | double => exact printable.data.elim
  | dec =>
      cases dataType with
      | char => exact charInc_ascends b a rng
      | int => exact intInc_ascends near' near rng
      | double => exact printable.data.elim

/-- What a run makes of the nodes of a file: they are in order, and those with equal values have
turned around. -/
def sorted (sortType : SortType) (nodes : List (Node L dataType)) : List (Node L dataType) :=
  nodes.reverse.mergeSort (mayPrecede sortType)

theorem sorted_perm (sortType : SortType) (nodes : List (Node L dataType)) :
    (sorted sortType nodes).Perm nodes :=
  (List.mergeSort_perm _ _).trans (List.reverse_perm nodes)

/-- Two runs keep those with equal values as they are. -/
theorem sorted_sorted (sortType : SortType) (nodes : List (Node L dataType)) :
    sorted sortType (sorted sortType nodes) = nodes.mergeSort (mayPrecede sortType) := by
  unfold sorted
  rw [mergeSort_reverse_mergeSort (mayPrecede_trans sortType) (mayPrecede_total sortType),
    List.reverse_reverse]

/-- The nodes of a file that the program sorts. -/
structure Sortable (nodes : List (Node L dataType)) : Prop where
  printable : ∀ node ∈ nodes, Printable node
  near : ∀ a ∈ nodes, ∀ b ∈ nodes, Near a b

theorem Sortable.perm {nodes nodes' : List (Node L dataType)} (sortable : Sortable nodes)
    (perm : nodes'.Perm nodes) : Sortable nodes' :=
  ⟨fun node inside => sortable.printable node (perm.mem_iff.mp inside),
    fun a insideA b insideB =>
      sortable.near a (perm.mem_iff.mp insideA) b (perm.mem_iff.mp insideB)⟩

theorem sort_sorted_nodes {sortType : SortType} (asked : sortType ≠ .rand)
    {list : NodeList L dataType} (sortable : Sortable list.head) (rng : L.Random) :
    (sort sortType list rng).1.head = sorted sortType list.head := by
  rw [sort_head]
  refine sort_eq_mergeSort_of_mem (mayPrecede_trans sortType) (mayPrecede_total sortType) ?_ rng
  intro a insideA b insideB rng
  exact cmp_mayPrecede asked (sortable.printable a insideA) (sortable.near a insideA b insideB)
    (sortable.near b insideB a insideA) rng

/-- The lines of a file, the last of which may lack its newline. -/
def Holds (text : Text) (nodes : List (Node L dataType)) : Prop :=
  text = nodes.flatMap printNode ∨ text = (nodes.flatMap printNode).dropLast

theorem Holds.read {text : Text} {nodes : List (Node L dataType)} (holds : Holds text nodes)
    (printable : ∀ node ∈ nodes, Printable node) :
    readList L dataType text = some ⟨nodes, nodes.length, rfl⟩ := by
  cases holds with
  | inl whole =>
      rw [whole]
      exact readList_printed ⟨nodes, nodes.length, rfl⟩ printable
  | inr unended =>
      rw [unended]
      exact readList_unended ⟨nodes, nodes.length, rfl⟩ printable

/-- `driver_cmd` writes the sorted lines to its output file and changes no other. -/
theorem driverCmd_sorts (place : Text → ι) (bufSize : Nat) {kind : Kind}
    {file sorting text : Text} {disk : Disk ι} (typed : getType file sorting = some kind)
    (asked : kind.sortType ≠ .rand) (held : disk (place file) = some text)
    {nodes : List (Node L kind.dataType)} (sortable : Sortable nodes) (holds : Holds text nodes)
    (seed : L.Random) :
    driverCmd place bufSize file sorting disk seed = some (text, Function.update disk
      (place (outFileName kind)) (some ((sorted kind.sortType nodes).flatMap printNode))) := by
  let session : Session L ι := ⟨disk, [], seed⟩
  have ran : runCommand place bufSize file sorting session = some (text, _) :=
    runCommand_eq typed held (holds.read sortable.printable)
  unfold driverCmd
  rw [ran]
  simp only [Option.bind_eq_bind, Option.bind_some]
  rw [print_alone, printed_eq, sort_sorted_nodes asked sortable]

/-- The data type in the name of a file, as `getType` finds it. -/
def typeOf (file : Text) : Option DataType :=
  (strtok (bytes "_.") file).bind fun first =>
    (strtok (bytes "_.") first.2).bind fun second => dataTypeOf second.1

theorem getType_eq_some {file sorting : Text} {kind : Kind} :
    getType file sorting = some kind ↔ file.length < maxStr ∧
      typeOf file = some kind.dataType ∧ sortTypeOf sorting = some kind.sortType := by
  have room : guard (file.length < maxStr) = some () ↔ file.length < maxStr := by
    unfold guard
    split
    · rename_i short
      exact iff_of_true rfl short
    · rename_i long
      exact iff_of_false nofun long
  simp only [getType, typeOf, Option.bind_eq_bind, Option.bind_eq_some_iff, Option.some.injEq]
  constructor
  · rintro ⟨⟨⟩, short, first, one, second, two, dataType, typed, sortType, chosen, rfl⟩
    exact ⟨room.mp short, ⟨first, one, second, two, typed⟩, chosen⟩
  · rintro ⟨short, ⟨first, one, second, two, typed⟩, chosen⟩
    exact ⟨(), room.mpr short, first, one, second, two, _, typed, _, chosen, rfl⟩

/-- The program takes its output for what it is. -/
theorem typeOf_outFileName (kind : Kind) : (outFileName kind).length < maxStr ∧
    typeOf (outFileName kind) = some kind.dataType := by
  obtain ⟨sortType, dataType⟩ := kind
  cases sortType <;> cases dataType <;> decide +kernel

theorem sorted_iterate (sortType : SortType) (nodes : List (Node L dataType)) (rounds : Nat) :
    (sorted sortType)^[rounds + 1] nodes =
      if rounds % 2 = 0 then sorted sortType nodes
      else nodes.mergeSort (mayPrecede sortType) := by
  have again : sorted sortType (nodes.mergeSort (mayPrecede sortType)) = sorted sortType nodes :=
    mergeSort_reverse_mergeSort (mayPrecede_trans sortType) (mayPrecede_total sortType) nodes
  induction rounds with
  | zero => rfl
  | succ rounds ih =>
      rw [Function.iterate_succ_apply', ih]
      by_cases even : rounds % 2 = 0
      · rw [if_pos even, if_neg (by omega)]
        exact sorted_sorted sortType nodes
      · rw [if_neg even, if_pos (by omega)]
        exact again

/-- The commands that sort a file, and then again and again what came of it. -/
def roundsOf (kind : Kind) (file sorting : Text) (seed : L.Random) (seeds : List L.Random) :
    List (Command L) :=
  ⟨file, sorting, seed⟩ :: seeds.map fun seed => ⟨outFileName kind, sorting, seed⟩

theorem driverCmds_rounds (place : Text → ι) (bufSize : Nat) {kind : Kind} {sorting : Text}
    (asked : kind.sortType ≠ .rand)
    (chosen : sortTypeOf sorting = some kind.sortType) (seeds : List L.Random) {file text : Text}
    {disk : Disk ι} (typed : file.length < maxStr ∧ typeOf file = some kind.dataType)
    (held : disk (place file) = some text) {nodes : List (Node L kind.dataType)}
    (sortable : Sortable nodes) (holds : Holds text nodes) (seed : L.Random) :
    ∃ inputs, driverCmds place bufSize (roundsOf kind file sorting seed seeds) disk =
      some (inputs, Function.update disk (place (outFileName kind))
        (some (((sorted kind.sortType)^[seeds.length + 1] nodes).flatMap printNode))) := by
  induction seeds generalizing file text disk nodes seed with
  | nil =>
      have ran := driverCmd_sorts place bufSize (getType_eq_some.mpr ⟨typed.1, typed.2, chosen⟩)
        asked held sortable holds seed
      refine ⟨[text], ?_⟩
      simp only [roundsOf, List.map_nil, driverCmds, ran, Option.bind_eq_bind, Option.bind_some]
      rfl
  | cons next seeds ih =>
      have ran := driverCmd_sorts place bufSize (getType_eq_some.mpr ⟨typed.1, typed.2, chosen⟩)
        asked held sortable holds seed
      obtain ⟨inputs, rest⟩ := ih (typeOf_outFileName kind) (Function.update_self _ _ disk)
        (sortable.perm (sorted_perm kind.sortType nodes)) (.inl rfl) next
      refine ⟨text :: inputs, ?_⟩
      rw [Function.update_idem] at rest
      change (driverCmd place bufSize file sorting disk seed >>= _) = _
      rw [ran]
      change (driverCmds place bufSize (roundsOf kind (outFileName kind) sorting next seeds) _ >>=
        _) = _
      rw [rest]
      rfl

/-- The program sorts whole files: however often it is run, on a file of lines and then on its own
output, the output file holds the lines of the first file in order, those with equal values turned
around after an odd number of runs and as they were after an even one; no other file changes. -/
theorem driverCmds_sort (place : Text → ι) (bufSize : Nat) {kind : Kind}
    {file sorting text : Text} {disk : Disk ι}
    (typed : getType file sorting = some kind) (asked : kind.sortType ≠ .rand)
    (held : disk (place file) = some text) {nodes : List (Node L kind.dataType)}
    (sortable : Sortable nodes) (holds : Holds text nodes) (seed : L.Random)
    (seeds : List L.Random) :
    ∃ (inputs : List Text) (result : List (Node L kind.dataType)),
      driverCmds place bufSize (roundsOf kind file sorting seed seeds) disk =
        some (inputs, Function.update disk (place (outFileName kind))
          (some (result.flatMap printNode))) ∧
      result.Perm nodes ∧ result.Pairwise (fun a b => mayPrecede kind.sortType a b = true) ∧
      ∀ node, result.filter (tied (mayPrecede kind.sortType) node) =
        if seeds.length % 2 = 0 then (nodes.filter (tied (mayPrecede kind.sortType) node)).reverse
        else nodes.filter (tied (mayPrecede kind.sortType) node) := by
  obtain ⟨short, known, chosen⟩ := getType_eq_some.mp typed
  obtain ⟨inputs, ran⟩ := driverCmds_rounds place bufSize asked chosen seeds ⟨short, known⟩ held
    sortable holds seed
  have trans := @mayPrecede_trans L kind.dataType kind.sortType
  have total := @mayPrecede_total L kind.dataType kind.sortType
  rw [sorted_iterate] at ran
  by_cases odd : seeds.length % 2 = 0
  · rw [if_pos odd] at ran
    refine ⟨inputs, _, ran, sorted_perm kind.sortType nodes, List.pairwise_mergeSort trans total _,
      fun node => ?_⟩
    rw [if_pos odd, sorted, mergeSort_ties trans total, List.filter_reverse]
  · rw [if_neg odd] at ran
    refine ⟨inputs, _, ran, List.mergeSort_perm _ _, List.pairwise_mergeSort trans total _,
      fun node => ?_⟩
    rw [if_neg odd, mergeSort_ties trans total]

/-- Three lines, two of them with the same string, and the last without its newline. -/
def charDisk : Disk Text := fun file =>
  if file = bytes "rand_char.txt" then some (bytes "b=x\na=w\nc=x") else none

def charNodes : List (Node wholeLibc .char) :=
  [⟨bytes "b", bytes "x"⟩, ⟨bytes "a", bytes "w"⟩, ⟨bytes "c", bytes "x"⟩]

theorem charNodes_sortable : Sortable charNodes where
  printable := by
    intro node inside
    rcases List.mem_cons.mp inside with rfl | inside
    · exact ⟨by decide, show Word _ by decide, by decide⟩
    rcases List.mem_cons.mp inside with rfl | inside
    · exact ⟨by decide, show Word _ by decide, by decide⟩
    rw [List.mem_singleton.mp inside]
    exact ⟨by decide, show Word _ by decide, by decide⟩
  near _ _ _ _ := trivial

theorem driverCmds_sort_small :
    ∃ (inputs : List Text) (result : List (Node wholeLibc .char)),
      driverCmds id 4096 (roundsOf (L := wholeLibc) ⟨.inc, .char⟩ (bytes "rand_char.txt")
        (bytes "inc") () [()]) charDisk =
          some (inputs, Function.update charDisk (outFileName ⟨.inc, .char⟩)
            (some (result.flatMap printNode))) ∧
      result.Perm charNodes ∧ result.Pairwise (fun a b => mayPrecede .inc a b = true) ∧
      ∀ node, result.filter (tied (mayPrecede .inc) node) =
        charNodes.filter (tied (mayPrecede .inc) node) := by
  have typed : getType (bytes "rand_char.txt") (bytes "inc") = some ⟨.inc, .char⟩ := by
    decide +kernel
  have held : charDisk (bytes "rand_char.txt") = some (bytes "b=x\na=w\nc=x") := rfl
  have holds : Holds (bytes "b=x\na=w\nc=x") charNodes := .inr (by decide +kernel)
  exact driverCmds_sort id 4096 typed (by decide) held charNodes_sortable holds () [()]

end Ve482.KeyValue
