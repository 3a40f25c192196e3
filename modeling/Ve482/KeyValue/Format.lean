import Ve482.KeyValue.Sort

set_option autoImplicit false

namespace Ve482.KeyValue

open CString

variable {L : Libc} {dataType : DataType}

/-- `MAX_STR`, which is also `MAX_KEY`. -/
def maxStr : Nat := 1024

def equals : UInt8 := 61

/-- `%s`, `%d` or `%lf` -/
def printData : {dataType : DataType} → Data L dataType → Text
  | .char, text => text
  | .int, value => decimal (Int32.toInt value)
  | .double, value => L.lf value

def printNode (node : Node L dataType) : Text :=
  node.key ++ bytes "=" ++ printData node.data ++ bytes "\n"

/-- What `print` writes to the file it opens. -/
def printed (list : NodeList L dataType) : Text :=
  if list.length = 0 then [] else list.head.flatMap printNode

/-- `atoi`, `atof` or a copy. -/
def readData (L : Libc) : (dataType : DataType) → Text → Data L dataType
  | .char, text => text
  | .int, text => atoi text
  | .double, text => L.atof text

/-- One turn of the loop, up to `insert`; a token that is NULL ends the program. -/
def readLine (L : Libc) (dataType : DataType) (raw : Text) : Option (Text × Data L dataType) := do
  let (tmpKey, rest) ← strtok (bytes "=") (cstr raw)
  let (tmpData, _) ← strtok (bytes " \n") rest
  some (tmpKey, readData L dataType tmpData)

/-- `while (fgets(raw, MAX_STR, fin) != NULL)` in `ui_cmd` and in `driver`. -/
def readLoop : Nat → Text → NodeList L dataType → Option (NodeList L dataType)
  | 0, _, _ => none
  | fuel + 1, fin, list =>
      match fgets maxStr fin with
      | none => some list
      | some (raw, fin) => do
          let (key, data) ← readLine L dataType raw
          readLoop fuel fin (insert list key data)

/-- The list that the loop makes of a file. -/
def readList (L : Libc) (dataType : DataType) (file : Text) : Option (NodeList L dataType) :=
  readLoop (file.length + 1) file (listConstructor L dataType)

/-- Every turn reads something, so the loop ends. -/
theorem readLoop_fuel {fuel enough : Nat} (fin : Text) (list : NodeList L dataType)
    (first : fin.length < fuel) (second : fin.length < enough) :
    readLoop fuel fin list = readLoop enough fin list := by
  induction fuel generalizing enough fin list with
  | zero => omega
  | succ fuel ih =>
      cases enough with
      | zero => omega
      | succ enough =>
          rw [readLoop, readLoop]
          cases read : fgets maxStr fin with
          | none => rfl
          | some next =>
              obtain ⟨raw, rest⟩ := next
              have shorter := fgets_shorter (by decide) read
              simp only
              congr 1
              funext node
              exact ih rest _ (by omega) (by omega)

structure KeyText (key : Text) : Prop where
  filled : key ≠ []
  plain : ∀ c ∈ key, c ≠ equals ∧ c ≠ newline ∧ c ≠ 0

structure Word (value : Text) : Prop where
  filled : value ≠ []
  plain : ∀ c ∈ value, c ≠ blank ∧ c ≠ newline ∧ c ≠ 0

instance (key : Text) : Decidable (KeyText key) :=
  decidable_of_iff (key ≠ [] ∧ key.all fun c => c ≠ equals ∧ c ≠ newline ∧ c ≠ 0)
    ⟨fun ⟨filled, plain⟩ => ⟨filled, by simpa using plain⟩,
      fun ⟨filled, plain⟩ => ⟨filled, by simpa using plain⟩⟩

instance (value : Text) : Decidable (Word value) :=
  decidable_of_iff (value ≠ [] ∧ value.all fun c => c ≠ blank ∧ c ≠ newline ∧ c ≠ 0)
    ⟨fun ⟨filled, plain⟩ => ⟨filled, by simpa using plain⟩,
      fun ⟨filled, plain⟩ => ⟨filled, by simpa using plain⟩⟩

def Storable : (dataType : DataType) → Data L dataType → Prop
  | .char, text => Word text
  | .int, _ => True
  | .double, _ => False

structure Printable (node : Node L dataType) : Prop where
  key : KeyText node.key
  data : Storable dataType node.data
  fits : (printNode node).length < maxStr

def ValueText : DataType → Text → Prop
  | .char => Word
  | .int => CanonicalInt
  | .double => fun _ => False

/-- A line as `print` writes it. -/
def DataLine (dataType : DataType) (line : Text) : Prop :=
  ∃ key value, KeyText key ∧ ValueText dataType value ∧ line = key ++ equals :: value ++ [newline] ∧
    line.length < maxStr

theorem decimal_word (value : Int) : Word (decimal value) := by
  refine ⟨decimal_ne_nil value, ?_⟩
  intro c inside
  rcases decimal_chars value c inside with rfl | numeric
  · decide
  · refine ⟨?_, ?_, ?_⟩ <;> (rintro rfl; exact absurd numeric (by decide))

theorem Storable.word {data : Data L dataType} (storable : Storable dataType data) :
    Word (printData data) := by
  cases dataType with
  | char => exact storable
  | int => exact decimal_word _
  | double => exact storable.elim

theorem Storable.read {data : Data L dataType} (storable : Storable dataType data) :
    readData L dataType (printData data) = data := by
  cases dataType with
  | char => rfl
  | int => exact atoi_decimal data
  | double => exact storable.elim

theorem printNode_eq (node : Node L dataType) :
    printNode node = node.key ++ equals :: printData node.data ++ [newline] := by
  rw [printNode, List.append_assoc node.key]
  rfl

theorem KeyText.token {key : Text} (keyText : KeyText key) (rest : Text) :
    strtok (bytes "=") (key ++ equals :: rest) = some (key, rest) := by
  apply strtok_token rest keyText.filled
  · intro c inside delim
    exact (keyText.plain c inside).1 (List.mem_singleton.mp delim)
  · decide

theorem Word.not_delim {value : Text} (word : Word value) :
    ∀ c ∈ value, c ∉ bytes " \n" := by
  intro c inside delim
  obtain ⟨notBlank, notNewline, -⟩ := word.plain c inside
  rcases List.mem_cons.mp delim with same | delim
  · exact notBlank same
  · exact notNewline (List.mem_singleton.mp delim)

theorem joined_plain {first second : Text} {separator : UInt8}
    (left : ∀ c ∈ first, c ≠ newline ∧ c ≠ 0) (between : separator ≠ newline ∧ separator ≠ 0)
    (right : ∀ c ∈ second, c ≠ newline ∧ c ≠ 0) :
    newline ∉ first ++ separator :: second ∧ 0 ∉ first ++ separator :: second := by
  have plain : ∀ c ∈ first ++ separator :: second, c ≠ newline ∧ c ≠ 0 := by
    intro c inside
    rcases List.mem_append.mp inside with inside | inside
    · exact left c inside
    · rcases List.mem_cons.mp inside with rfl | inside
      · exact between
      · exact right c inside
  exact ⟨fun inside => (plain _ inside).1 rfl, fun inside => (plain _ inside).2 rfl⟩

theorem line_plain {key value : Text} (keyText : KeyText key) (word : Word value) :
    newline ∉ key ++ equals :: value ∧ 0 ∉ key ++ equals :: value :=
  joined_plain (fun c inside => (keyText.plain c inside).2) (by decide)
    (fun c inside => (word.plain c inside).2)

theorem readLine_line {key value : Text} (keyText : KeyText key) (word : Word value) :
    readLine L dataType (key ++ equals :: value ++ [newline]) =
      some (key, readData L dataType value) := by
  have whole : cstr (key ++ equals :: value ++ [newline]) = key ++ equals :: value ++ [newline] :=
    cstr_of_not_mem fun inside => by
      rcases List.mem_append.mp inside with inside | inside
      · exact (line_plain keyText word).2 inside
      · exact absurd (List.mem_singleton.mp inside) (by decide)
  have first : strtok (bytes "=") (key ++ equals :: value ++ [newline]) =
      some (key, value ++ [newline]) := by
    rw [List.append_assoc]
    exact keyText.token (value ++ [newline])
  have second : strtok (bytes " \n") (value ++ [newline]) = some (value, []) :=
    strtok_token [] word.filled word.not_delim (by decide)
  simp only [readLine, whole, first, second, Option.bind_eq_bind, Option.bind_some]

theorem readLine_last {key value : Text} (keyText : KeyText key) (word : Word value) :
    readLine L dataType (key ++ equals :: value) = some (key, readData L dataType value) := by
  have second : strtok (bytes " \n") value = some (value, []) :=
    strtok_last word.filled word.not_delim
  simp [readLine, cstr_of_not_mem (line_plain keyText word).2, keyText.token value, second]

/-- The loop takes the lines of the nodes one by one and appends the nodes. -/
theorem readLoop_lines (nodes : List (Node L dataType)) (rest : Text) (list : NodeList L dataType)
    (fuel : Nat) (enough : (nodes.flatMap printNode ++ rest).length < fuel)
    (printable : ∀ node ∈ nodes, Printable node) :
    ∃ read : NodeList L dataType, read.head = list.head ++ nodes ∧
      readLoop fuel (nodes.flatMap printNode ++ rest) list =
        readLoop (rest.length + 1) rest read := by
  induction nodes generalizing list fuel with
  | nil =>
      refine ⟨list, (List.append_nil _).symm, ?_⟩
      exact readLoop_fuel rest list enough (Nat.lt_succ_self _)
  | cons node nodes ih =>
      obtain ⟨keyText, storable, fits⟩ := printable node List.mem_cons_self
      have text : (node :: nodes).flatMap printNode ++ rest =
          (node.key ++ equals :: printData node.data) ++
            newline :: (nodes.flatMap printNode ++ rest) := by
        rw [List.flatMap_cons, printNode_eq]
        simp
      have length := congrArg List.length (printNode_eq node)
      simp only [List.length_append, List.length_cons, List.length_nil] at length
      have line : fgets maxStr ((node :: nodes).flatMap printNode ++ rest) =
          some (node.key ++ equals :: printData node.data ++ [newline],
            nodes.flatMap printNode ++ rest) := by
        rw [text]
        refine fgets_line _ (line_plain keyText storable.word).1 ?_
        simp only [List.length_append, List.length_cons]
        omega
      cases fuel with
      | zero => omega
      | succ fuel =>
          have shorter := fgets_shorter (by decide) line
          obtain ⟨read, head, same⟩ := ih (insert list node.key node.data) fuel (by omega)
            (fun other inside => printable other (List.mem_cons_of_mem _ inside))
          refine ⟨read, ?_, ?_⟩
          · rw [head, insert_head, List.append_assoc]
            rfl
          · rw [readLoop, line]
            simp only [readLine_line keyText storable.word, storable.read]
            exact same

theorem readList_printed (list : NodeList L dataType)
    (printable : ∀ node ∈ list.head, Printable node) :
    readList L dataType (list.head.flatMap printNode) = some list := by
  obtain ⟨read, head, same⟩ := readLoop_lines list.head [] (listConstructor L dataType) _
    (Nat.lt_succ_self _) printable
  rw [List.append_nil] at same
  rw [readList, same]
  exact congrArg some (NodeList.ext_head head)

theorem readList_unended (list : NodeList L dataType)
    (printable : ∀ node ∈ list.head, Printable node) :
    readList L dataType (list.head.flatMap printNode).dropLast = some list := by
  rcases List.eq_nil_or_concat list.head with none | ⟨init, last, nodes⟩
  · have empty : listConstructor L dataType = list := NodeList.ext_head none.symm
    rw [none, ← empty]
    rfl
  rw [nodes, List.concat_eq_append] at printable ⊢
  obtain ⟨keyText, storable, fits⟩ := printable last (by simp)
  have length := congrArg List.length (printNode_eq last)
  simp only [List.length_append, List.length_cons, List.length_nil] at length
  have text : ((init ++ [last]).flatMap printNode).dropLast =
      init.flatMap printNode ++ (last.key ++ equals :: printData last.data) := by
    rw [List.flatMap_append, List.flatMap_singleton, printNode_eq, ← List.append_assoc,
      List.dropLast_concat]
  obtain ⟨read, head, same⟩ := readLoop_lines init (last.key ++ equals :: printData last.data)
    (listConstructor L dataType) _ (Nat.lt_succ_self _)
    (fun node inside => printable node (List.mem_append_left _ inside))
  have line : fgets maxStr (last.key ++ equals :: printData last.data) =
      some (last.key ++ equals :: printData last.data, []) := by
    refine fgets_last (line_plain keyText storable.word).1 ?_ (by simp)
    simp only [List.length_append, List.length_cons]
    omega
  rw [text, readList, same, readLoop, line]
  simp only [readLine_last keyText storable.word, storable.read]
  have filled : last.key ++ equals :: printData last.data ≠ [] := by simp
  obtain ⟨size, size_eq⟩ := Nat.exists_eq_succ_of_ne_zero (List.length_pos_iff.mpr filled).ne'
  rw [size_eq]
  refine congrArg some (NodeList.ext_head ?_)
  rw [insert_head, head, nodes, List.concat_eq_append]
  rfl

theorem DataLine.node {line : Text} (dataLine : DataLine dataType line) :
    ∃ node : Node L dataType, Printable node ∧ printNode node = line := by
  obtain ⟨key, value, keyText, valueText, text, fits⟩ := dataLine
  cases dataType with
  | char =>
      have print : printNode (⟨key, value⟩ : Node L .char) = line := by
        rw [printNode_eq, text]
        rfl
      exact ⟨⟨key, value⟩, ⟨keyText, valueText, print ▸ fits⟩, print⟩
  | int =>
      obtain ⟨number, rfl⟩ := valueText.eq_decimal
      have print : printNode (⟨key, number⟩ : Node L .int) = line := by
        rw [printNode_eq, text]
        rfl
      exact ⟨⟨key, number⟩, ⟨keyText, trivial, print ▸ fits⟩, print⟩
  | double => exact valueText.elim

theorem DataLine.nodes {lines : List Text} (dataLines : ∀ line ∈ lines, DataLine dataType line) :
    ∃ list : NodeList L dataType, (∀ node ∈ list.head, Printable node) ∧
      list.head.flatMap printNode = lines.flatten := by
  induction lines with
  | nil => exact ⟨listConstructor L dataType, by simp [listConstructor], rfl⟩
  | cons line lines ih =>
      obtain ⟨node, printable, print⟩ := (dataLines line List.mem_cons_self).node (L := L)
      obtain ⟨list, others, prints⟩ := ih fun other inside =>
        dataLines other (List.mem_cons_of_mem _ inside)
      refine ⟨⟨node :: list.head, _, rfl⟩, ?_, ?_⟩
      · intro other inside
        rcases List.mem_cons.mp inside with rfl | inside
        · exact printable
        · exact others other inside
      · rw [List.flatMap_cons, List.flatten_cons, print, prints]

theorem printed_eq (list : NodeList L dataType) : printed list = list.head.flatMap printNode := by
  rw [printed]
  by_cases empty : list.length = 0
  · rw [if_pos empty, List.length_eq_zero_iff.mp (list.counted.trans empty)]
    rfl
  · rw [if_neg empty]

/-- The loop reads back the nodes that `print` wrote, with or without the last newline, and
`print` writes back the lines that the loop read. -/
theorem text_round_trips (L : Libc) (dataType : DataType) :
    (∀ list : NodeList L dataType, (∀ node ∈ list.head, Printable node) →
      readList L dataType (printed list) = some list ∧
        readList L dataType (printed list).dropLast = some list) ∧
    ∀ lines : List Text, (∀ line ∈ lines, DataLine dataType line) →
      (readList L dataType lines.flatten).map printed = some lines.flatten := by
  refine ⟨?_, ?_⟩
  · intro list printable
    rw [printed_eq]
    exact ⟨readList_printed list printable, readList_unended list printable⟩
  · intro lines dataLines
    obtain ⟨list, printable, prints⟩ := DataLine.nodes (L := L) dataLines
    rw [← prints, readList_printed list printable, Option.map_some, printed_eq]

/-- A library whose doubles are whole numbers and whose random numbers are all zero. -/
def wholeLibc : Libc where
  Double := Int
  atof := strtol
  lf value := decimal value ++ bytes ".000000"
  difference a b := a - b
  Random := Unit
  rand _ := (0, ())

/-- A list of one node, whose key holds a blank. -/
def smallList : NodeList wholeLibc .int := ⟨[⟨bytes "a b", (-7 : Int32)⟩], 1, rfl⟩

theorem smallList_printable : ∀ node ∈ smallList.head, Printable node := by
  intro node inside
  rw [List.mem_singleton.mp inside]
  exact ⟨by decide, trivial, by decide⟩

theorem text_round_trips_small :
    (readList wholeLibc .int (printed smallList) = some smallList ∧
      readList wholeLibc .int (printed smallList).dropLast = some smallList) ∧
    (readList wholeLibc .int [bytes "a b=-7\n"].flatten).map printed =
      some [bytes "a b=-7\n"].flatten := by
  refine ⟨(text_round_trips wholeLibc .int).1 smallList smallList_printable,
    (text_round_trips wholeLibc .int).2 [bytes "a b=-7\n"] ?_⟩
  intro line inside
  rw [List.mem_singleton.mp inside]
  have value : CanonicalInt (bytes "-7") := by decide +kernel
  exact ⟨bytes "a b", bytes "-7", by decide, value, by decide, by decide⟩

end Ve482.KeyValue
