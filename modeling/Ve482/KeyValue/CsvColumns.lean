import Ve482.KeyValue.CsvLines

set_option autoImplicit false

namespace Ve482.KeyValue.Csv

open CString

variable {L : Libc}

theorem field_plain (kind : Kind) :
    ∀ c ∈ Field kind, c ∉ bytes ",\n" ∧ c ≠ newline ∧ c ≠ 0 := by
  obtain ⟨sortType, dataType⟩ := kind
  cases sortType <;> cases dataType <;> decide +kernel

theorem field_strings (header : List Kind) :
    ∀ word ∈ header.map Field, ∀ c ∈ word, c ≠ newline ∧ c ≠ 0 := by
  intro word member c inside
  obtain ⟨field, -, rfl⟩ := List.mem_map.mp member
  exact (field_plain field c inside).2

theorem getType_field (kind : Kind) : getType (Field kind) = .ok kind := by
  obtain ⟨sortType, dataType⟩ := kind
  cases sortType <;> cases dataType <;> rfl

theorem readHeader_line (kind : Kind) (others : List Kind) :
    readHeader (L := L) (line ((kind :: others).map Field)) =
      .ok [⟨kind, listConstructor L kind.dataType⟩] := by
  have strings := field_strings (kind :: others)
  obtain ⟨d, rest, text, delim, visible, -⟩ := line_token (Field kind) (others.map Field)
  have here : (cstr (line ((kind :: others).map Field))).drop 0 = Field kind ++ d :: rest := by
    rw [cstr_line strings]
    exact text
  have noNul : 0 ∉ Field kind := fun member => (field_plain kind 0 member).2.2 rfl
  have apart : ∀ c ∈ Field kind, c ∉ bytes ",\n" := fun c member => (field_plain kind c member).1
  obtain ⟨cut, first, front, -⟩ := strsep_token here noNul apart delim visible
  have word : cstr (cut.drop 0) = Field kind := by rw [front, cstr_append rest noNul]
  have second := strsep_last word apart
  obtain ⟨fuel, length⟩ : ∃ fuel, cut.length = fuel + 1 := by
    have filled := congrArg List.length front
    simp only [List.drop_zero, List.length_append, List.length_cons] at filled
    exact ⟨cut.length - 1, by omega⟩
  simp only [readHeader, first, length, headerLoop, reduceCtorEq, if_false, if_true, stringAt, word,
    getType_field, setUp, second, bind, Except.bind]
  rfl

/-- A second cell is put into a column that was never set up. -/
theorem readRow_second (column : Column L) {cell second : Cell} {others : List Cell}
    (plain : ∀ other ∈ cell :: second :: others, Plain other.key ∧ Plain other.value) :
    readRow (rowLine (cell :: second :: others)) [column] = .error .unset := by
  have string : cstr (rowLine (cell :: second :: others)) = rowLine (cell :: second :: others) :=
    cstr_line (row_strings plain)
  obtain ⟨d, rest, text, delim, visible, -, more⟩ := rowLine_cons cell (second :: others)
  obtain ⟨d', rest', text', delim', visible', -⟩ := rowLine_cons second others
  obtain ⟨fuel, length⟩ : ∃ fuel, (rowLine (cell :: second :: others)).length = fuel + 1 :=
    ⟨_, (Nat.succ_pred_eq_of_pos (line_length _)).symm⟩
  have here : (rowLine (cell :: second :: others)).drop 0 = cell.text ++ d :: rest := text
  obtain ⟨cut, next, step, back⟩ := rowFrom_cell [] [] column (plain cell List.mem_cons_self)
    (fuel + 1) here delim visible
  have left : cut.drop next = second.text ++ d' :: rest' := by
    rw [back, more (List.cons_ne_nil second others), text']
  have unset := rowFrom_unset [column.add cell] (plain second (by simp)) fuel left delim' visible'
  rw [readRow_from, string, length]
  exact step.trans unset

/-- Rows of one cell each fill the only column. -/
theorem addRow_singles (kind : Kind) (rows : List (List Cell)) (list : NodeList L kind.dataType)
    (width : ∀ row ∈ rows, row.length = 1) :
    ∃ read : NodeList L kind.dataType,
      read.head = list.head ++ (column rows 0).map (nodeOf L kind.dataType) ∧
      rows.foldl addRow [⟨kind, list⟩] = [⟨kind, read⟩] := by
  induction rows generalizing list with
  | nil => exact ⟨list, by simp [column], rfl⟩
  | cons row rows ih =>
      obtain ⟨cell, rfl⟩ := List.length_eq_one_iff.mp (width row List.mem_cons_self)
      obtain ⟨read, head, rest⟩ := ih (listAdd list (nodeOf L kind.dataType cell))
        fun other inside => width other (List.mem_cons_of_mem _ inside)
      refine ⟨read, ?_, rest⟩
      rw [head]
      simp [listAdd, column]

theorem readLoop_header {kind : Kind} {others : List Kind} (rest : Text) (fuel : Nat)
    (fits : (line ((kind :: others).map Field)).length < maxStr) :
    readLoop (L := L) (fuel + 1) (line ((kind :: others).map Field) ++ rest) ⟨none, -1, []⟩ =
      readLoop fuel rest ⟨some (line ((kind :: others).map Field)), 0,
        [⟨kind, listConstructor L kind.dataType⟩]⟩ := by
  have strings := field_strings (kind :: others)
  rw [readLoop, fgets_csv rest strings fits]
  simp only [if_true, readHeader_line, cstr_line strings, bind, Except.bind]

/-- A node as a cell of the output. -/
def cellOf {dataType : DataType} (node : Node L dataType) : Cell :=
  ⟨node.key, printData node.data⟩

theorem exportRows_single {dataType : DataType} (nodes : List (Node L dataType)) :
    exportRows nodes.length [⟨dataType, nodes⟩] =
      .ok ((nodes.map fun node => [cellOf node]).flatMap rowLine) := by
  induction nodes with
  | nil => rfl
  | cons node nodes ih =>
      rw [List.length_cons, exportRows, exportRow]
      simp only [exportRow, ih, bind, Except.bind, List.length_nil, if_true]
      rw [List.map_cons, List.flatMap_cons]
      have row : node.key ++ bytes "=" ++ printData node.data ++ [] ++ bytes "\n" =
          rowLine [cellOf node] := by
        rw [List.append_nil, List.append_assoc node.key]
        rfl
      rw [row]

/-- While the difference fits an `int`, the comparison has its sign. -/
theorem intInc_sign {a b : Node L .int} (rng : L.Random)
    (low : -2 ^ 31 ≤ a.int.toInt - b.int.toInt) (high : a.int.toInt - b.int.toInt < 2 ^ 31) :
    (intInc a b rng).1 = a.int.toInt - b.int.toInt := by
  rw [intInc, Int32.toInt_sub, Int.bmod_eq_of_le (by omega) (by omega)]

theorem cellOf_strtol (node : Node L .int) : strtol (cellOf node).value = node.int.toInt := by
  have low := node.int.le_toInt
  have high := node.int.toInt_lt
  have value : (cellOf node).value = decimal node.int.toInt := rfl
  rw [value, strtol_decimal (by omega) (by omega)]

theorem charInc_orders (nodes : List (Node L .char)) :
    InsertionSort.Orders charInc (fun a b => AtMost .char (cellOf a) (cellOf b)) nodes := by
  refine ⟨?_, ?_, ?_⟩
  · intro a _ b _ _ (above : 0 ≤ strcmp a.string b.string)
    have swapped := strcmp_swap a.string b.string
    change strcmp b.string a.string ≤ 0
    omega
  · intro a _ b _ _ (below : ¬ 0 ≤ strcmp a.string b.string)
    change strcmp a.string b.string ≤ 0
    omega
  · intro a _ b _ c _ first second
    exact strcmp_trans first second

theorem intInc_orders (nodes : List (Node L .int))
    (small : ∀ a ∈ nodes, ∀ b ∈ nodes, a.int.toInt - b.int.toInt < 2 ^ 31) :
    InsertionSort.Orders intInc (fun a b => AtMost .int (cellOf a) (cellOf b)) nodes := by
  have sign : ∀ a ∈ nodes, ∀ b ∈ nodes, ∀ rng,
      (intInc a b rng).1 = a.int.toInt - b.int.toInt := by
    intro a insideA b insideB rng
    have left := small a insideA b insideB
    have right := small b insideB a insideA
    exact intInc_sign rng (by omega) left
  have atMost : ∀ a b : Node L .int, AtMost .int (cellOf a) (cellOf b) ↔
      a.int.toInt ≤ b.int.toInt := by
    intro a b
    rw [AtMost, cellOf_strtol, cellOf_strtol]
  refine ⟨?_, ?_, ?_⟩
  · intro a insideA b insideB rng above
    rw [sign a insideA b insideB] at above
    exact (atMost b a).mpr (by omega)
  · intro a insideA b insideB rng below
    rw [sign a insideA b insideB] at below
    exact (atMost a b).mpr (by omega)
  · intro a _ b _ c _ first second
    exact (atMost a c).mpr (le_trans ((atMost a b).mp first) ((atMost b c).mp second))

/-- The nodes are compared in the order that the field asks for. -/
theorem cmp_orders {kind : Kind} (asked : kind.sortType ≠ .rand ∧ kind.dataType ≠ .double)
    (nodes : List (Node L kind.dataType))
    (small : kind.dataType = .int → ∀ a ∈ nodes, ∀ b ∈ nodes,
      strtol (cellOf a).value - strtol (cellOf b).value < 2 ^ 31) :
    InsertionSort.Orders (cmp kind.dataType kind.sortType)
      (fun a b => Ordered kind (cellOf a) (cellOf b)) nodes := by
  obtain ⟨sortType, dataType⟩ := kind
  obtain ⟨notRand, notDouble⟩ := asked
  cases dataType with
  | double => exact absurd rfl notDouble
  | char =>
      cases sortType with
      | rand => exact absurd rfl notRand
      | inc => exact charInc_orders nodes
      | dec => exact (charInc_orders nodes).swap
  | int =>
      have ints := intInc_orders nodes fun a insideA b insideB => by
        have fits := small rfl a insideA b insideB
        rwa [cellOf_strtol, cellOf_strtol] at fits
      cases sortType with
      | rand => exact absurd rfl notRand
      | inc => exact ints
      | dec => exact ints.swap

theorem cellOf_nodeOf {dataType : DataType} (supported : dataType ≠ .double) {cell : Cell}
    (range : dataType = .int → IntText cell.value) :
    cellOf (nodeOf L dataType cell) = cell.canonical dataType := by
  cases dataType with
  | char => rfl
  | double => exact absurd rfl supported
  | int =>
      obtain ⟨low, high⟩ := (range rfl).2
      have value : (atoi cell.value).toInt = strtol cell.value :=
        Int32.toInt_ofInt_of_le low high
      change (⟨cell.key, decimal (atoi cell.value).toInt⟩ : Cell) = _
      rw [value]
      rfl

theorem column_singles {α : Type} (items : List α) (make : α → Cell) :
    column (items.map fun item => [make item]) 0 = items.map make := by
  induction items with
  | nil => rfl
  | cons item items ih => simp [column]

theorem column_length {rows : List (List Cell)} {i width : Nat} (inside : i < width)
    (wide : ∀ row ∈ rows, row.length = width) : (column rows i).length = rows.length := by
  induction rows with
  | nil => rfl
  | cons row rows ih =>
      have long : i < row.length := (wide row List.mem_cons_self).symm ▸ inside
      have here : row[i]? = some row[i] := List.getElem?_eq_getElem long
      rw [column, List.filterMap_cons_some (f := fun row => row[i]?) here, List.length_cons,
        List.length_cons, ← ih fun other member => wide other (List.mem_cons_of_mem _ member)]
      rfl

/-- The run after the header, on whatever rows. -/
theorem uiCmd_header {table : Table} {kind : Kind} {others : List Kind}
    (wellformed : Wellformed table) (header : table.header = kind :: others) (rng : L.Random) :
    ∃ fuel, (table.rows.flatMap rowLine).length < fuel ∧
      uiCmd L table.text rng = (do
        let reading ← readLoop fuel (table.rows.flatMap rowLine)
          ⟨some table.headerLine, 0, [⟨kind, listConstructor L kind.dataType⟩]⟩
        let columns := sortColumns reading.columns rng
        match reading.first with
        | none => .error .unset
        | some first => do
            let rows ← exportRows reading.lineCnt.toNat
              (columns.map fun column => ⟨column.kind.dataType, column.list.head⟩)
            .ok ⟨columns.length, reading.lineCnt, first ++ rows⟩) := by
  have fits := wellformed.fits.1
  have length := line_length (table.header.map Field)
  rw [Table.headerLine, header] at fits
  have step := readLoop_header (L := L) (table.rows.flatMap rowLine) table.text.length fits
  rw [← header] at step
  refine ⟨table.text.length, ?_, ?_⟩
  · rw [Table.text, List.length_append, Table.headerLine]
    omega
  · rw [uiCmd]
    conv_lhs => rw [show readLoop (L := L) (table.text.length + 1) table.text ⟨none, -1, []⟩ = _
      from step]
    rfl

theorem sorts_single {table : Table} {kind : Kind} (wellformed : Wellformed table)
    (header : table.header = [kind]) (rng : L.Random) : SortsColumns L table rng := by
  have asked := wellformed.kinds kind (by rw [header]; exact List.mem_singleton.mpr rfl)
  have width : ∀ row ∈ table.rows, row.length = 1 := by
    intro row member
    rw [wellformed.width row member, header]
    rfl
  have ints : kind.dataType = .int → ∀ a ∈ column table.rows 0, IntText a.value ∧
      ∀ b ∈ column table.rows 0, strtol a.value - strtol b.value < 2 ^ 31 := by
    intro int
    exact wellformed.ints 0 (by rw [header]; exact Nat.one_pos) (by simpa [header] using int)
  obtain ⟨fuel, enough, run⟩ := uiCmd_header wellformed header rng
  obtain ⟨read, head, filled⟩ := addRow_singles kind table.rows (listConstructor L kind.dataType)
    width
  have ofColumns : ∀ row ∈ table.rows, RowOf 1 row := fun row member =>
    ⟨width row member, wellformed.cells row member, wellformed.fits.2 row member⟩
  have one : [⟨kind, listConstructor L kind.dataType⟩] ≠ ([] : List (Column L)) := nofun
  have rows := readLoop_file one ofColumns enough (some table.headerLine) 0
  rw [filled] at rows
  have nodes : read.head = (column table.rows 0).map (nodeOf L kind.dataType) := head
  have canonical : read.head.map cellOf =
      (column table.rows 0).map (Cell.canonical kind.dataType) := by
    rw [nodes, List.map_map]
    exact List.map_congr_left fun cell member =>
      cellOf_nodeOf asked.2 fun int => (ints int cell member).1
  -- what the column holds after `sort`
  have sortedHead := sort_head kind.sortType read rng
  have perm := InsertionSort.sort_perm (cmp kind.dataType kind.sortType) read.head rng
  have small : kind.dataType = .int → ∀ a ∈ read.head, ∀ b ∈ read.head,
      strtol (cellOf a).value - strtol (cellOf b).value < 2 ^ 31 := by
    intro int a insideA b insideB
    have cells : ∀ node ∈ read.head, ∃ cell ∈ column table.rows 0,
        strtol (cellOf node).value = strtol cell.value := by
      intro node member
      rw [nodes] at member
      obtain ⟨cell, known, rfl⟩ := List.mem_map.mp member
      refine ⟨cell, known, ?_⟩
      have range := (ints int cell known).1.2
      rw [cellOf_nodeOf asked.2 fun int => (ints int cell known).1, int]
      exact strtol_decimal (by omega) (by omega)
    obtain ⟨cellA, knownA, valueA⟩ := cells a insideA
    obtain ⟨cellB, knownB, valueB⟩ := cells b insideB
    rw [valueA, valueB]
    exact (ints int cellA knownA).2 cellB knownB
  have order := InsertionSort.sort_sorted (cmp_orders asked read.head small) rng
  rw [← sortedHead] at perm order
  have lengths : (sort kind.sortType read rng).1.head.length = table.rows.length := by
    rw [perm.length_eq, nodes, List.length_map, column_length Nat.one_pos width]
  refine ⟨(sort kind.sortType read rng).1.head.map fun node => [cellOf node], ?_, ?_, ?_, ?_⟩
  · have exported := exportRows_single (sort kind.sortType read rng).1.head
    rw [lengths] at exported
    rw [run, show (0 : Int) = ((0 : Nat) : Int) from rfl, rows]
    simp only [bind, Except.bind, sortColumns, List.map_cons, List.map_nil, Int.toNat_natCast,
      Nat.zero_add, exported]
    rw [Table.text, Table.headerLine, Table.headerLine, header]
    rfl
  · rw [List.length_map, lengths]
  · intro row member
    obtain ⟨node, -, rfl⟩ := List.mem_map.mp member
    rw [header]
    rfl
  · intro i inside
    have first : i = 0 := by
      rw [header, List.length_singleton] at inside
      omega
    subst first
    have here : table.header[0] = kind := by simp [header]
    rw [here, column_singles, ← canonical]
    exact ⟨perm.map cellOf, List.pairwise_map.mpr order⟩

/-- With two fields or more the plugin sets up one column, and the first row is one cell too
many for it. -/
theorem sorts_none {table : Table} {kind next : Kind} {others : List Kind}
    (wellformed : Wellformed table) (header : table.header = kind :: next :: others)
    (rng : L.Random) : ¬ SortsColumns L table rng := by
  rintro ⟨sorted, run, -⟩
  obtain ⟨fuel, enough, ran⟩ := uiCmd_header (L := L) wellformed header rng
  rw [ran] at run
  cases fuel with
  | zero => omega
  | succ fuel =>
      rcases rows : table.rows with _ | ⟨row, rest⟩
      · rw [rows, List.flatMap_nil, readLoop, fgets_nil] at run
        simp only [bind, Except.bind, sortColumns, List.map_cons, List.map_nil, Int.toNat_zero,
          exportRows, Except.ok.injEq, Output.mk.injEq] at run
        have count : 1 = table.header.length := run.1
        rw [header] at count
        simp at count
      · have member : row ∈ table.rows := by rw [rows]; exact List.mem_cons_self
        have plain := wellformed.cells row member
        have read := fgets_csv (rest.flatMap rowLine) (row_strings plain)
          (wellformed.fits.2 row member)
        obtain ⟨cell, second, more, rfl⟩ : ∃ cell second more, row = cell :: second :: more := by
          have width := wellformed.width row member
          rw [header] at width
          rcases row with _ | ⟨cell, _ | ⟨second, more⟩⟩
          · simp at width
          · simp at width
          · exact ⟨cell, second, more, rfl⟩
        rw [rows, List.flatMap_cons, rowLine, readLoop, read] at run
        simp only [show (0 : Int) ≠ -1 by decide, if_false] at run
        rw [← rowLine, readRow_second _ plain] at run
        cases run

/-- The plugin sorts a csv text column by column exactly when there is one column. -/
theorem sorts_columns_iff (L : Libc) (table : Table) (rng : L.Random)
    (wellformed : Wellformed table) :
    SortsColumns L table rng ↔ table.header.length = 1 := by
  rcases header : table.header with _ | ⟨kind, _ | ⟨next, others⟩⟩
  · have one := wellformed.columns.1
    rw [header] at one
    simp at one
  · exact iff_of_true (sorts_single wellformed header rng) rfl
  · exact iff_of_false (sorts_none wellformed header rng) (by simp)

/-- One column of integers, two of which are written with a sign. -/
def oneColumn : Table :=
  ⟨[⟨.inc, .int⟩], [[cell "a" "10"], [cell "b" "-2"], [cell "c" "+3"]]⟩

theorem oneColumn_wellformed : Wellformed oneColumn where
  columns := by decide
  kinds := by decide
  width := by decide
  cells := by decide +kernel
  ints := by decide +kernel
  fits := by decide +kernel

theorem sorts_columns_small : SortsColumns wholeLibc oneColumn () ↔ oneColumn.header.length = 1 :=
  sorts_columns_iff wholeLibc oneColumn () oneColumn_wellformed

/-- Two columns and a row of the sample file. -/
def twoColumns : Table := ⟨[⟨.inc, .int⟩, ⟨.inc, .char⟩], [[cell "abc" "123", cell "aa" "cat"]]⟩

theorem twoColumns_wellformed : Wellformed twoColumns where
  columns := by decide
  kinds := by decide
  width := by decide
  cells := by decide +kernel
  ints := by decide +kernel
  fits := by decide +kernel

theorem second_column_unset : Wellformed twoColumns ∧ ¬ SortsColumns wholeLibc twoColumns () := by
  refine ⟨twoColumns_wellformed, ?_⟩
  rintro ⟨rows, run, -⟩
  have stops : uiCmd wholeLibc twoColumns.text () = .error .unset := by decide +kernel
  rw [stops] at run
  cases run

end Ve482.KeyValue.Csv
