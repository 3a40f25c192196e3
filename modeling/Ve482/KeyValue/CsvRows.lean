import Ve482.KeyValue.CsvLines

set_option autoImplicit false

namespace Ve482.KeyValue.Csv

open CString

variable {L : Libc}

/-- The line appends exactly one node to each list, that of its cell. -/
def AppendsRow (columns : List (Column L)) (row : List Cell) (raw : Text) : Prop :=
  readRow raw columns = .ok (addRow columns row)

/-- The columns that are read from some lines. -/
def readColumns (columns : List (Column L)) (fin : Text) : Except Fault (List (Column L)) :=
  (readLoop (fin.length + 1) fin ⟨none, 0, columns⟩).map Reading.columns

/-- A line without its newline loses its last cell. -/
theorem rowFrom_unfinished {row : List Cell}
    (plain : ∀ cell ∈ row, Plain cell.key ∧ Plain cell.value) (filled : row ≠ [])
    {before columns : List (Column L)} (width : row.length = columns.length) {fuel start : Nat}
    {buffer : Text} (here : buffer.drop start = (rowLine row).dropLast)
    (enough : row.length < fuel + 1) :
    rowFrom (fuel + 1) buffer start before.length (before ++ columns) =
      .ok (before ++ addRow columns row.dropLast) := by
  induction row generalizing before columns fuel start buffer with
  | nil => exact absurd rfl filled
  | cons cell row ih =>
      have known := plain cell List.mem_cons_self
      cases columns with
      | nil => simp at width
      | cons column columns =>
          cases row with
          | nil =>
              have text : (rowLine [cell]).dropLast = cell.text := List.dropLast_concat
              have string : cstr (buffer.drop start) = cell.text := by
                rw [here, text]
                exact cstr_of_not_mem fun member => (Cell.plain known 0 member).2.2 rfl
              rw [rowFrom_last]
              · rfl
              · intro c member
                rw [string] at member
                exact (Cell.plain known c member).1
          | cons second row =>
              obtain ⟨d, rest, text, ends, visible, -, more⟩ := rowLine_cons cell (second :: row)
              have inside : rest ≠ [] := by
                rw [more (List.cons_ne_nil second row)]
                exact List.ne_nil_of_length_pos (line_length _)
              rw [text, List.dropLast_append_cons, List.dropLast_cons_of_ne_nil inside] at here
              obtain ⟨fuel, rfl⟩ : ∃ left, fuel = left + 1 := ⟨fuel - 1, by simp at enough; omega⟩
              obtain ⟨cut, next, step, back⟩ := rowFrom_cell before columns column known (fuel + 1)
                here ends visible
              have left : cut.drop next = (rowLine (second :: row)).dropLast := by
                rw [back, more (List.cons_ne_nil second row)]
              have others : ∀ other ∈ second :: row, Plain other.key ∧ Plain other.value :=
                fun other inside => plain other (List.mem_cons_of_mem cell inside)
              rw [step, ih others (List.cons_ne_nil second row) (by simpa using width) left
                (by simpa using enough), List.dropLast_cons_cons, addRow, List.append_assoc,
                List.singleton_append]

theorem readRow_unfinished {columns : List (Column L)} {row : List Cell}
    (ofColumns : RowOf columns.length row) (filled : row ≠ []) :
    readRow (rowLine row).dropLast columns = .ok (addRow columns row.dropLast) := by
  obtain ⟨body, text, inside⟩ := ofColumns.body
  have string : cstr (rowLine row).dropLast = (rowLine row).dropLast := by
    rw [text, List.dropLast_concat]
    exact cstr_of_not_mem fun member => (inside 0 member).2 rfl
  have long := rowLine_long row
  have positive := List.length_pos_of_ne_nil filled
  have read : rowFrom ((rowLine row).dropLast.length + 1) (rowLine row).dropLast 0
      ([] : List (Column L)).length ([] ++ columns) = .ok ([] ++ addRow columns row.dropLast) := by
    apply rowFrom_unfinished ofColumns.plain filled ofColumns.width List.drop_zero
    rw [List.length_dropLast]
    omega
  rw [readRow_from, string]
  exact read

/-- How many nodes the lists have. -/
def nodes (columns : List (Column L)) : Nat :=
  (columns.map fun column => column.list.length).sum

theorem nodes_addRow {columns : List (Column L)} {row : List Cell}
    (fits : row.length ≤ columns.length) :
    nodes (addRow columns row) = nodes columns + row.length := by
  induction columns generalizing row with
  | nil =>
      have empty : row = [] := List.eq_nil_of_length_eq_zero (Nat.le_zero.mp fits)
      rw [empty]
      rfl
  | cons column columns ih =>
      cases row with
      | nil => rfl
      | cons cell row =>
          have rest := ih (Nat.le_of_succ_le_succ fits)
          simp only [nodes, addRow, List.map_cons, List.sum_cons, List.length_cons] at rest ⊢
          rw [rest, Column.add, listAdd]
          dsimp only
          omega

/-- Without its last cell a row adds a node less. -/
theorem addRow_unfinished {columns : List (Column L)} {row : List Cell}
    (width : row.length = columns.length) (filled : row ≠ []) :
    addRow columns row.dropLast ≠ addRow columns row := by
  intro same
  have positive := List.length_pos_of_ne_nil filled
  have fewer : nodes (addRow columns row.dropLast) = nodes columns + row.dropLast.length := by
    apply nodes_addRow
    rw [List.length_dropLast]
    omega
  rw [same, nodes_addRow width.le, List.length_dropLast] at fewer
  omega

section

variable {columns : List (Column L)} {rows : List (List Cell)} (present : columns ≠ [])
include present

theorem readColumns_lines (ofColumns : ∀ row ∈ rows, RowOf columns.length row) :
    readColumns columns (rows.flatMap rowLine) = .ok (rows.foldl addRow columns) := by
  have read := readLoop_file present ofColumns (Nat.lt_succ_self _) none 0
  exact congrArg (Except.map Reading.columns) read

/-- The file without its last newline: the last cell is not read. -/
theorem readColumns_unfinished {row : List Cell}
    (ofColumns : ∀ other ∈ rows ++ [row], RowOf columns.length other) :
    readColumns columns ((rows ++ [row]).flatMap rowLine).dropLast =
      .ok (addRow (rows.foldl addRow columns) row.dropLast) := by
  have known := ofColumns row (by simp)
  have others (other : List Cell) (inside : other ∈ rows) : RowOf columns.length other :=
    ofColumns other (List.mem_append_left [row] inside)
  have filled := known.filled present
  obtain ⟨body, line, inside⟩ := known.body
  have rowLong := rowLine_long row
  have positive := List.length_pos_of_ne_nil filled
  have text : ((rows ++ [row]).flatMap rowLine).dropLast = rows.flatMap rowLine ++ body := by
    rw [List.flatMap_append, List.flatMap_singleton, line, ← List.append_assoc,
      List.dropLast_concat]
  have unfinished : (rowLine row).dropLast = body := by rw [line, List.dropLast_concat]
  have fits := known.fits
  rw [line, List.length_append, List.length_singleton] at fits rowLong
  have last : fgets maxStr body = some (body, []) := by
    apply fgets_last
    · exact fun member => (inside newline member).1 rfl
    · omega
    · rintro rfl
      simp at rowLong
      omega
  have long := rows_long rows fun other inside => (others other inside).filled present
  obtain ⟨spare, enough⟩ := Nat.exists_eq_add_of_le long
  have lines := readLoop_lines present rows others body (spare + body.length + 1) 0 none
  have fuel : (rows.flatMap rowLine ++ body).length + 1 =
      spare + body.length + 1 + rows.length := by
    rw [List.length_append]
    omega
  have fits' : RowOf (rows.foldl addRow columns).length row := by
    rw [foldl_addRow_length]
    exact known
  have read := readRow_unfinished fits' filled
  rw [unfinished] at read
  unfold readColumns
  rw [text, fuel]
  change Except.map _ (readLoop (spare + body.length + 1 + rows.length)
    (rows.flatMap rowLine ++ body) ⟨none, ((0 : Nat) : Int), columns⟩) = _
  have started : ((0 + rows.length : Nat) : Int) ≠ -1 := by omega
  rw [lines, readLoop, last]
  simp only [started, if_false, read, bind, Except.bind]
  obtain ⟨more, fuelLeft⟩ : ∃ more, spare + body.length = more + 1 :=
    ⟨spare + body.length - 1, by omega⟩
  rw [fuelLeft, readLoop, fgets_nil]
  rfl

end

/-- A data line appends one node to each list exactly if it ends in a newline. A file and the
same file without its last newline give the same lists exactly if there is no data line. -/
theorem appendsRow_iff (L : Libc) {columns : List (Column L)} (present : columns ≠ []) :
    (∀ row, RowOf columns.length row → ∀ raw, raw = rowLine row ∨ raw = (rowLine row).dropLast →
      (AppendsRow columns row raw ↔ raw.getLast? = some newline)) ∧
    ∀ rows, (∀ row ∈ rows, RowOf columns.length row) →
      (readColumns columns (rows.flatMap rowLine).dropLast =
          readColumns columns (rows.flatMap rowLine) ↔ rows = []) := by
  constructor
  · intro row ofColumns raw isLine
    have filled := ofColumns.filled present
    obtain ⟨body, line, inside⟩ := ofColumns.body
    cases isLine with
    | inl whole =>
        apply iff_of_true
        · rw [whole]
          exact readRow_line ofColumns filled
        · rw [whole, line, List.getLast?_concat]
    | inr unfinished =>
        apply iff_of_false
        · intro appends
          rw [AppendsRow, unfinished, readRow_unfinished ofColumns filled] at appends
          exact addRow_unfinished ofColumns.width filled (Except.ok.inj appends)
        · intro ends
          rw [unfinished, line, List.dropLast_concat] at ends
          exact (inside newline (List.mem_of_getLast? ends)).1 rfl
  · intro rows ofColumns
    constructor
    · intro same
      rcases List.eq_nil_or_concat rows with empty | ⟨before, row, rfl⟩
      · exact empty
      · rw [List.concat_eq_append] at ofColumns same
        have known := ofColumns row (by simp)
        rw [readColumns_unfinished present ofColumns, readColumns_lines present ofColumns,
          List.foldl_append] at same
        have width : row.length = (before.foldl addRow columns).length := by
          rw [foldl_addRow_length]
          exact known.width
        exact absurd (Except.ok.inj same) (addRow_unfinished width (known.filled present))
    · rintro rfl
      rfl

/-- The lists after a header with an integer and a string column. -/
def twoLists : List (Column wholeLibc) :=
  [⟨⟨.inc, .int⟩, listConstructor wholeLibc .int⟩, ⟨⟨.inc, .char⟩, listConstructor wholeLibc .char⟩]

def twoCells : List Cell := [cell "abc" "123", cell "aa" "cat"]

theorem twoCells_rowOf : RowOf twoLists.length twoCells :=
  ⟨rfl, by decide +kernel, by decide +kernel⟩

theorem appendsRow_iff_two :
    (AppendsRow twoLists twoCells (rowLine twoCells) ↔
        (rowLine twoCells).getLast? = some newline) ∧
      (readColumns twoLists ([twoCells].flatMap rowLine).dropLast =
        readColumns twoLists ([twoCells].flatMap rowLine) ↔ [twoCells] = []) := by
  obtain ⟨lines, files⟩ := appendsRow_iff wholeLibc (List.cons_ne_nil _ _)
  exact ⟨lines twoCells twoCells_rowOf _ (Or.inl rfl),
    files [twoCells] (List.forall_mem_singleton.mpr twoCells_rowOf)⟩

theorem last_cell_dropped : RowOf twoLists.length twoCells ∧
    bytes "abc=123,aa=cat\n" = rowLine twoCells ∧
    ¬ AppendsRow twoLists twoCells (bytes "abc=123,aa=cat") := by
  refine ⟨twoCells_rowOf, by decide +kernel, fun appends => ?_⟩
  have added := congrArg (Except.map nodes) appends
  have one : (readRow (bytes "abc=123,aa=cat") twoLists).map nodes = .ok 1 := by decide +kernel
  rw [one] at added
  exact absurd (Except.ok.inj added) (by decide +kernel)

end Ve482.KeyValue.Csv
