import Ve482.KeyValue.Csv

set_option autoImplicit false

namespace Ve482.KeyValue.Csv

open CString

variable {L : Libc}

/-- What follows a word in a line is a delimiter. -/
theorem line_token (word : Text) (words : List Text) :
    ∃ d rest, line (word :: words) = word ++ d :: rest ∧ d ∈ bytes ",\n" ∧ d ≠ 0 ∧
      (words = [] → rest = []) ∧ (words ≠ [] → rest = line words) := by
  cases words with
  | nil => exact ⟨newline, [], rfl, by decide, by decide, fun _ => rfl, nofun⟩
  | cons next words =>
      refine ⟨44, line (next :: words), ?_, by decide, by decide, nofun, fun _ => rfl⟩
      rw [line, List.append_assoc]
      · rfl
      · exact nofun

/-- A line is its body and a newline, and the body has neither newline nor NUL. -/
theorem line_body {words : List Text}
    (plain : ∀ word ∈ words, ∀ c ∈ word, c ≠ newline ∧ c ≠ 0) :
    ∃ body, line words = body ++ [newline] ∧ ∀ c ∈ body, c ≠ newline ∧ c ≠ 0 := by
  induction words with
  | nil => exact ⟨[], rfl, by simp⟩
  | cons word words ih =>
      have first := plain word List.mem_cons_self
      obtain ⟨body, text, inside⟩ := ih fun other member =>
        plain other (List.mem_cons_of_mem _ member)
      cases words with
      | nil => exact ⟨word, rfl, first⟩
      | cons next words =>
          refine ⟨word ++ bytes "," ++ body, ?_, ?_⟩
          · rw [line, text, List.append_assoc _ body]
            exact nofun
          · intro c member
            rcases List.mem_append.mp member with member | member
            · rcases List.mem_append.mp member with member | member
              · exact first c member
              · rw [List.mem_singleton.mp member]
                decide
            · exact inside c member

theorem cstr_line {words : List Text}
    (plain : ∀ word ∈ words, ∀ c ∈ word, c ≠ newline ∧ c ≠ 0) :
    cstr (line words) = line words := by
  obtain ⟨body, text, inside⟩ := line_body plain
  refine cstr_of_not_mem fun member => ?_
  rw [text] at member
  rcases List.mem_append.mp member with member | member
  · exact (inside _ member).2 rfl
  · exact absurd (List.mem_singleton.mp member) (by decide)

theorem fgets_csv {words : List Text} (rest : Text)
    (plain : ∀ word ∈ words, ∀ c ∈ word, c ≠ newline ∧ c ≠ 0)
    (fits : (line words).length < maxStr) :
    fgets maxStr (line words ++ rest) = some (line words, rest) := by
  obtain ⟨body, text, inside⟩ := line_body plain
  rw [text, List.length_append] at fits
  rw [text, List.append_assoc]
  exact fgets_line rest (fun member => (inside _ member).1 rfl) fits

theorem line_length (words : List Text) : 0 < (line words).length := by
  cases words with
  | nil => exact Nat.one_pos
  | cons word words =>
      obtain ⟨d, rest, text, -⟩ := line_token word words
      rw [text, List.length_append, List.length_cons]
      omega

theorem Plain.not_delim {text : Text} (plain : Plain text) :
    ∀ c ∈ text, c ∉ bytes ",\n" ∧ c ≠ newline ∧ c ≠ 0 := by
  intro c member
  obtain ⟨-, apart, visible⟩ := plain.plain c member
  refine ⟨fun delim => apart ?_, fun same => apart (same ▸ by decide), visible⟩
  rcases List.mem_cons.mp delim with rfl | delim
  · decide
  · rw [List.mem_singleton.mp delim]
    decide

theorem Plain.key {text : Text} (plain : Plain text) : KeyText text :=
  ⟨plain.filled, fun c member => ⟨(plain.plain c member).1, (plain.not_delim c member).2⟩⟩

theorem Plain.word {text : Text} (plain : Plain text) : Word text := by
  refine ⟨plain.filled, fun c member => ⟨?_, (plain.not_delim c member).2⟩⟩
  intro same
  exact (plain.plain c member).2.1 (same ▸ by decide)

theorem Cell.plain {cell : Cell} (plain : Plain cell.key ∧ Plain cell.value) :
    ∀ c ∈ cell.text, c ∉ bytes ",\n" ∧ c ≠ newline ∧ c ≠ 0 := by
  intro c member
  rcases List.mem_append.mp member with member | member
  · exact plain.1.not_delim c member
  · rcases List.mem_cons.mp member with rfl | member
    · decide
    · exact plain.2.not_delim c member

theorem row_strings {row : List Cell} (plain : ∀ cell ∈ row, Plain cell.key ∧ Plain cell.value) :
    ∀ word ∈ row.map Cell.text, ∀ c ∈ word, c ≠ newline ∧ c ≠ 0 := by
  intro word member c inside
  obtain ⟨cell, known, rfl⟩ := List.mem_map.mp member
  exact (Cell.plain (plain cell known) c inside).2

/-- The node that the plugin makes of a cell. -/
def nodeOf (L : Libc) (dataType : DataType) (cell : Cell) : Node L dataType :=
  ⟨cell.key, readData L dataType cell.value⟩

/-- One node more at the end of the list. -/
def Column.add (column : Column L) (cell : Cell) : Column L :=
  ⟨column.kind, listAdd column.list (nodeOf L column.kind.dataType cell)⟩

/-- One node more at the end of the list of each cell. -/
def addRow : List (Column L) → List Cell → List (Column L)
  | column :: columns, cell :: row => column.add cell :: addRow columns row
  | columns, _ => columns

theorem addRow_length (columns : List (Column L)) (row : List Cell) :
    (addRow columns row).length = columns.length := by
  induction columns generalizing row with
  | nil => cases row <;> rfl
  | cons column columns ih =>
      cases row with
      | nil => rfl
      | cons cell row => rw [addRow, List.length_cons, ih, List.length_cons]

theorem addCell_at (before columns : List (Column L)) (column : Column L) {cell : Cell}
    (plain : Plain cell.key ∧ Plain cell.value) :
    addCell (before ++ column :: columns) before.length cell.text =
      .ok (before ++ column.add cell :: columns) := by
  have read : readLine L column.kind.dataType (cell.key ++ equals :: cell.value) =
      some (cell.key, readData L column.kind.dataType cell.value) :=
    readLine_last plain.1.key plain.2.word
  simp only [addCell, Cell.text, List.getElem?_append_right,
    Nat.le_refl, Nat.sub_self, List.getElem?_cons_zero, read, List.set_append_right,
    List.set_cons_zero]
  rfl

/-- What the loop does from a place of the line on, after the next `strsep`. -/
def rowFrom (fuel : Nat) (buffer : Text) (start columnTmp : Nat) (columns : List (Column L)) :
    Except Fault (List (Column L)) :=
  let (tmpKeyI, buffer, raww) := strsep (bytes ",\n") buffer (some start)
  rowLoop fuel buffer raww tmpKeyI columnTmp columns

/-- A cell that a delimiter follows is added. -/
theorem rowFrom_cell (before columns : List (Column L)) (column : Column L) {cell : Cell}
    (plain : Plain cell.key ∧ Plain cell.value) (fuel : Nat) {start : Nat} {buffer rest : Text}
    {d : UInt8}
    (here : buffer.drop start = cell.text ++ d :: rest) (ends : d ∈ bytes ",\n")
    (visible : d ≠ 0) :
    ∃ cut next, rowFrom (fuel + 1) buffer start before.length (before ++ column :: columns) =
        rowFrom fuel cut next (before ++ [column.add cell]).length
          (before ++ [column.add cell] ++ columns) ∧
      cut.drop next = rest := by
  have noNul : 0 ∉ cell.text := fun member => (Cell.plain plain 0 member).2.2 rfl
  have apart : ∀ c ∈ cell.text, c ∉ bytes ",\n" := fun c member => (Cell.plain plain c member).1
  obtain ⟨cut, token, front, back⟩ := strsep_token here noNul apart ends visible
  have word : cstr (cut.drop start) = cell.text := by rw [front, cstr_append rest noNul]
  refine ⟨cut, start + cell.text.length + 1, ?_, back⟩
  simp only [rowFrom, token]
  rw [rowLoop]
  simp only [reduceCtorEq, if_false, stringAt, word, addCell_at before columns column plain, bind,
    Except.bind, List.append_assoc, List.singleton_append, List.length_append, List.length_singleton]

/-- A cell beyond the last column has no list. -/
theorem rowFrom_unset (columns : List (Column L)) {cell : Cell}
    (plain : Plain cell.key ∧ Plain cell.value) (fuel : Nat) {start : Nat} {buffer rest : Text}
    {d : UInt8} (here : buffer.drop start = cell.text ++ d :: rest) (ends : d ∈ bytes ",\n")
    (visible : d ≠ 0) :
    rowFrom (fuel + 1) buffer start columns.length columns = .error .unset := by
  have noNul : 0 ∉ cell.text := fun member => (Cell.plain plain 0 member).2.2 rfl
  have apart : ∀ c ∈ cell.text, c ∉ bytes ",\n" := fun c member => (Cell.plain plain c member).1
  obtain ⟨cut, token, -⟩ := strsep_token here noNul apart ends visible
  simp only [rowFrom, token]
  rw [rowLoop]
  simp only [reduceCtorEq, if_false, stringAt, bind, Except.bind, addCell,
    List.getElem?_eq_none (Nat.le_refl columns.length)]

/-- The last string of a line is not looked at: `strsep` has set `raww` to NULL. -/
theorem rowFrom_last (columns : List (Column L)) {fuel start columnTmp : Nat} {buffer : Text}
    (apart : ∀ c ∈ cstr (buffer.drop start), c ∉ bytes ",\n") :
    rowFrom (fuel + 1) buffer start columnTmp columns = .ok columns := by
  simp only [rowFrom, strsep_last rfl apart]
  rw [rowLoop]
  exact if_pos rfl

/-- What follows a cell in a line: the rest of the line, which is empty after the last cell. -/
theorem rowLine_cons (cell : Cell) (row : List Cell) :
    ∃ d rest, rowLine (cell :: row) = cell.text ++ d :: rest ∧ d ∈ bytes ",\n" ∧ d ≠ 0 ∧
      (row = [] → rest = []) ∧ (row ≠ [] → rest = rowLine row) := by
  obtain ⟨d, rest, text, ends, visible, last, more⟩ := line_token cell.text (row.map Cell.text)
  refine ⟨d, rest, text, ends, visible, fun empty => last (by rw [empty]; rfl), fun filled => ?_⟩
  exact more (by simpa using filled)

/-- The cells of a whole line, or none at its end. -/
theorem rowFrom_line {row : List Cell} (plain : ∀ cell ∈ row, Plain cell.key ∧ Plain cell.value)
    {before columns : List (Column L)} (width : row.length = columns.length) {fuel start : Nat}
    {buffer : Text} (here : buffer.drop start = if row = [] then [] else rowLine row)
    (enough : row.length < fuel) :
    rowFrom fuel buffer start before.length (before ++ columns) =
      .ok (before ++ addRow columns row) := by
  induction row generalizing before columns fuel start buffer with
  | nil =>
      obtain ⟨fuel, rfl⟩ := Nat.exists_eq_add_of_lt enough
      have none : columns = [] := List.eq_nil_of_length_eq_zero width.symm
      rw [none, List.append_nil, rowFrom_last before (by simp [here, cstr])]
      exact congrArg Except.ok (List.append_nil before).symm
  | cons cell row ih =>
      obtain ⟨fuel, rfl⟩ : ∃ rest, fuel = rest + 1 := ⟨fuel - 1, by omega⟩
      cases columns with
      | nil => simp at width
      | cons column columns =>
          obtain ⟨d, rest, text, ends, visible, last, more⟩ := rowLine_cons cell row
          rw [if_neg (List.cons_ne_nil cell row), text] at here
          obtain ⟨cut, next, step, back⟩ := rowFrom_cell before columns column
            (plain cell List.mem_cons_self) fuel here ends visible
          have left : cut.drop next = if row = [] then [] else rowLine row := by
            rw [back]
            by_cases empty : row = []
            · rw [if_pos empty, last empty]
            · rw [if_neg empty, more empty]
          have others : ∀ other ∈ row, Plain other.key ∧ Plain other.value :=
            fun other inside => plain other (List.mem_cons_of_mem cell inside)
          rw [step, ih others (by simpa using width) left (by simpa using enough), addRow,
            List.append_assoc, List.singleton_append]

/-- A row of cells that fits the columns and the buffer. -/
structure RowOf (columnCnt : Nat) (row : List Cell) : Prop where
  width : row.length = columnCnt
  plain : ∀ cell ∈ row, Plain cell.key ∧ Plain cell.value
  fits : (rowLine row).length < maxStr

theorem rowLine_long (row : List Cell) : 2 * row.length ≤ (rowLine row).length := by
  induction row with
  | nil => exact Nat.zero_le _
  | cons cell row ih =>
      obtain ⟨d, rest, text, -, -, -, more⟩ := rowLine_cons cell row
      have pair : 1 ≤ cell.text.length := by
        simp only [Cell.text, List.length_append, List.length_cons]
        omega
      rw [text, List.length_append, List.length_cons, List.length_cons]
      by_cases empty : row = []
      · rw [empty, List.length_nil]
        omega
      · rw [more empty]
        omega

theorem readRow_from (raw : Text) (columns : List (Column L)) :
    readRow raw columns = rowFrom ((cstr raw).length + 1) (cstr raw) 0 0 columns := by
  unfold readRow rowFrom strsep
  dsimp only
  by_cases delimited : ((cstr ((cstr raw).drop 0)).takeWhile
      (!(bytes ",\n").contains ·)).length < (cstr ((cstr raw).drop 0)).length
  · rw [if_pos delimited]
    simp only [List.length_set]
  · rw [if_neg delimited]

theorem RowOf.body {columnCnt : Nat} {row : List Cell} (ofColumns : RowOf columnCnt row) :
    ∃ body, rowLine row = body ++ [newline] ∧ ∀ c ∈ body, c ≠ newline ∧ c ≠ 0 :=
  line_body (row_strings ofColumns.plain)

theorem readRow_line {columns : List (Column L)} {row : List Cell}
    (ofColumns : RowOf columns.length row) (filled : row ≠ []) :
    readRow (rowLine row) columns = .ok (addRow columns row) := by
  have string : cstr (rowLine row) = rowLine row := cstr_line (row_strings ofColumns.plain)
  have long := rowLine_long row
  have read : rowFrom ((rowLine row).length + 1) (rowLine row) 0 ([] : List (Column L)).length
      ([] ++ columns) = .ok ([] ++ addRow columns row) := by
    apply rowFrom_line ofColumns.plain ofColumns.width
    · rw [if_neg filled, List.drop_zero]
    · omega
  rw [readRow_from, string]
  exact read

/-- Whole lines are read one by one, and each is counted. -/
theorem readLoop_lines {columns : List (Column L)} (present : columns ≠ [])
    (rows : List (List Cell))
    (ofColumns : ∀ row ∈ rows, RowOf columns.length row) (rest : Text) (fuel lineCnt : Nat)
    (first : Option Text) :
    readLoop (fuel + rows.length) (rows.flatMap rowLine ++ rest) ⟨first, lineCnt, columns⟩ =
      readLoop fuel rest ⟨first, (lineCnt + rows.length : Nat), rows.foldl addRow columns⟩ := by
  induction rows generalizing columns lineCnt with
  | nil => rfl
  | cons row rows ih =>
      have known := ofColumns row List.mem_cons_self
      have filled : row ≠ [] := by
        rintro rfl
        exact present (List.eq_nil_of_length_eq_zero known.width.symm)
      have line := fgets_csv (rows.flatMap rowLine ++ rest) (row_strings known.plain) known.fits
      have started : ((lineCnt : Nat) : Int) ≠ -1 := by omega
      have later : readLoop (fuel + rows.length) (rows.flatMap rowLine ++ rest)
          ⟨first, (lineCnt + 1 : Nat), addRow columns row⟩ =
            readLoop fuel rest ⟨first, (lineCnt + 1 + rows.length : Nat),
              rows.foldl addRow (addRow columns row)⟩ := by
        apply ih
        · intro empty
          apply present
          apply List.eq_nil_of_length_eq_zero
          rw [← addRow_length columns row, empty, List.length_nil]
        · intro other inside
          rw [addRow_length]
          exact ofColumns other (List.mem_cons_of_mem row inside)
      rw [List.length_cons, ← Nat.add_assoc, List.flatMap_cons, List.append_assoc, rowLine,
        readLoop, line]
      simp only [started, if_false]
      rw [← rowLine, readRow_line known filled]
      simp only [bind, Except.bind, List.foldl_cons]
      rw [Nat.add_comm rows.length, ← Nat.add_assoc, ← later]
      rfl

theorem foldl_addRow_length (columns : List (Column L)) (rows : List (List Cell)) :
    (rows.foldl addRow columns).length = columns.length := by
  induction rows generalizing columns with
  | nil => rfl
  | cons row rows ih => rw [List.foldl_cons, ih, addRow_length]

theorem rows_long (rows : List (List Cell)) (filled : ∀ row ∈ rows, row ≠ []) :
    rows.length ≤ (rows.flatMap rowLine).length := by
  induction rows with
  | nil => exact Nat.zero_le _
  | cons row rows ih =>
      have long := rowLine_long row
      have positive := List.length_pos_of_ne_nil (filled row List.mem_cons_self)
      have rest := ih fun other inside => filled other (List.mem_cons_of_mem row inside)
      rw [List.length_cons, List.flatMap_cons, List.length_append]
      omega

section

variable {columns : List (Column L)} {rows : List (List Cell)} (present : columns ≠ [])
include present

theorem RowOf.filled {row : List Cell} (ofColumns : RowOf columns.length row) : row ≠ [] := by
  rintro rfl
  exact present (List.eq_nil_of_length_eq_zero ofColumns.width.symm)

/-- A file of whole lines is read to its end. -/
theorem readLoop_file (ofColumns : ∀ row ∈ rows, RowOf columns.length row) {fuel : Nat}
    (enough : (rows.flatMap rowLine).length < fuel) (first : Option Text) (lineCnt : Nat) :
    readLoop fuel (rows.flatMap rowLine) ⟨first, lineCnt, columns⟩ =
      .ok ⟨first, (lineCnt + rows.length : Nat), rows.foldl addRow columns⟩ := by
  have long := rows_long rows fun row member => (ofColumns row member).filled present
  obtain ⟨spare, rfl⟩ : ∃ spare, fuel = spare + 1 + rows.length :=
    ⟨fuel - 1 - rows.length, by omega⟩
  have lines := readLoop_lines present rows ofColumns [] (spare + 1) lineCnt first
  rw [List.append_nil] at lines
  rw [lines, readLoop, fgets_nil]

end

def cell (key value : String) : Cell := ⟨bytes key, bytes value⟩

end Ve482.KeyValue.Csv
