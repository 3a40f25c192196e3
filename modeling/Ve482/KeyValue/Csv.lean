import Ve482.KeyValue.Menu

set_option autoImplicit false

namespace Ve482.KeyValue.Csv

open CString

/-- Why a run of the plugin goes wrong. -/
inductive Fault where
  /-- A NULL is dereferenced. -/
  | null
  /-- A `type[i]` or a `list[i]` is used that was never set up, or `FIRST` is. -/
  | unset
  /-- A column past the end of the arrays is set up. -/
  | bounds
  /-- The assertion of `getType`. -/
  | assertion
  /-- The loop did not end. -/
  | fuel
deriving DecidableEq

/-- `MAX_COLUMN` -/
def maxColumn : Nat := 36

/-- `type[i]` and `list[i]` -/
structure Column (L : Libc) where
  kind : Kind
  list : NodeList L kind.dataType

variable {L : Libc}

/-- `getType` of this plugin, where the sorting type comes first. -/
def getType (argv : Text) : Except Fault Kind :=
  match strtok (bytes "_ \n") argv with
  | none => .error .null
  | some (first, rest) =>
      match strtok (bytes "_ \n") rest with
      | none => .error .null
      | some (second, _) =>
          match sortTypeOf first, dataTypeOf second with
          | some sortType, some dataType => .ok ⟨sortType, dataType⟩
          | _, _ => .error .assertion

/-- The columns that are set up are `0, ..., columnCnt - 1`. -/
def setUp (columns : List (Column L)) (kind : Kind) : Except Fault (List (Column L)) :=
  if columns.length < maxColumn then .ok (columns ++ [⟨kind, listConstructor L kind.dataType⟩])
  else .error .bounds

/-- The string at a pointer into the buffer. -/
def stringAt (buffer : Text) : Option Nat → Except Fault Text
  | none => .error .null
  | some start => .ok (cstr (buffer.drop start))

/-- `while (raww != NULL && tmpKeyI != "\0")` of the header; the second test compares two
addresses and always holds. -/
def headerLoop : Nat → Text → (raww tmpKeyI : Option Nat) → List (Column L) →
    Except Fault (List (Column L))
  | 0, _, _, _, _ => .error .fuel
  | fuel + 1, buffer, raww, tmpKeyI, columns =>
      if raww = none then .ok columns
      else do
        let kind ← getType (← stringAt buffer tmpKeyI)
        let columns ← setUp columns kind
        let (tmpKeyI, buffer, raww) := strsep (bytes ",\n") buffer raww
        headerLoop fuel buffer raww tmpKeyI columns

/-- The branch of the first line: the first `strsep` moves `rawww`, the others `raww`. -/
def readHeader (raw : Text) : Except Fault (List (Column L)) :=
  let (tmpKeyI, buffer, _) := strsep (bytes ",\n") (cstr raw) (some 0)
  headerLoop (buffer.length + 1) buffer (some 0) tmpKeyI []

/-- Puts the cell into `list[columnTmp]`. -/
def addCell (columns : List (Column L)) (columnTmp : Nat) (cell : Text) :
    Except Fault (List (Column L)) :=
  match columns[columnTmp]? with
  | none => .error .unset
  | some column =>
      match readLine L column.kind.dataType cell with
      | none => .error .null
      | some (key, data) => .ok (columns.set columnTmp ⟨column.kind, insert column.list key data⟩)

/-- The same loop for the other lines. -/
def rowLoop : Nat → Text → (raww tmpKeyI : Option Nat) → (columnTmp : Nat) →
    List (Column L) → Except Fault (List (Column L))
  | 0, _, _, _, _, _ => .error .fuel
  | fuel + 1, buffer, raww, tmpKeyI, columnTmp, columns =>
      if raww = none then .ok columns
      else do
        let columns ← addCell columns columnTmp (← stringAt buffer tmpKeyI)
        let (tmpKeyI, buffer, raww) := strsep (bytes ",\n") buffer raww
        rowLoop fuel buffer raww tmpKeyI (columnTmp + 1) columns

def readRow (raw : Text) (columns : List (Column L)) : Except Fault (List (Column L)) :=
  let (tmpKeyI, buffer, raww) := strsep (bytes ",\n") (cstr raw) (some 0)
  rowLoop (buffer.length + 1) buffer raww tmpKeyI 0 columns

/-- What is known after some lines: `FIRST`, `lineCnt` and the columns. -/
structure Reading (L : Libc) where
  first : Option Text
  lineCnt : Int
  columns : List (Column L)

/-- `while (fgets(raw, MAX_STR, fin) != NULL)` -/
def readLoop : Nat → Text → Reading L → Except Fault (Reading L)
  | 0, _, _ => .error .fuel
  | fuel + 1, fin, reading =>
      match fgets maxStr fin with
      | none => .ok reading
      | some (raw, fin) =>
          if reading.lineCnt = -1 then do
            let columns ← readHeader raw
            readLoop fuel fin ⟨some (cstr raw), 0, columns⟩
          else do
            let columns ← readRow raw reading.columns
            readLoop fuel fin ⟨reading.first, reading.lineCnt + 1, columns⟩

def sortColumns : List (Column L) → L.Random → List (Column L)
  | [], _ => []
  | column :: columns, rng =>
      let (list, rng) := sort column.kind.sortType column.list rng
      ⟨column.kind, list⟩ :: sortColumns columns rng

/-- `nodeIndex[i]` -/
structure Cursor (L : Libc) where
  dataType : DataType
  nodes : List (Node L dataType)

/-- One row of the output, and the pointers after it. -/
def exportRow : List (Cursor L) → Except Fault (Text × List (Cursor L))
  | [] => .ok (bytes "\n", [])
  | ⟨dataType, nodes⟩ :: cursors =>
      match nodes with
      | [] => .error .null
      | node :: nodes => do
          let (rest, others) ← exportRow cursors
          let comma := if cursors.length = 0 then [] else bytes ","
          .ok (node.key ++ bytes "=" ++ printData node.data ++ comma ++ rest,
            ⟨dataType, nodes⟩ :: others)

/-- `for (int dpt = 0; dpt < lineCnt; dpt++)` -/
def exportRows : Nat → List (Cursor L) → Except Fault Text
  | 0, _ => .ok []
  | rows + 1, cursors => do
      let (row, cursors) ← exportRow cursors
      let rest ← exportRows rows cursors
      .ok (row ++ rest)

/-- What a run leaves: how many columns and rows were read, and `export.csv`. -/
structure Output where
  columnCnt : Nat
  lineCnt : Int
  exported : Text
deriving DecidableEq

def uiCmd (L : Libc) (file : Text) (rng : L.Random) : Except Fault Output := do
  let reading ← readLoop (file.length + 1) file (⟨none, -1, []⟩ : Reading L)
  let columns := sortColumns reading.columns rng
  match reading.first with
  | none => .error .unset
  | some first => do
      let rows ← exportRows reading.lineCnt.toNat
        (columns.map fun column => ⟨column.kind.dataType, column.list.head⟩)
      .ok ⟨columns.length, reading.lineCnt, first ++ rows⟩

structure Cell where
  key : Text
  value : Text
deriving DecidableEq

/-- A header and rows of cells. -/
structure Table where
  header : List Kind
  rows : List (List Cell)

def Field (kind : Kind) : Text :=
  (match kind.sortType with
    | .rand => bytes "rand"
    | .inc => bytes "inc"
    | .dec => bytes "dec") ++ bytes "_" ++
  (match kind.dataType with
    | .char => bytes "char"
    | .int => bytes "int"
    | .double => bytes "double")

def Cell.text (cell : Cell) : Text := cell.key ++ equals :: cell.value

/-- A line of words with commas between them. -/
def line : List Text → Text
  | [] => [newline]
  | [word] => word ++ [newline]
  | word :: words => word ++ bytes "," ++ line words

def Table.headerLine (table : Table) : Text := line (table.header.map Field)

def rowLine (row : List Cell) : Text := line (row.map Cell.text)

def Table.text (table : Table) : Text := table.headerLine ++ table.rows.flatMap rowLine

/-- The cells of column `i`. -/
def column (rows : List (List Cell)) (i : Nat) : List Cell := rows.filterMap (·[i]?)

/-- Not empty, and without `=`, comma, blank, newline or NUL. -/
structure Plain (text : Text) : Prop where
  filled : text ≠ []
  plain : ∀ c ∈ text, c ≠ equals ∧ c ∉ bytes ", \n" ∧ c ≠ 0

instance (text : Text) : Decidable (Plain text) :=
  decidable_of_iff (text ≠ [] ∧ ∀ c ∈ text, c ≠ equals ∧ c ∉ bytes ", \n" ∧ c ≠ 0)
    ⟨fun ⟨filled, plain⟩ => ⟨filled, plain⟩, fun ⟨filled, plain⟩ => ⟨filled, plain⟩⟩

def Digits (text : Text) : Prop := text ≠ [] ∧ ∀ c ∈ text, isDigit c

/-- Digits, perhaps after a sign, that denote an `int`. -/
def IntText (text : Text) : Prop :=
  (Digits text ∨ (text.head? = some minus ∨ text.head? = some plus) ∧ Digits text.tail) ∧
    -2 ^ 31 ≤ strtol text ∧ strtol text < 2 ^ 31

instance (text : Text) : Decidable (IntText text) := by
  unfold IntText Digits
  infer_instance

structure Wellformed (table : Table) : Prop where
  columns : 1 ≤ table.header.length ∧ table.header.length ≤ maxColumn
  kinds : ∀ kind ∈ table.header, kind.sortType ≠ .rand ∧ kind.dataType ≠ .double
  width : ∀ row ∈ table.rows, row.length = table.header.length
  cells : ∀ row ∈ table.rows, ∀ cell ∈ row, Plain cell.key ∧ Plain cell.value
  ints : ∀ i (_ : i < table.header.length), table.header[i].dataType = .int →
    ∀ a ∈ column table.rows i, IntText a.value ∧
      ∀ b ∈ column table.rows i, strtol a.value - strtol b.value < 2 ^ 31
  fits : table.headerLine.length < maxStr ∧ ∀ row ∈ table.rows, (rowLine row).length < maxStr

/-- The cell with its value written as the plugin writes it. -/
def Cell.canonical (dataType : DataType) (cell : Cell) : Cell :=
  match dataType with
  | .int => ⟨cell.key, decimal (strtol cell.value)⟩
  | _ => cell

def AtMost : DataType → Cell → Cell → Prop
  | .char, a, b => strcmp a.value b.value ≤ 0
  | .int, a, b => strtol a.value ≤ strtol b.value
  | .double, _, _ => True

/-- The order that a header field asks for. -/
def Ordered (kind : Kind) (a b : Cell) : Prop :=
  match kind.sortType with
  | .rand => True
  | .inc => AtMost kind.dataType a b
  | .dec => AtMost kind.dataType b a

/-- The plugin reads every column and row, and exports the same header over sorted columns. -/
def SortsColumns (L : Libc) (table : Table) (rng : L.Random) : Prop :=
  ∃ rows : List (List Cell),
    uiCmd L table.text rng = .ok ⟨table.header.length, table.rows.length,
      (⟨table.header, rows⟩ : Table).text⟩ ∧
    rows.length = table.rows.length ∧
    (∀ row ∈ rows, row.length = table.header.length) ∧
    ∀ i (_ : i < table.header.length),
      (column rows i).Perm ((column table.rows i).map (Cell.canonical table.header[i].dataType)) ∧
      (column rows i).Pairwise (Ordered table.header[i])

end Ve482.KeyValue.Csv
