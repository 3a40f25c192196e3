import Ve482.KeyValue.Format
import Ve482.Lib.Stdio

set_option autoImplicit false

namespace Ve482.KeyValue

open CString Stdio

def dataTypeOf (token : Text) : Option DataType :=
  if token = bytes "int" then some .int
  else if token = bytes "char" then some .char
  else if token = bytes "double" then some .double
  else none

def sortTypeOf (sorting : Text) : Option SortType :=
  if sorting = bytes "rand" then some .rand
  else if sorting = bytes "inc" then some .inc
  else if sorting = bytes "dec" then some .dec
  else none

/-- `getType`: the second token of the file name and the sorting type. `none` is a name that does
not fit `tmpArg`, a token that is NULL or the assertion at the end. -/
def getType (file sorting : Text) : Option Kind := do
  guard (file.length < maxStr)
  let (_, rest) ← strtok (bytes "_.") file
  let (token, _) ← strtok (bytes "_.") rest
  let dataType ← dataTypeOf token
  let sortType ← sortTypeOf sorting
  some ⟨sortType, dataType⟩

/-- The name that `print` builds in `outFileName`. -/
def outFileName (kind : Kind) : Text :=
  (match kind.sortType with
    | .inc => bytes "inc_"
    | .dec => bytes "dec_"
    | .rand => bytes "rand_") ++
  (match kind.dataType with
    | .int => bytes "int.txt"
    | .double => bytes "double.txt"
    | .char => bytes "char.txt")

variable (L : Libc) {ι : Type} [DecidableEq ι] (place : Text → ι) (bufSize : Nat)

/-- A process: the files, the streams that it opened for writing and has not closed, and the
state of `rand`. -/
structure Session (L : Libc) (ι : Type) where
  disk : Disk ι
  streams : List (Stream ι)
  rng : L.Random

variable {L}

/-- `print`, which never closes the stream. -/
def print (kind : Kind) (list : NodeList L kind.dataType) (session : Session L ι) :
    Session L ι :=
  let (fout, disk) := fopen (place (outFileName kind)) session.disk
  let (fout, disk) := fputs bufSize (printed list) fout disk
  { session with disk := disk, streams := fout :: session.streams }

/-- `ui_cmd`: what it read, and the process after it. `none` where the program crashes, as on a
file that is not there. -/
def uiCmd (kind : Kind) (file : Text) (session : Session L ι) : Option (Text × Session L ι) := do
  let input ← session.disk (place file)
  let list ← readList L kind.dataType input
  let (list, rng) := sort kind.sortType list session.rng
  some (input, print place bufSize kind list { session with rng := rng })

/-- `getType` and `ui_cmd`, as both drivers call them. -/
def runCommand (file sorting : Text) (session : Session L ι) : Option (Text × Session L ι) := do
  let kind ← getType file sorting
  uiCmd place bufSize kind file session

/-- The loop of `ui_menu` over the standard input: what the commands read, and the process after
`exit`. `none` where `fgets` fails or a token is NULL. -/
def uiMenu : Nat → Text → Session L ι → Option (List Text × Session L ι)
  | 0, _, _ => none
  | fuel + 1, stdin, session => do
      let (tmp, stdin) ← fgets maxStr stdin
      let (file, rest) ← strtok (bytes " \n") (cstr tmp)
      if file = bytes "exit" then some ([], session)
      else
        let (sorting, _) ← strtok (bytes " \n") rest
        let (input, session) ← runCommand place bufSize file sorting session
        let (inputs, session) ← uiMenu fuel stdin session
        some (input :: inputs, session)

/-- `driver_menu`, up to `exit`. -/
def driverMenu (stdin : Text) (disk : Disk ι) (seed : L.Random) :
    Option (List Text × Session L ι) :=
  uiMenu place bufSize (stdin.length + 1) stdin ⟨disk, [], seed⟩

/-- `driver_cmd`: what it read, and the files after `exit`. -/
def driverCmd (file sorting : Text) (disk : Disk ι) (seed : L.Random) :
    Option (Text × Disk ι) := do
  let (input, session) ← runCommand place bufSize file sorting ⟨disk, [], seed⟩
  some (input, closeAll session.streams session.disk)

/-- A line of the menu, and the seed that `driver_cmd` gets where it runs the command. -/
structure Command (L : Libc) where
  file : Text
  sorting : Text
  seed : L.Random

def Command.line (command : Command L) : Text :=
  command.file ++ bytes " " ++ command.sorting ++ bytes "\n"

/-- What is typed into the menu. -/
def typed (commands : List (Command L)) : Text :=
  commands.flatMap Command.line ++ bytes "exit\n"

/-- `driver_cmd` once for each command. -/
def driverCmds : List (Command L) → Disk ι → Option (List Text × Disk ι)
  | [], disk => some ([], disk)
  | command :: commands, disk => do
      let (input, disk) ← driverCmd place bufSize command.file command.sorting disk command.seed
      let (inputs, disk) ← driverCmds commands disk
      some (input :: inputs, disk)

/-- `<file> inc` or `<file> dec`, on one line of the standard input. -/
structure Valid (command : Command L) : Prop where
  file : Word command.file
  sorting : command.sorting = bytes "inc" ∨ command.sorting = bytes "dec"
  fits : command.line.length < maxStr

/-- The menu reads and leaves what the separate runs read and leave, whatever the order in which
`exit` flushes the streams. -/
def MenuAgrees (commands : List (Command L)) (disk : Disk ι) (seed : L.Random) : Prop :=
  ∀ inputs files, driverCmds place bufSize commands disk = some (inputs, files) →
    ∃ session, driverMenu place bufSize (typed commands) disk seed = some (inputs, session) ∧
      ∀ closing, closing.Perm session.streams → closeAll closing session.disk = files

/-- No stream still holds bytes of this file. -/
def Written (session : Session L ι) (file : ι) : Prop :=
  ∀ stream ∈ session.streams, stream.pending ≠ [] → stream.file ≠ file

/-- Neither the file that the command reads nor the one that it writes has unwritten bytes. -/
def Settled (session : Session L ι) (command : Command L) : Prop :=
  Written session (place command.file) ∧
    ∀ kind ∈ getType command.file command.sorting, Written session (place (outFileName kind))

/-- Every command of the menu meets a process in which its files are settled. -/
def AllSettled : List (Command L) → Session L ι → Prop
  | [], _ => True
  | command :: commands, session =>
      Settled place session command ∧
        ∀ result ∈ runCommand place bufSize command.file command.sorting session,
          AllSettled commands result.2

instance (session : Session L ι) (file : ι) : Decidable (Written session file) := by
  unfold Written
  infer_instance

instance (session : Session L ι) (command : Command L) :
    Decidable (Settled place session command) := by
  unfold Settled
  infer_instance

instance allSettledDecidable : (commands : List (Command L)) → (session : Session L ι) →
    Decidable (AllSettled place bufSize commands session)
  | [], _ => isTrue trivial
  | _ :: commands, _ =>
      have : ∀ result : Text × Session L ι, Decidable (AllSettled place bufSize commands result.2) :=
        fun result => allSettledDecidable commands result.2
      inferInstanceAs (Decidable (_ ∧ _))

variable {place bufSize}

theorem getType_asked {file sorting : Text} {kind : Kind}
    (asked : sorting = bytes "inc" ∨ sorting = bytes "dec")
    (typed : getType file sorting = some kind) : kind.sortType ≠ .rand := by
  simp only [getType, Option.bind_eq_bind, Option.bind_eq_some_iff, Option.some.injEq] at typed
  obtain ⟨_, _, _, _, _, _, dataType, _, sortType, chosen, rfl⟩ := typed
  rcases asked with rfl | rfl
  · cases chosen
    exact nofun
  · cases chosen
    exact nofun

theorem print_eq (place : Text → ι) (bufSize : Nat) (kind : Kind) (list : NodeList L kind.dataType)
    (session : Session L ι) :
    ∃ written pending, printed list = written ++ pending ∧
      print place bufSize kind list session =
        ⟨Function.update session.disk (place (outFileName kind)) (some written),
          ⟨place (outFileName kind), written.length, pending⟩ :: session.streams,
          session.rng⟩ := by
  have opened : AtEnd (fopen (place (outFileName kind)) session.disk).1
      (fopen (place (outFileName kind)) session.disk).2 [] :=
    ⟨Function.update_self _ _ _, rfl⟩
  obtain ⟨written, pending, whole, result⟩ := opened.fputs bufSize (printed list)
  refine ⟨written, pending, whole, ?_⟩
  simp only [print, result]
  simp only [fopen, Function.update_idem]

/-- A lone process leaves its output in the file. -/
theorem print_alone (kind : Kind) (list : NodeList L kind.dataType) (disk : Disk ι)
    (rng : L.Random) :
    closeAll (print place bufSize kind list ⟨disk, [], rng⟩).streams
        (print place bufSize kind list ⟨disk, [], rng⟩).disk =
      Function.update disk (place (outFileName kind)) (some (printed list)) := by
  obtain ⟨written, pending, whole, result⟩ := print_eq place bufSize kind list ⟨disk, [], rng⟩
  rw [result, whole]
  exact ((Mirrors.refl disk).opened (by simp) written pending).closeAll

theorem runCommand_eq {session : Session L ι} {file sorting input : Text} {kind : Kind}
    {list : NodeList L kind.dataType} (typed : getType file sorting = some kind)
    (held : session.disk (place file) = some input)
    (read : readList L kind.dataType input = some list) :
    runCommand place bufSize file sorting session =
      some (input, print place bufSize kind (sort kind.sortType list session.rng).1
        { session with rng := (sort kind.sortType list session.rng).2 }) := by
  simp only [runCommand, uiCmd, typed, held, read, Option.bind_eq_bind, Option.bind_some]

/-- One command, in the menu and in a process of its own. -/
theorem runCommand_mirrors {session single : Session L ι} {command : Command L} {whole : Disk ι}
    {input : Text} (valid : Valid command) (settled : Settled place session command)
    (mirrors : Mirrors session.streams session.disk whole)
    (alone : runCommand place bufSize command.file command.sorting
      ⟨whole, [], command.seed⟩ = some (input, single)) :
    ∃ next, runCommand place bufSize command.file command.sorting session = some (input, next) ∧
      Mirrors next.streams next.disk (closeAll single.streams single.disk) := by
  simp only [runCommand, uiCmd, Option.bind_eq_bind, Option.bind_eq_some_iff,
    Option.some.injEq, Prod.mk.injEq] at alone
  obtain ⟨kind, typed, input', held, list, read, rfl, rfl⟩ := alone
  obtain ⟨reads, writes⟩ := settled
  have same : session.disk (place command.file) = some input' :=
    (mirrors.others _ reads).symm.trans held
  have asked := getType_asked valid.sorting typed
  have sorted := sort_seed asked list session.rng command.seed
  obtain ⟨written, pending, text, result⟩ := print_eq place bufSize kind
    (sort kind.sortType list session.rng).1
    { session with rng := (sort kind.sortType list session.rng).2 }
  refine ⟨_, runCommand_eq typed same read, ?_⟩
  rw [print_alone, ← sorted, text, result]
  exact mirrors.opened (writes kind typed) written pending

/-- The menu takes a command's line apart into the file and the sorting type. -/
theorem uiMenu_line {command : Command L} (valid : Valid command) (fuel : Nat) (rest : Text)
    (session : Session L ι) (notExit : command.file ≠ bytes "exit") :
    uiMenu place bufSize (fuel + 1) (command.line ++ rest) session = (do
      let (input, next) ← runCommand place bufSize command.file command.sorting session
      let (inputs, last) ← uiMenu place bufSize fuel rest next
      some (input :: inputs, last)) := by
  have sorting : Word command.sorting := by
    rcases valid.sorting with same | same <;> (rw [same]; decide)
  have plain := joined_plain (fun c inside => (valid.file.plain c inside).2)
    (show blank ≠ newline ∧ blank ≠ 0 by decide) (fun c inside => (sorting.plain c inside).2)
  have text : command.line = (command.file ++ blank :: command.sorting) ++ [newline] := by
    rw [Command.line, List.append_assoc command.file]
    rfl
  have fits := valid.fits
  rw [text, List.length_append] at fits
  have read : fgets maxStr (command.line ++ rest) = some (command.line, rest) := by
    rw [text, List.append_assoc]
    exact fgets_line rest plain.1 fits
  have whole : cstr command.line = command.line := by
    refine cstr_of_not_mem fun inside => ?_
    rw [text] at inside
    rcases List.mem_append.mp inside with inside | inside
    · exact plain.2 inside
    · exact absurd (List.mem_singleton.mp inside) (by decide)
  have first : strtok (bytes " \n") command.line =
      some (command.file, command.sorting ++ [newline]) := by
    rw [text, List.append_assoc]
    exact strtok_token _ valid.file.filled valid.file.not_delim (by decide)
  have second : strtok (bytes " \n") (command.sorting ++ [newline]) =
      some (command.sorting, []) :=
    strtok_token [] sorting.filled sorting.not_delim (by decide)
  rw [uiMenu]
  simp only [read, whole, first, second, notExit, if_false, Option.bind_eq_bind, Option.bind_some]

theorem getType_exit (sorting : Text) : getType (bytes "exit") sorting = none := rfl

/-- As long as the files of every command are settled, the menu keeps up with the files that the
separate runs leave. -/
theorem uiMenu_mirrors (commands : List (Command L)) (fuel : Nat) (session : Session L ι)
    (whole : Disk ι) (enough : (typed commands).length < fuel)
    (valid : ∀ command ∈ commands, Valid command)
    (settled : AllSettled place bufSize commands session)
    (mirrors : Mirrors session.streams session.disk whole) {inputs : List Text} {files : Disk ι}
    (apart : driverCmds place bufSize commands whole = some (inputs, files)) :
    ∃ last, uiMenu place bufSize fuel (typed commands) session = some (inputs, last) ∧
      Mirrors last.streams last.disk files := by
  induction commands generalizing fuel session whole inputs with
  | nil =>
      obtain ⟨rfl, rfl⟩ : inputs = [] ∧ files = whole := by
        simpa [driverCmds, eq_comm] using apart
      cases fuel with
      | zero => omega
      | succ fuel => exact ⟨session, rfl, mirrors⟩
  | cons command commands ih =>
      simp only [driverCmds, driverCmd, Option.bind_eq_bind, Option.bind_eq_some_iff,
        Option.some.injEq, Prod.mk.injEq] at apart
      obtain ⟨⟨input, disk⟩, ⟨⟨input', single⟩, alone, rfl, rfl⟩, ⟨others, files'⟩, remaining, rfl,
        rfl⟩ := apart
      obtain ⟨now, later⟩ := settled
      have known := valid command List.mem_cons_self
      obtain ⟨next, run, mirrors⟩ := runCommand_mirrors known now mirrors alone
      have notExit : command.file ≠ bytes "exit" := by
        intro exit
        rw [runCommand, exit, getType_exit] at run
        cases run
      have text : typed (command :: commands) = command.line ++ typed commands := by
        rw [typed, List.flatMap_cons, List.append_assoc]
        rfl
      have filled := List.length_pos_iff.mpr known.file.filled
      have longer : command.file.length ≤ command.line.length := by
        simp only [Command.line, List.length_append]
        omega
      rw [text, List.length_append] at enough
      cases fuel with
      | zero => omega
      | succ fuel =>
          obtain ⟨last, rest, ends⟩ := ih fuel next _ (by omega)
            (fun other inside => valid other (List.mem_cons_of_mem _ inside))
            (later _ run) mirrors remaining
          refine ⟨last, ?_, ends⟩
          rw [text, uiMenu_line known fuel (typed commands) session notExit, run]
          simp only [Option.bind_eq_bind, Option.bind_some, rest]

/-- While no command reads or writes a file of which a stream still holds bytes, the menu does
what the separate runs do. -/
theorem menu_agrees (place : Text → ι) (bufSize : Nat) (commands : List (Command L))
    (disk : Disk ι) (seed : L.Random) (valid : ∀ command ∈ commands, Valid command)
    (settled : AllSettled place bufSize commands ⟨disk, [], seed⟩) :
    MenuAgrees place bufSize commands disk seed := by
  intro inputs files apart
  obtain ⟨last, run, mirrors⟩ := uiMenu_mirrors commands _ ⟨disk, [], seed⟩ disk
    (Nat.lt_succ_self _) valid settled (Mirrors.refl disk) apart
  exact ⟨last, run, fun closing perm => (mirrors.perm perm).closeAll⟩

def smallDisk : Disk Text := fun file =>
  if file = bytes "rand_int.txt" then some (bytes "b=2\na=1\n") else none

def ask (file sorting : String) : Command wholeLibc := ⟨bytes file, bytes sorting, ()⟩

/-- Both commands read the same file. -/
def separate : List (Command wholeLibc) := [ask "rand_int.txt" "inc", ask "rand_int.txt" "dec"]

/-- The second command reads what the first one wrote. -/
def chained : List (Command wholeLibc) := [ask "rand_int.txt" "inc", ask "inc_int.txt" "dec"]

theorem separate_valid : ∀ command ∈ separate, Valid command :=
  List.forall_mem_cons.mpr ⟨⟨by decide, by decide, by decide⟩,
    List.forall_mem_singleton.mpr ⟨by decide, by decide, by decide⟩⟩

theorem menu_agrees_small : MenuAgrees id 4096 separate smallDisk () :=
  menu_agrees id 4096 separate smallDisk () separate_valid (by decide +kernel)

theorem menu_reads_unwritten :
    (∀ command ∈ chained, Valid command) ∧ ¬ MenuAgrees id 4096 chained smallDisk () := by
  refine ⟨?_, ?_⟩
  · exact List.forall_mem_cons.mpr ⟨⟨by decide, by decide, by decide⟩,
      List.forall_mem_singleton.mpr ⟨by decide, by decide, by decide⟩⟩
  · intro agrees
    have apart : (driverCmds id 4096 chained smallDisk).map Prod.fst =
        some [bytes "b=2\na=1\n", bytes "a=1\nb=2\n"] := by
      decide +kernel
    have menu : (driverMenu (L := wholeLibc) id 4096 (typed chained) smallDisk ()).map Prod.fst =
        some [bytes "b=2\na=1\n", []] := by
      decide +kernel
    obtain ⟨result, runs, read⟩ := Option.map_eq_some_iff.mp apart
    obtain ⟨session, same, -⟩ := agrees result.1 result.2 runs
    rw [same, Option.map_some, Option.some.injEq] at menu
    exact absurd (read.symm.trans menu) (by decide)

end Ve482.KeyValue
