import Ve482.Lib.CString

set_option autoImplicit false

/- The kernel of the sorting program, which leaves each file type to a plugin. -/
namespace Ve482.Plugins

open CString

def dot : UInt8 := 46
def slash : UInt8 := 47

/-- Why the program does not get through. -/
inductive Fault where
  /-- A string or an index does not fit its array. -/
  | overflow
  /-- A NULL pointer or one without a plugin behind it is used. -/
  | null
  /-- `exit(-1)` -/
  | exit
  /-- A function comes to its end without a value. -/
  | noReturn
deriving DecidableEq, Repr

/-- A shared library, told by the file that it was loaded from. -/
structure Library where
  file : Text
deriving DecidableEq

/-- Which files are shared libraries and what they have under `ui_cmd`. -/
structure Loader (Command : Type) where
  opens : Text → Bool
  uiCmd : Text → Option Command

variable {Command : Type}

def Loader.dlopen (loader : Loader Command) (file : Text) : Option Library :=
  if loader.opens file then some ⟨file⟩ else none

/-- `dlsym(hd, "ui_cmd")`, or none where `dlerror` reports that it fails. -/
def Loader.dlsym (loader : Loader Command) (hd : Library) : Option Command :=
  loader.uiCmd hd.file

structure Handle (Command : Type) where
  handle : Library
  type : Text
  uiCmd : Command
deriving DecidableEq

/-- An element of `handle`. -/
inductive Slot (Command : Type) where
  | null
  /-- What `malloc` gives. -/
  | allocated
  | loaded (handle : Handle Command)
deriving DecidableEq

def maxPlugin : Nat := 20
def maxStr : Nat := 1024

/-- `strcpy` to an array of `room` bytes. -/
def strcpy (room : Nat) (text : Text) : Except Fault Text :=
  if text.length < room then .ok text else .error .overflow

def store (handle : List (Slot Command)) (i : Nat) (slot : Slot Command) :
    Except Fault (List (Slot Command)) :=
  if i < handle.length then .ok (handle.set i slot) else .error .overflow

/-- `strtok(text, delims)`, which reads on where `saved` points if `text` is NULL. -/
def next (delims : Text) (text : Option Text) (saved : Text) : Option Text × Text :=
  match strtok delims (text.getD saved) with
  | none => (none, [])
  | some (token, rest) => (some token, rest)

def directory : Text := bytes "./plugins/"

/-- The `type` that `pluginInit` takes from the path of a plugin. -/
def pluginType (path : Text) : Except Fault Text := do
  let tmpArg ← strcpy 36 path
  let (token, saved) := next [dot] (some tmpArg) []
  let (_, saved) := next [slash] token saved
  match (next [slash] none saved).1 with
  | none => .error .null
  | some token => strcpy 36 token

/-- The body of the loop of `pluginInit`. -/
def loadPlugin (loader : Loader Command) (d_name : Text) (handle : List (Slot Command))
    (pluginCnt : Nat) : Except Fault (List (Slot Command) × Nat) := do
  let handle ← store handle pluginCnt .allocated
  let d_name ← strcpy 256 (directory ++ d_name)
  match loader.dlopen d_name with
  | none => return (handle, pluginCnt)
  | some hd =>
      if strcmp d_name (directory ++ [dot]) = 0 ∨ strcmp d_name (directory ++ [dot, dot]) = 0 then
        return (handle, pluginCnt)
      else
        match loader.dlsym hd with
        | none => .error .exit
        | some uiCmd =>
            let type ← pluginType d_name
            let handle ← store handle pluginCnt (.loaded ⟨hd, type, uiCmd⟩)
            return (handle, pluginCnt + 1)

/-- `while((ent = readdir(dir)) != NULL)` -/
def loadPlugins (loader : Loader Command) : List Text → List (Slot Command) → Nat →
    Except Fault (List (Slot Command) × Nat)
  | [], handle, pluginCnt => return (handle, pluginCnt)
  | d_name :: rest, handle, pluginCnt => do
      let (handle, pluginCnt) ← loadPlugin loader d_name handle pluginCnt
      loadPlugins loader rest handle pluginCnt

/-- What `readdir` lists is none where there is no such directory. -/
def pluginInit (loader : Loader Command) (dir : Option (List Text)) (handle : List (Slot Command)) :
    Except Fault (List (Slot Command) × Nat) :=
  match dir with
  | none => .error .exit
  | some names => loadPlugins loader names handle 0

/-- `for(int i=0;i<pluginCnt;i++)`, with `count` values of `i` to come. -/
def findType (token : Option Text) (handle : List (Slot Command)) : (count i : Nat) →
    Except Fault Nat
  | 0, _ => .error .noReturn
  | count + 1, i =>
      match handle[i]?, token with
      | some (.loaded plugin), some token =>
          if strcmp token plugin.type = 0 then .ok i else findType (some token) handle count (i + 1)
      | none, _ => .error .overflow
      | _, _ => .error .null

/-- `path` is `argv[1]`. -/
def getPluginType (path : Text) (pluginCnt : Nat) (handle : List (Slot Command)) :
    Except Fault Nat := do
  let tmpArg ← strcpy maxStr path
  let (_, saved) := next [dot] (some tmpArg) []
  let (token, _) := next [blank, newline] none saved
  findType token handle pluginCnt 0

/-- `main` up to the choice of the plugin. -/
def choose (loader : Loader Command) (dir : Option (List Text)) (path : Text) :
    Except Fault (List (Slot Command) × Nat) := do
  let (handle, pluginCnt) ← pluginInit loader dir (List.replicate maxPlugin .null)
  let pluginId ← getPluginType path pluginCnt handle
  return (handle, pluginId)

inductive Entry where
  | self
  | parent
  | plugin (type : Text)
deriving DecidableEq

def suffix : Text := bytes ".plugin"

def Entry.name : Entry → Text
  | .self => [dot]
  | .parent => [dot, dot]
  | .plugin type => type ++ suffix

/-- The path of a plugin. -/
def file (type : Text) : Text := directory ++ (type ++ suffix)

def Entry.type? : Entry → Option Text
  | .plugin type => some type
  | _ => none

def types (entries : List Entry) : List Text := entries.filterMap Entry.type?

@[simp]
theorem types_nil : types [] = [] := rfl

@[simp]
theorem types_self (rest : List Entry) : types (.self :: rest) = types rest := rfl

@[simp]
theorem types_parent (rest : List Entry) : types (.parent :: rest) = types rest := rfl

@[simp]
theorem types_plugin (type : Text) (rest : List Entry) :
    types (.plugin type :: rest) = type :: types rest := rfl

theorem types_cons (entry : Entry) (rest : List Entry) :
    types (entry :: rest) = types [entry] ++ types rest :=
  List.filterMap_append (l := [entry])

/-- A file type whose plugin fits the arrays. -/
structure Named (type : Text) : Prop where
  noDot : dot ∉ type
  noSlash : slash ∉ type
  noNul : 0 ∉ type
  short : (file type).length < 36

/-- The plugin of a file type can be loaded. -/
def Loads (loader : Loader Command) (type : Text) : Prop :=
  loader.opens (file type) = true ∧ (loader.uiCmd (file type)).isSome = true

/-- What the plugin of a file type leaves in `handle`. -/
def pluginSlot (loader : Loader Command) (type : Text) : Slot Command :=
  match loader.uiCmd (file type) with
  | none => .allocated
  | some uiCmd => .loaded ⟨⟨file type⟩, type, uiCmd⟩

/-- The name up to the dot, the directory in it, and what stands behind the directory. -/
theorem pluginType_file {type : Text} (named : Named type) :
    pluginType (file type) = if type = [] then .error .null else .ok type := by
  obtain ⟨noDot, noSlash, -, short⟩ := named
  have split : file type = [dot] ++ ((slash :: bytes "plugins" ++ slash :: type) ++
      dot :: bytes "plugin") := by
    rw [file, show directory = [dot] ++ (slash :: bytes "plugins" ++ [slash]) from rfl,
      show suffix = dot :: bytes "plugin" from rfl]
    simp only [List.append_assoc, List.cons_append, List.nil_append]
  have first : next [dot] (some (file type)) [] =
      (some (slash :: bytes "plugins" ++ slash :: type), bytes "plugin") := by
    rw [next, Option.getD_some, split, strtok_skips _ (by simp),
      strtok_token _ (by simp) ?_ (by simp)]
    intro c member inside
    obtain rfl := List.mem_singleton.mp inside
    rcases List.mem_append.mp member with ahead | behind
    · exact absurd ahead (by decide)
    · rcases List.mem_cons.mp behind with same | named
      · exact absurd same (by decide)
      · exact noDot named
  have second : next [slash] (some (slash :: bytes "plugins" ++ slash :: type)) (bytes "plugin") =
      (some (bytes "plugins"), type) := by
    rw [next, Option.getD_some,
      show slash :: bytes "plugins" ++ slash :: type =
        [slash] ++ (bytes "plugins" ++ slash :: type) from rfl,
      strtok_skips _ (by simp), strtok_token type (by decide) (by decide) (by simp)]
  have third : (next [slash] none type).1 = if type = [] then none else some type := by
    rw [next, Option.getD_none]
    by_cases empty : type = []
    · rw [if_pos empty, empty]
      rfl
    · have apart : ∀ c ∈ type, c ∉ [slash] := by
        intro c member inside
        obtain rfl := List.mem_singleton.mp inside
        exact noSlash member
      rw [if_neg empty, strtok_last empty apart]
  have fits : type.length < 36 := by
    rw [file, List.length_append, List.length_append] at short
    omega
  rw [pluginType, strcpy, if_pos short]
  simp only [bind, Except.bind, first, second, third]
  by_cases empty : type = []
  · rw [if_pos empty, if_pos empty]
  · rw [if_neg empty, if_neg empty]
    simp only [strcpy, fits, if_true]

theorem store_ok {handle : List (Slot Command)} {i : Nat} (inside : i < handle.length)
    (slot : Slot Command) : store handle i slot = .ok (handle.set i slot) :=
  if_pos inside

theorem loadPlugin_full (loader : Loader Command) (name : Text) {handle : List (Slot Command)}
    {pluginCnt : Nat} (full : handle.length ≤ pluginCnt) :
    loadPlugin loader name handle pluginCnt = .error .overflow := by
  rw [loadPlugin, store, if_neg (Nat.not_lt.mpr full)]
  rfl

/-- The directory itself and its parent are passed, whether or not they can be opened. -/
theorem loadPlugin_other (loader : Loader Command) {name : Text}
    (other : name = [dot] ∨ name = [dot, dot]) {handle : List (Slot Command)} {pluginCnt : Nat}
    (room : pluginCnt < handle.length) :
    loadPlugin loader name handle pluginCnt = .ok (handle.set pluginCnt .allocated, pluginCnt) := by
  have fits : strcpy 256 (directory ++ name) = .ok (directory ++ name) := by
    rcases other with rfl | rfl <;> rfl
  have passed : strcmp (directory ++ name) (directory ++ [dot]) = 0 ∨
      strcmp (directory ++ name) (directory ++ [dot, dot]) = 0 := by
    rcases other with rfl | rfl
    · exact Or.inl (by decide)
    · exact Or.inr (by decide)
  rw [loadPlugin, store_ok room]
  simp only [bind, Except.bind, fits]
  cases loader.dlopen (directory ++ name) with
  | none => rfl
  | some hd =>
      dsimp only
      rw [if_pos passed]
      rfl

theorem file_ne {type : Text} (named : Named type) :
    ¬ (strcmp (file type) (directory ++ [dot]) = 0 ∨
      strcmp (file type) (directory ++ [dot, dot]) = 0) := by
  have noNul : 0 ∉ file type := by
    rw [file, List.mem_append, List.mem_append, not_or, not_or]
    exact ⟨by decide, named.noNul, by decide⟩
  have long : (directory ++ [dot, dot]).length < (file type).length := by
    have parts : (file type).length = directory.length + (type.length + suffix.length) := by
      rw [file, List.length_append, List.length_append]
    have ends : suffix.length = 7 := by decide
    rw [parts, List.length_append, ends, List.length_cons, List.length_singleton]
    omega
  rw [strcmp_eq_zero noNul (by decide), strcmp_eq_zero noNul (by decide)]
  rintro (same | same)
  · rw [same] at long
    exact absurd long (by decide)
  · rw [same] at long
    exact absurd long (by decide)

theorem loadPlugin_plugin (loader : Loader Command) {type : Text} (named : Named type)
    (loads : Loads loader type) {handle : List (Slot Command)} {pluginCnt : Nat}
    (room : pluginCnt < handle.length) :
    loadPlugin loader (type ++ suffix) handle pluginCnt =
      if type = [] then .error .null
      else .ok (handle.set pluginCnt (pluginSlot loader type), pluginCnt + 1) := by
  obtain ⟨opens, symbol⟩ := loads
  obtain ⟨uiCmd, found⟩ := Option.isSome_iff_exists.mp symbol
  have fits : strcpy 256 (directory ++ (type ++ suffix)) = .ok (file type) :=
    if_pos (Nat.lt_trans named.short (by decide))
  have opened : loader.dlopen (file type) = some ⟨file type⟩ := if_pos opens
  have linked : loader.dlsym ⟨file type⟩ = some uiCmd := found
  have slot : pluginSlot loader type = .loaded ⟨⟨file type⟩, type, uiCmd⟩ := by
    rw [pluginSlot, found]
  have room' : pluginCnt < (handle.set pluginCnt .allocated).length := by
    rwa [List.length_set]
  rw [loadPlugin, store_ok room]
  simp only [bind, Except.bind, fits, opened, if_neg (file_ne named), linked,
    pluginType_file named]
  by_cases empty : type = []
  · rw [if_pos empty, if_pos empty]
  · rw [if_neg empty, if_neg empty]
    simp only [store_ok room', List.set_set, slot]
    rfl

/-- While entries are left there is room, and each plugin has a name. -/
def Room : Nat → List Entry → Prop
  | _, [] => True
  | pluginCnt, .plugin type :: rest =>
      pluginCnt < maxPlugin ∧ type ≠ [] ∧ Room (pluginCnt + 1) rest
  | pluginCnt, _ :: rest => pluginCnt < maxPlugin ∧ Room pluginCnt rest

theorem room_cons {entry : Entry} {rest : List Entry} {pluginCnt : Nat} :
    Room pluginCnt (entry :: rest) ↔ pluginCnt < maxPlugin ∧ [] ∉ types [entry] ∧
      Room (pluginCnt + (types [entry]).length) rest := by
  cases entry with
  | self => exact Iff.and Iff.rfl (Iff.symm (and_iff_right List.not_mem_nil))
  | parent => exact Iff.and Iff.rfl (Iff.symm (and_iff_right List.not_mem_nil))
  | plugin type =>
      have named : [] ∉ types [.plugin type] ↔ type ≠ [] := by
        rw [types_plugin, types_nil, List.mem_singleton]
        exact not_congr eq_comm
      rw [named]
      rfl

/-- An entry takes the next place if it is a plugin. -/
theorem loadPlugin_ok (loader : Loader Command) {entry : Entry}
    (named : ∀ type ∈ types [entry], Named type) (loads : ∀ type ∈ types [entry], Loads loader type)
    {handle : List (Slot Command)} {pluginCnt : Nat} (room : pluginCnt < handle.length)
    (filled : [] ∉ types [entry]) :
    ∃ handle', loadPlugin loader entry.name handle pluginCnt =
        .ok (handle', pluginCnt + (types [entry]).length) ∧
      handle'.length = handle.length ∧
      handle'.take (pluginCnt + (types [entry]).length) =
        handle.take pluginCnt ++ (types [entry]).map (pluginSlot loader) := by
  have kept : (handle.set pluginCnt .allocated).take pluginCnt = handle.take pluginCnt ++ [] := by
    rw [List.take_set_of_le (Nat.le_refl pluginCnt), List.append_nil]
  cases entry with
  | self => exact ⟨_, loadPlugin_other loader (Or.inl rfl) room, List.length_set, kept⟩
  | parent => exact ⟨_, loadPlugin_other loader (Or.inr rfl) room, List.length_set, kept⟩
  | plugin type =>
      have only : type ∈ types [.plugin type] := List.mem_singleton_self type
      have nonempty : type ≠ [] := fun empty => filled (empty ▸ only)
      have step := loadPlugin_plugin loader (named type only) (loads type only) room
      rw [if_neg nonempty] at step
      refine ⟨_, step, List.length_set, ?_⟩
      change (handle.set pluginCnt (pluginSlot loader type)).take (pluginCnt + 1) = _
      rw [List.take_add_one, List.take_set_of_le (Nat.le_refl pluginCnt),
        List.getElem?_set_self room]
      rfl

theorem loadPlugin_unnamed (loader : Loader Command) {entry : Entry}
    (named : ∀ type ∈ types [entry], Named type) (loads : ∀ type ∈ types [entry], Loads loader type)
    {handle : List (Slot Command)} {pluginCnt : Nat} (room : pluginCnt < handle.length)
    (unnamed : [] ∈ types [entry]) :
    loadPlugin loader entry.name handle pluginCnt = .error .null := by
  cases entry with
  | self => cases unnamed
  | parent => cases unnamed
  | plugin type =>
      obtain rfl : [] = type := List.mem_singleton.mp unnamed
      exact loadPlugin_plugin loader (named _ unnamed) (loads _ unnamed) room

theorem loadPlugins_ok (loader : Loader Command) {entries : List Entry}
    (named : ∀ type ∈ types entries, Named type) (loads : ∀ type ∈ types entries, Loads loader type)
    {handle : List (Slot Command)} (size : handle.length = maxPlugin) {pluginCnt : Nat}
    (room : Room pluginCnt entries) :
    ∃ handle', loadPlugins loader (entries.map Entry.name) handle pluginCnt =
        .ok (handle', pluginCnt + (types entries).length) ∧
      handle'.take (pluginCnt + (types entries).length) =
        handle.take pluginCnt ++ (types entries).map (pluginSlot loader) := by
  induction entries generalizing handle pluginCnt with
  | nil => exact ⟨handle, rfl, (List.append_nil _).symm⟩
  | cons entry rest ih =>
      obtain ⟨free, filled, later⟩ := room_cons.mp room
      rw [types_cons] at named loads ⊢
      rw [List.forall_mem_append] at named loads
      obtain ⟨middle, step, length, taken⟩ :=
        loadPlugin_ok loader named.1 loads.1 (size ▸ free) filled
      obtain ⟨handle', run, taken'⟩ := ih named.2 loads.2 (length.trans size) later
      rw [List.length_append, ← Nat.add_assoc]
      refine ⟨handle', ?_, ?_⟩
      · rw [List.map_cons, loadPlugins, step]
        exact run
      · rw [taken', taken, List.append_assoc, List.map_append]

/-- The loading only gets through where there is room. -/
theorem loadPlugins_room (loader : Loader Command) {entries : List Entry}
    (named : ∀ type ∈ types entries, Named type) (loads : ∀ type ∈ types entries, Loads loader type)
    {handle : List (Slot Command)} (size : handle.length = maxPlugin) {pluginCnt : Nat}
    {after : List (Slot Command) × Nat}
    (run : loadPlugins loader (entries.map Entry.name) handle pluginCnt = .ok after) :
    Room pluginCnt entries := by
  induction entries generalizing handle pluginCnt with
  | nil => trivial
  | cons entry rest ih =>
      rw [types_cons] at named loads
      rw [List.forall_mem_append] at named loads
      rw [List.map_cons, loadPlugins] at run
      have free : pluginCnt < maxPlugin := by
        by_contra full
        rw [loadPlugin_full loader entry.name (size ▸ Nat.le_of_not_lt full)] at run
        cases run
      have inside : pluginCnt < handle.length := size ▸ free
      have filled : [] ∉ types [entry] := by
        intro unnamed
        rw [loadPlugin_unnamed loader named.1 loads.1 inside unnamed] at run
        cases run
      obtain ⟨middle, step, length, -⟩ := loadPlugin_ok loader named.1 loads.1 inside filled
      rw [step] at run
      exact room_cons.mpr ⟨free, filled, ih named.2 loads.2 (length.trans size) run⟩

theorem mem_types {entries : List Entry} {type : Text} :
    type ∈ types entries ↔ .plugin type ∈ entries := by
  rw [types, List.mem_filterMap]
  constructor
  · rintro ⟨entry, member, same⟩
    cases entry with
    | self => cases same
    | parent => cases same
    | plugin other =>
        obtain rfl : other = type := Option.some.inj same
        exact member
  · exact fun member => ⟨.plugin type, member, rfl⟩

/-- With at most twenty plugins there is room unless an entry comes behind the twentieth. -/
theorem room_iff {entries : List Entry} {pluginCnt : Nat}
    (few : pluginCnt + (types entries).length ≤ maxPlugin) :
    Room pluginCnt entries ↔ [] ∉ types entries ∧
      (entries = [] ∨ pluginCnt + (types entries).length < maxPlugin ∨
        ∃ type, entries.getLast? = some (.plugin type)) := by
  induction entries generalizing pluginCnt with
  | nil => exact iff_of_true trivial ⟨nofun, Or.inl rfl⟩
  | cons entry rest ih =>
      rw [types_cons, List.length_append] at few
      rw [room_cons, ih (by omega), types_cons entry rest, List.length_append, List.mem_append,
        not_or]
      cases rest with
      | nil =>
          cases entry with
          | self => simp
          | parent => simp
          | plugin type =>
              have one : pluginCnt < maxPlugin := few
              simp [one]
      | cons second rest =>
          have last : (∃ type, (second :: rest).getLast? = some (.plugin type)) →
              0 < (types (second :: rest)).length := by
            rintro ⟨type, last⟩
            exact List.length_pos_of_mem (mem_types.mpr (List.mem_of_getLast? last))
          simp only [List.getLast?_cons_cons, List.cons_ne_nil, false_or, Nat.add_assoc]
          constructor
          · rintro ⟨-, named, filled, room⟩
            exact ⟨⟨named, filled⟩, room⟩
          · rintro ⟨⟨named, filled⟩, room⟩
            have free : pluginCnt < maxPlugin := by
              rcases room with free | ended
              · omega
              · have positive := last ended
                omega
            exact ⟨free, named, filled, room⟩

end Ve482.Plugins
