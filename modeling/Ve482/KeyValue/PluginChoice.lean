import Ve482.KeyValue.Plugins

set_option autoImplicit false

/- Which plugin the program comes to for a file. -/
namespace Ve482.Plugins

open CString

variable {Command : Type}

/-- The word behind the first dot that follows something else than dots. -/
structure ReadAs (path type dots name blanks tail : Text) : Prop where
  split : path = dots ++ (name ++ dot :: (blanks ++ (type ++ tail)))
  onlyDots : ∀ c ∈ dots, c = dot
  named : name ≠ []
  noDot : dot ∉ name
  onlyBlanks : ∀ c ∈ blanks, c = blank ∨ c = newline
  filled : type ≠ []
  word : blank ∉ type ∧ newline ∉ type
  ends : ∀ c ∈ tail.head?, c = blank ∨ c = newline

def Reads (path type : Text) : Prop :=
  ∃ dots name blanks tail, ReadAs path type dots name blanks tail

theorem token_iff {path type : Text} :
    (next [blank, newline] none (next [dot] (some path) []).2).1 = some type ↔
      Reads path type := by
  constructor
  · intro found
    cases first : strtok [dot] path with
    | none =>
        rw [next, next, Option.getD_some, first] at found
        cases found
    | some cut =>
        obtain ⟨name, rest⟩ := cut
        cases second : strtok [blank, newline] rest with
        | none =>
            rw [next, next, Option.getD_some, first, Option.getD_none, second] at found
            cases found
        | some cut =>
            obtain ⟨token, left⟩ := cut
            rw [next, next, Option.getD_some, first, Option.getD_none, second] at found
            obtain rfl : token = type := Option.some.inj found
            obtain ⟨dots, tail, whole⟩ := strtok_iff.mp first
            obtain ⟨blanks, tail', whole'⟩ := strtok_iff.mp second
            cases tail with
            | nil =>
                have empty : rest = [] := whole.left
                rw [empty] at second
                cases second
            | cons d tail =>
                obtain rfl : d = dot := List.mem_singleton.mp (whole.ends d rfl)
                have same : rest = tail := whole.left
                subst same
                refine ⟨dots, name, blanks, tail', ?_, ?_, whole.filled, ?_, ?_, whole'.filled,
                  ⟨?_, ?_⟩, ?_⟩
                · rw [whole.split, whole'.split]
                · exact fun c member => List.mem_singleton.mp (whole.before c member)
                · exact fun member => whole.apart dot member List.mem_cons_self
                · exact fun c member => by simpa using whole'.before c member
                · exact fun member => whole'.apart blank member (by simp)
                · exact fun member => whole'.apart newline member (by simp)
                · exact fun c member => by simpa using whole'.ends c member
  · rintro ⟨dots, name, blanks, tail, whole⟩
    have first : strtok [dot] path = some (name, blanks ++ (type ++ tail)) :=
      strtok_iff.mpr ⟨dots, dot :: (blanks ++ (type ++ tail)), whole.split,
        fun c member => List.mem_singleton.mpr (whole.onlyDots c member), whole.named,
        fun c member inside => whole.noDot (List.mem_singleton.mp inside ▸ member),
        fun c member => List.mem_singleton.mpr (Option.some.inj member).symm, rfl⟩
    have second : strtok [blank, newline] (blanks ++ (type ++ tail)) = some (type, tail.tail) := by
      refine strtok_iff.mpr ⟨blanks, tail, rfl, fun c member => ?_, whole.filled,
        fun c member inside => ?_, fun c member => ?_, rfl⟩
      · simpa using whole.onlyBlanks c member
      · rcases List.mem_pair.mp inside with rfl | rfl
        · exact whole.word.1 member
        · exact whole.word.2 member
      · simpa using whole.ends c member
    rw [next, next, Option.getD_some, first, Option.getD_none, second]

theorem Reads.noNul {path type : Text} (reads : Reads path type) (noNul : 0 ∉ path) :
    0 ∉ type := by
  obtain ⟨dots, name, blanks, tail, whole⟩ := reads
  intro member
  apply noNul
  rw [whole.split]
  simp [member]

theorem findType_step {token : Text} {handle : List (Slot Command)} {i : Nat}
    {plugin : Handle Command} (here : handle[i]? = some (.loaded plugin)) (count : Nat) :
    findType (some token) handle (count + 1) i =
      if strcmp token plugin.type = 0 then .ok i
      else findType (some token) handle count (i + 1) := by
  simp only [findType, here]

/-- The search gives the first plugin of that type. -/
theorem findType_eq (loader : Loader Command) {token : Text} (noNul : 0 ∉ token) {ts : List Text}
    (named : ∀ type ∈ ts, Named type) (loads : ∀ type ∈ ts, Loads loader type)
    (before after : List (Slot Command)) :
    findType (some token) (before ++ (ts.map (pluginSlot loader) ++ after)) ts.length
        before.length =
      if token ∈ ts then .ok (before.length + ts.idxOf token) else .error .noReturn := by
  induction ts generalizing before with
  | nil => rfl
  | cons type ts ih =>
      obtain ⟨uiCmd, found⟩ := Option.isSome_iff_exists.mp (loads type List.mem_cons_self).2
      have slot : pluginSlot loader type = .loaded ⟨⟨file type⟩, type, uiCmd⟩ := by
        rw [pluginSlot, found]
      have here : (before ++ ((type :: ts).map (pluginSlot loader) ++ after))[before.length]? =
          some (.loaded ⟨⟨file type⟩, type, uiCmd⟩) := by
        rw [List.getElem?_append_right (Nat.le_refl _), Nat.sub_self, ← slot]
        rfl
      have later := ih (fun other member => named other (List.mem_cons_of_mem type member))
        (fun other member => loads other (List.mem_cons_of_mem type member))
        (before ++ [pluginSlot loader type])
      rw [List.length_append, List.length_singleton, List.append_assoc] at later
      rw [List.length_cons, findType_step here]
      by_cases same : token = type
      · rw [if_pos ((strcmp_eq_zero noNul (named type List.mem_cons_self).noNul).mpr same), same,
          if_pos List.mem_cons_self, List.idxOf_cons_self, Nat.add_zero]
      · have differs := mt (strcmp_eq_zero noNul (named type List.mem_cons_self).noNul).mp same
        have rest : token ∈ type :: ts ↔ token ∈ ts := by
          rw [List.mem_cons, or_iff_right same]
        rw [if_neg differs, List.idxOf_cons_ne ts (Ne.symm same)]
        simp only [rest]
        rw [show before.length + (ts.idxOf token + 1) = before.length + 1 + ts.idxOf token by omega]
        exact later

theorem findType_null {handle : List (Slot Command)} {count i index : Nat} :
    findType none handle count i ≠ .ok index := by
  cases count with
  | zero => nofun
  | succ count =>
      cases here : handle[i]? with
      | none => simp [findType, here]
      | some slot => cases slot <;> simp [findType, here]

theorem getPluginType_iff (loader : Loader Command) {ts : List Text}
    (named : ∀ type ∈ ts, Named type) (loads : ∀ type ∈ ts, Loads loader type)
    {handle : List (Slot Command)} (taken : handle.take ts.length = ts.map (pluginSlot loader))
    {path : Text} (noNul : 0 ∉ path) {index : Nat} :
    getPluginType path ts.length handle = .ok index ↔
      path.length < maxStr ∧ ∃ type ∈ ts, Reads path type ∧ index = ts.idxOf type := by
  have split : handle = [] ++ (ts.map (pluginSlot loader) ++ handle.drop ts.length) := by
    rw [List.nil_append, ← taken, List.take_append_drop]
  rw [getPluginType, strcpy]
  by_cases fits : path.length < maxStr
  · rw [if_pos fits]
    change findType (next [blank, newline] none (next [dot] (some path) []).2).1 handle ts.length
      ([] : List (Slot Command)).length = .ok index ↔ _
    cases read : (next [blank, newline] none (next [dot] (some path) []).2).1 with
    | none =>
        refine iff_of_false findType_null ?_
        rintro ⟨-, type, -, reads, -⟩
        rw [token_iff.mpr reads] at read
        cases read
    | some token =>
        have reads := token_iff.mp read
        rw [split, findType_eq loader (reads.noNul noNul) named loads [] _]
        constructor
        · intro found
          by_cases member : token ∈ ts
          · rw [if_pos member, Except.ok.injEq, List.length_nil, Nat.zero_add] at found
            exact ⟨fits, token, member, reads, found.symm⟩
          · rw [if_neg member] at found
            cases found
        · rintro ⟨-, type, member, reads', rfl⟩
          rw [token_iff.mpr reads', Option.some.injEq] at read
          rw [← read, if_pos member, List.length_nil, Nat.zero_add]
  · rw [if_neg fits]
    refine iff_of_false (fun failed => ?_) fun conditions => fits conditions.1
    cases failed

theorem file_injective {type other : Text} (same : file type = file other) : type = other :=
  List.append_cancel_right (List.append_cancel_left same)

/-- What stands behind the last dot of a path. -/
def extension (path : Text) : Text := (path.reverse.takeWhile (· ≠ dot)).reverse

theorem extension_eq (ahead : Text) {e : Text} (noDot : dot ∉ e) :
    extension (ahead ++ dot :: e) = e := by
  have whole : ∀ c ∈ e.reverse, decide (c ≠ dot) = true := fun c member =>
    decide_eq_true fun same => noDot (same ▸ List.mem_reverse.mp member)
  rw [extension, List.reverse_append, List.reverse_cons, List.append_assoc,
    List.takeWhile_append_of_pos whole, List.singleton_append,
    List.takeWhile_cons_of_neg (by simp), List.append_nil, List.reverse_reverse]

/-- The program comes to a plugin that is loaded, and it is the one of the extension if there is
one. -/
def PicksPlugin (loader : Loader Command) (plugins : List Text) (listing : List Entry)
    (path : Text) : Prop :=
  ∃ handle pluginId plugin,
    choose loader (some (listing.map Entry.name)) path = .ok (handle, pluginId) ∧
    handle[pluginId]? = some (.loaded plugin) ∧
    (extension path ∈ plugins → plugin.handle = ⟨file (extension path)⟩)

/-- The slot of the first plugin of a type. -/
theorem slot_at {loader : Loader Command} {ts : List Text} {handle : List (Slot Command)}
    (taken : handle.take ts.length = ts.map (pluginSlot loader)) {type : Text}
    (member : type ∈ ts) : handle[ts.idxOf type]? = some (pluginSlot loader type) := by
  have inside : ts.idxOf type < ts.length := List.idxOf_lt_length_of_mem member
  rw [← List.getElem?_take_of_lt inside, taken, List.getElem?_map, List.getElem?_eq_getElem inside,
    List.getElem_idxOf]
  rfl

theorem slot_loaded {loader : Loader Command} {type : Text} {plugin : Handle Command}
    (loaded : pluginSlot loader type = .loaded plugin) : plugin.handle = ⟨file type⟩ := by
  rw [pluginSlot] at loaded
  cases found : loader.uiCmd (file type) with
  | none =>
      rw [found] at loaded
      cases loaded
  | some uiCmd =>
      rw [found] at loaded
      cases loaded
      rfl

theorem choose_of_room (loader : Loader Command) {listing : List Entry}
    (named : ∀ type ∈ types listing, Named type) (loads : ∀ type ∈ types listing, Loads loader type)
    (room : Room 0 listing) (path : Text) :
    ∃ handle, handle.take (types listing).length = (types listing).map (pluginSlot loader) ∧
      choose loader (some (listing.map Entry.name)) path =
        (getPluginType path (types listing).length handle).map fun pluginId =>
          (handle, pluginId) := by
  have size : (List.replicate maxPlugin (Slot.null : Slot Command)).length = maxPlugin :=
    List.length_replicate
  obtain ⟨handle, run, taken⟩ := loadPlugins_ok loader named loads size room
  rw [Nat.zero_add] at run taken
  refine ⟨handle, taken, ?_⟩
  rw [choose, pluginInit, run]
  simp only [bind, Except.bind]
  cases getPluginType path (types listing).length handle with
  | error fault => rfl
  | ok pluginId => rfl

theorem room_of_choose (loader : Loader Command) {listing : List Entry}
    (named : ∀ type ∈ types listing, Named type) (loads : ∀ type ∈ types listing, Loads loader type)
    {path : Text} {after : List (Slot Command) × Nat}
    (run : choose loader (some (listing.map Entry.name)) path = .ok after) : Room 0 listing := by
  rw [choose, pluginInit] at run
  cases loading :
      loadPlugins loader (listing.map Entry.name) (List.replicate maxPlugin .null) 0 with
  | error fault =>
      rw [loading] at run
      cases run
  | ok loaded => exact loadPlugins_room loader named loads List.length_replicate loading

theorem types_perm {plugins : List Text} {listing : List Entry}
    (listed : listing.Perm (.self :: .parent :: plugins.map .plugin)) :
    (types listing).Perm plugins := by
  have perm := listed.filterMap Entry.type?
  have all : (plugins.map Entry.plugin).filterMap Entry.type? = plugins := by
    rw [List.filterMap_map]
    exact List.filterMap_some
  change (types listing).Perm ((plugins.map Entry.plugin).filterMap Entry.type?) at perm
  rwa [all] at perm

/-- A choice rests on a plugin whose type the path is read as. -/
theorem choose_iff (loader : Loader Command) {listing : List Entry}
    (named : ∀ type ∈ types listing, Named type) (loads : ∀ type ∈ types listing, Loads loader type)
    {path : Text} (noNul : 0 ∉ path) {plugin : Handle Command} :
    (∃ handle pluginId,
        choose loader (some (listing.map Entry.name)) path = .ok (handle, pluginId) ∧
        handle[pluginId]? = some (.loaded plugin)) ↔
      Room 0 listing ∧ path.length < maxStr ∧ ∃ type ∈ types listing, Reads path type ∧
        pluginSlot loader type = .loaded plugin := by
  constructor
  · rintro ⟨handle, pluginId, run, there⟩
    have room := room_of_choose loader named loads run
    obtain ⟨handle', taken, same⟩ := choose_of_room loader named loads room path
    rw [same] at run
    cases found : getPluginType path (types listing).length handle' with
    | error fault =>
        rw [found] at run
        cases run
    | ok index =>
        rw [found] at run
        cases run
        obtain ⟨fits, type, member, reads, rfl⟩ :=
          (getPluginType_iff loader named loads taken noNul).mp found
        rw [slot_at taken member] at there
        exact ⟨room, fits, type, member, reads, Option.some.inj there⟩
  · rintro ⟨room, fits, type, member, reads, loaded⟩
    obtain ⟨handle, taken, same⟩ := choose_of_room loader named loads room path
    have found := (getPluginType_iff loader named loads taken noNul).mpr
      ⟨fits, type, member, reads, rfl⟩
    refine ⟨handle, (types listing).idxOf type, ?_, ?_⟩
    · rw [same, found]
      rfl
    · rw [slot_at taken member, loaded]

theorem Reads.unique {path type other : Text} (reads : Reads path type)
    (reads' : Reads path other) : type = other := by
  have first := token_iff.mpr reads
  rw [token_iff.mpr reads'] at first
  exact (Option.some.inj first).symm

/-- The right plugin is picked where the listing leaves room for it and the two ways to take a
type from a path come to the same. -/
theorem picksPlugin_iff (loader : Loader Command) {plugins : List Text}
    (few : plugins.length ≤ maxPlugin) (named : ∀ type ∈ plugins, Named type)
    (loads : ∀ type ∈ plugins, Loads loader type) {listing : List Entry}
    (listed : listing.Perm (.self :: .parent :: plugins.map .plugin)) {path : Text}
    (noNul : 0 ∉ path) :
    PicksPlugin loader plugins listing path ↔
      (plugins.length < maxPlugin ∨ ∃ type, listing.getLast? = some (.plugin type)) ∧
        [] ∉ plugins ∧ path.length < maxStr ∧
        ∃ type ∈ plugins, Reads path type ∧ (extension path ∈ plugins → type = extension path) := by
  have perm := types_perm listed
  have named' : ∀ type ∈ types listing, Named type := fun type member =>
    named type (perm.mem_iff.mp member)
  have loads' : ∀ type ∈ types listing, Loads loader type := fun type member =>
    loads type (perm.mem_iff.mp member)
  have filled : listing ≠ [] := by
    rintro rfl
    exact List.cons_ne_nil _ _ (List.nil_perm.mp listed)
  have room : Room 0 listing ↔ [] ∉ plugins ∧
      (plugins.length < maxPlugin ∨ ∃ type, listing.getLast? = some (.plugin type)) := by
    rw [room_iff (by rwa [Nat.zero_add, perm.length_eq]), perm.mem_iff, perm.length_eq,
      Nat.zero_add, or_iff_right filled]
  constructor
  · rintro ⟨handle, pluginId, plugin, run, there, right⟩
    obtain ⟨space, fits, type, member, reads, loaded⟩ :=
      (choose_iff loader named' loads' noNul).mp ⟨handle, pluginId, run, there⟩
    obtain ⟨unnamed, space⟩ := room.mp space
    refine ⟨space, unnamed, fits, type, perm.mem_iff.mp member, reads, fun known => ?_⟩
    have same := right known
    rw [slot_loaded loaded, Library.mk.injEq] at same
    exact file_injective same
  · rintro ⟨space, unnamed, fits, type, member, reads, right⟩
    obtain ⟨uiCmd, found⟩ := Option.isSome_iff_exists.mp (loads type member).2
    have loaded : pluginSlot loader type = .loaded ⟨⟨file type⟩, type, uiCmd⟩ := by
      rw [pluginSlot, found]
    obtain ⟨handle, pluginId, run, there⟩ := (choose_iff loader named' loads' noNul).mpr
      ⟨room.mpr ⟨unnamed, space⟩, fits, type, perm.mem_iff.mpr member, reads, loaded⟩
    refine ⟨handle, pluginId, _, run, there, fun known => ?_⟩
    rw [right known]

/-- One plugin, and a file whose name has two dots. -/
def anyLoader : Loader Unit := ⟨fun _ => true, fun _ => some ()⟩
def oneListing : List Entry := [.self, .parent, .plugin (bytes "txt")]
def twoDots : Text := bytes "data.v2.txt"

theorem txt_named : ∀ type ∈ [bytes "txt"], Named type := by
  intro type member
  rw [List.mem_singleton.mp member]
  exact ⟨by decide, by decide, by decide, by decide⟩

theorem any_loads (type : Text) : Loads anyLoader type := ⟨rfl, rfl⟩

theorem picksPlugin_iff_twoDots :
    PicksPlugin anyLoader [bytes "txt"] oneListing twoDots ↔
      ([bytes "txt"].length < maxPlugin ∨ ∃ type, oneListing.getLast? = some (.plugin type)) ∧
        [] ∉ [bytes "txt"] ∧ twoDots.length < maxStr ∧
        ∃ type ∈ [bytes "txt"], Reads twoDots type ∧
          (extension twoDots ∈ [bytes "txt"] → type = extension twoDots) :=
  picksPlugin_iff anyLoader (by decide) txt_named (fun type _ => any_loads type) (.refl _)
    (by decide)

/-- The search is for the type `v2.txt`, and it has no result where it finds none. -/
theorem twoDots_not_picked :
    oneListing.Perm (.self :: .parent :: [bytes "txt"].map .plugin) ∧
      (∀ type ∈ [bytes "txt"], Named type ∧ Loads anyLoader type) ∧ 0 ∉ twoDots ∧
      twoDots = bytes "data.v2" ++ dot :: bytes "txt" ∧ extension twoDots ∈ [bytes "txt"] ∧
      choose anyLoader (some (oneListing.map Entry.name)) twoDots = .error .noReturn ∧
      ¬ PicksPlugin anyLoader [bytes "txt"] oneListing twoDots := by
  have outcome : choose anyLoader (some (oneListing.map Entry.name)) twoDots =
      .error .noReturn := by
    rfl
  have ends : extension twoDots = bytes "txt" := extension_eq (bytes "data.v2") (by decide)
  refine ⟨.refl _, fun type member => ⟨txt_named type member, any_loads type⟩, by decide, rfl,
    List.mem_singleton.mpr ends, outcome, ?_⟩
  rintro ⟨handle, pluginId, plugin, run, -⟩
  rw [outcome] at run
  cases run

end Ve482.Plugins
