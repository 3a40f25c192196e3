import Mathlib.Logic.Function.Basic
import Mathlib.Logic.Relation

set_option autoImplicit false

namespace Ve482.TwoLevel

open Function (update)

variable {ι κ α : Type} [DecidableEq ι] [DecidableEq κ]

/-- A slot holds no block, or is set aside for the block of a key, or holds it. -/
inductive Slot (κ : Type) where
  | free
  | reserved (key : κ)
  | named (key : κ)

def Slot.key : Slot κ → Option κ
  | .free => none
  | .reserved key => some key
  | .named key => some key

/-- A cache of slots over a store, with a second cache between the two. An unwritten slot
is named, but its contents are still to come. -/
structure State (ι κ α : Type) where
  slot : ι → Slot κ
  dirty : ι → Bool
  unwritten : ι → Bool
  data : ι → Option α
  disk : κ → α
  second : κ → Option α

/-- No slot but `i` has anything to do with a key. -/
def State.NoOther (state : State ι κ α) (i : ι) (key : κ) : Prop :=
  ∀ other, other ≠ i → (state.slot other).key ≠ some key

/-- What a cache may do. `faults` is what its operations may only do when the store fails
them. -/
inductive Step (proper : κ → Prop) (faults : Prop) (state : State ι κ α) : State ι κ α → Prop where
  /-- The store receives contents of dirty slots, or something else if it fails. -/
  | scatter {disk : κ → α} (written : ∀ key, disk key = state.disk key ∨
      ∃ i, state.slot i = .named key ∧ state.dirty i = true ∧
        (state.data i = some (disk key) ∨ faults)) :
      Step proper faults state { state with disk := disk }
  | clean {i : ι} {key : κ} (named : state.slot i = .named key)
      (same : state.data i = some (state.disk key)) :
      Step proper faults state { state with dirty := update state.dirty i false }
  /-- The second cache may lose what it holds. -/
  | forget {second : κ → Option α}
      (left : ∀ key, second key = none ∨ second key = state.second key) :
      Step proper faults state { state with second := second }
  | free {i : ι} (loss : ∀ key, state.slot i = .named key → state.dirty i = false ∨ faults) :
      Step proper faults state { state with slot := update state.slot i .free }
  /-- A clean slot is given to the second cache. -/
  | yield {i : ι} {key : κ} (named : state.slot i = .named key) (clean : state.dirty i = false)
      (written : state.unwritten i = false) :
      Step proper faults state { state with
        slot := update state.slot i .free, second := update state.second key (state.data i) }
  /-- Nothing is promised about a slot without a name. -/
  | refill {i : ι} {data : Option α} {dirty unwritten : Bool}
      (unnamed : ∀ key, state.slot i ≠ .named key) :
      Step proper faults state { state with
        data := update state.data i data, dirty := update state.dirty i dirty
        unwritten := update state.unwritten i unwritten }
  | name {i : ι} {key : κ} (unnamed : ∀ other, state.slot i ≠ .named other)
      (fresh : state.NoOther i key) (allowed : proper key) (moved : state.second key = none)
      (clean : state.dirty i = false)
      (same : state.unwritten i = true ∨ state.data i = some (state.disk key)) :
      Step proper faults state { state with slot := update state.slot i (.named key) }
  | reserve {i : ι} {key : κ} (unnamed : ∀ other, state.slot i ≠ .named other)
      (fresh : state.NoOther i key) (allowed : proper key) (moved : state.second key = none) :
      Step proper faults state { state with slot := update state.slot i (.reserved key) }
  | doubt {i : ι} :
      Step proper faults state { state with unwritten := update state.unwritten i true }

abbrev Steps (proper : κ → Prop) (faults : Prop) : State ι κ α → State ι κ α → Prop :=
  Relation.ReflTransGen (Step proper faults)

/-- The two caches and the store agree. -/
structure Coherent (proper : κ → Prop) (state : State ι κ α) : Prop where
  unique : ∀ i j key, (state.slot i).key = some key → (state.slot j).key = some key → i = j
  allowed : ∀ i key, (state.slot i).key = some key → proper key
  clean : ∀ i key, state.slot i = .named key → state.dirty i = false →
    state.unwritten i = false → state.data i = some (state.disk key)
  second : ∀ key contents, state.second key = some contents →
    proper key ∧ (∀ i, (state.slot i).key ≠ some key) ∧ contents = state.disk key

/-- The caches and the store show what was written last. -/
structure Transparent (written : κ → α) (state : State ι κ α) : Prop where
  disk : ∀ key, (∀ i, state.slot i = .named key → state.dirty i = false) →
    state.disk key = written key
  dirty : ∀ i key, state.slot i = .named key → state.dirty i = true →
    state.data i = some (written key)
  data : ∀ i key, state.slot i = .named key → state.unwritten i = false →
    state.data i = some (written key)

variable {proper : κ → Prop} {faults : Prop} {state state' : State ι κ α}

omit [DecidableEq ι] [DecidableEq κ] in
theorem Coherent.noOther (coherent : Coherent proper state) {i : ι} {key : κ}
    (owns : (state.slot i).key = some key) : state.NoOther i key :=
  fun other different owned => different (coherent.unique other i key owned owns)

omit [DecidableEq κ] in
theorem update_named {i j : ι} {slot : Slot κ} {key : κ}
    (owns : (update state.slot i slot j) = .named key) :
    j = i ∧ slot = .named key ∨ j ≠ i ∧ state.slot j = .named key := by
  by_cases same : j = i
  · subst same
    rw [Function.update_self] at owns
    exact Or.inl ⟨rfl, owns⟩
  · rw [Function.update_of_ne same] at owns
    exact Or.inr ⟨same, owns⟩

omit [DecidableEq κ] in
theorem update_key {i j : ι} {slot : Slot κ} {key : κ}
    (owns : (update state.slot i slot j).key = some key) :
    j = i ∧ slot.key = some key ∨ j ≠ i ∧ (state.slot j).key = some key := by
  by_cases same : j = i
  · subst same
    rw [Function.update_self] at owns
    exact Or.inl ⟨rfl, owns⟩
  · rw [Function.update_of_ne same] at owns
    exact Or.inr ⟨same, owns⟩

omit [DecidableEq κ] in
/-- Giving a slot a key that no other slot has keeps the keys apart. -/
theorem Coherent.unique_update (coherent : Coherent proper state) {i : ι} {slot : Slot κ}
    (fresh : ∀ key, slot.key = some key → state.NoOther i key) (j k : ι) (key : κ)
    (left : (update state.slot i slot j).key = some key)
    (right : (update state.slot i slot k).key = some key) : j = k := by
  rcases update_key left with ⟨rfl, here⟩ | ⟨apart, there⟩
  · rcases update_key right with ⟨rfl, -⟩ | ⟨apart, there⟩
    · rfl
    · exact absurd there (fresh key here k apart)
  · rcases update_key right with ⟨rfl, here⟩ | ⟨-, there'⟩
    · exact absurd there (fresh key here j apart)
    · exact coherent.unique j k key there there'

omit [DecidableEq κ] in
theorem Coherent.free (coherent : Coherent proper state) (i : ι) :
    Coherent proper { state with slot := update state.slot i .free } := by
  refine ⟨coherent.unique_update fun key owns => ?_, fun j key owns => ?_, fun j key named => ?_,
    fun key contents stored => ?_⟩
  · cases owns
  · rcases update_key owns with ⟨-, here⟩ | ⟨-, there⟩
    · cases here
    · exact coherent.allowed j key there
  · rcases update_named named with ⟨-, here⟩ | ⟨-, there⟩
    · cases here
    · exact coherent.clean j key there
  · obtain ⟨allowed, absent, same⟩ := coherent.second key contents stored
    refine ⟨allowed, fun j owns => ?_, same⟩
    rcases update_key owns with ⟨-, here⟩ | ⟨-, there⟩
    · cases here
    · exact absent j there

/-- What every step of the cache preserves. -/
theorem Step.coherent (step : Step proper faults state state')
    (coherent : Coherent proper state) : Coherent proper state' := by
  cases step with
  | @scatter disk written =>
      refine ⟨coherent.unique, coherent.allowed, fun i key named clean unread => ?_,
        fun key contents stored => ?_⟩
      · rcases written key with same | ⟨j, named', dirty, -⟩
        · show state.data i = some (disk key)
          rw [same]
          exact coherent.clean i key named clean unread
        · have one : i = j := coherent.unique i j key (by rw [named]; rfl) (by rw [named']; rfl)
          rw [one] at clean
          exact absurd (clean.symm.trans dirty) (by decide)
      · obtain ⟨allowed, absent, same⟩ := coherent.second key contents stored
        rcases written key with kept | ⟨j, named, -, -⟩
        · exact ⟨allowed, absent, same.trans kept.symm⟩
        · exact absurd (by rw [named]; rfl) (absent j)
  | @clean i key named same =>
      refine ⟨coherent.unique, coherent.allowed, fun j key' named' clean unread => ?_,
        coherent.second⟩
      by_cases one : j = i
      · subst one
        have keys : key = key' := Slot.named.inj (named.symm.trans named')
        exact keys ▸ same
      · have kept : state.dirty j = false := by
          simpa [one] using clean
        exact coherent.clean j key' named' kept unread
  | @forget second left =>
      refine ⟨coherent.unique, coherent.allowed, coherent.clean, fun key contents stored => ?_⟩
      rcases left key with gone | kept
      · exact absurd (gone.symm.trans stored) (by simp)
      · exact coherent.second key contents (kept.symm.trans stored)
  | free loss => exact coherent.free _
  | @yield i key named clean written =>
      have freed := coherent.free i
      refine ⟨freed.unique, freed.allowed, freed.clean, fun key' contents stored => ?_⟩
      by_cases same : key' = key
      · subst same
        have data := coherent.clean i key' named clean written
        have owns : (state.slot i).key = some key' := by rw [named]; rfl
        refine ⟨coherent.allowed i key' owns, fun j again => ?_, ?_⟩
        · rcases update_key again with ⟨-, here⟩ | ⟨apart, there⟩
          · cases here
          · exact coherent.noOther owns j apart there
        · have stored' : state.data i = some contents := by simpa using stored
          exact Option.some.inj (stored'.symm.trans data)
      · exact freed.second key' contents (by simpa [same] using stored)
  | @refill i data dirty unwritten unnamed =>
      refine ⟨coherent.unique, coherent.allowed, fun j key named clean unread => ?_,
        coherent.second⟩
      have apart : j ≠ i := by
        rintro rfl
        exact unnamed key named
      have clean' : state.dirty j = false := by simpa [apart] using clean
      have unread' : state.unwritten j = false := by simpa [apart] using unread
      simpa [apart] using coherent.clean j key named clean' unread'
  | @name i key unnamed fresh allowed moved clean same =>
      refine ⟨coherent.unique_update fun other owns => ?_, fun j other owns => ?_,
        fun j other named clean' unread => ?_, fun other contents stored => ?_⟩
      · cases owns
        exact fresh
      · rcases update_key owns with ⟨-, here⟩ | ⟨-, there⟩
        · cases here
          exact allowed
        · exact coherent.allowed j other there
      · rcases update_named named with ⟨rfl, here⟩ | ⟨-, there⟩
        · cases here
          exact same.resolve_left fun pending => absurd (pending.symm.trans unread) (by decide)
        · exact coherent.clean j other there clean' unread
      · obtain ⟨allowed', absent, same'⟩ := coherent.second other contents stored
        refine ⟨allowed', fun j owns => ?_, same'⟩
        rcases update_key owns with ⟨-, here⟩ | ⟨-, there⟩
        · cases here
          exact absurd (moved.symm.trans stored) (by simp)
        · exact absent j there
  | @reserve i key unnamed fresh allowed moved =>
      refine ⟨coherent.unique_update fun other owns => ?_, fun j other owns => ?_,
        fun j other named => ?_, fun other contents stored => ?_⟩
      · cases owns
        exact fresh
      · rcases update_key owns with ⟨-, here⟩ | ⟨-, there⟩
        · cases here
          exact allowed
        · exact coherent.allowed j other there
      · rcases update_named named with ⟨-, here⟩ | ⟨-, there⟩
        · cases here
        · exact coherent.clean j other there
      · obtain ⟨allowed', absent, same'⟩ := coherent.second other contents stored
        refine ⟨allowed', fun j owns => ?_, same'⟩
        rcases update_key owns with ⟨-, here⟩ | ⟨-, there⟩
        · cases here
          exact absurd (moved.symm.trans stored) (by simp)
        · exact absent j there
  | @doubt i =>
      refine ⟨coherent.unique, coherent.allowed, fun j key named clean unread => ?_,
        coherent.second⟩
      by_cases one : j = i
      · subst one
        simp at unread
      · exact coherent.clean j key named clean (by simpa [one] using unread)

theorem Steps.coherent (steps : Steps proper faults state state')
    (coherent : Coherent proper state) : Coherent proper state' := by
  induction steps with
  | refl => exact coherent
  | tail _ step ih => exact step.coherent ih

/-- What every step preserves when the store does not fail. -/
theorem Step.transparent {written : κ → α} (step : Step proper False state state')
    (coherent : Coherent proper state) (transparent : Transparent written state) :
    Transparent written state' := by
  cases step with
  | @scatter disk stored =>
      refine ⟨fun key clean => ?_, transparent.dirty, transparent.data⟩
      rcases stored key with same | ⟨i, named, dirty, -⟩
      · exact same.trans (transparent.disk key clean)
      · exact absurd ((clean i named).symm.trans dirty) (by decide)
  | @clean i key named same =>
      have shown (clean : state.dirty i = true) : state.disk key = written key :=
        Option.some.inj (same.symm.trans (transparent.dirty i key named clean))
      refine ⟨fun key' clean => ?_, fun j key' named' dirty => ?_, transparent.data⟩
      · by_cases one : key' = key
        · subst one
          cases old : state.dirty i with
          | true => exact shown old
          | false =>
              refine transparent.disk key' fun j named' => ?_
              have owner : j = i := coherent.unique j i key' (by rw [named']; rfl)
                (by rw [named]; rfl)
              rw [owner, old]
        · refine transparent.disk key' fun j named' => ?_
          have apart : j ≠ i := by
            rintro rfl
            exact one (Slot.named.inj (named'.symm.trans named))
          simpa [apart] using clean j named'
      · have apart : j ≠ i := by
          rintro rfl
          simp at dirty
        exact transparent.dirty j key' named' (by simpa [apart] using dirty)
  | forget left => exact ⟨transparent.disk, transparent.dirty, transparent.data⟩
  | @free i loss =>
      refine ⟨fun key clean => transparent.disk key fun j named => ?_, fun j key named => ?_,
        fun j key named => ?_⟩
      · by_cases one : j = i
        · subst one
          exact (loss key named).resolve_right id
        · exact clean j (by simpa [one] using named)
      · rcases update_named named with ⟨-, here⟩ | ⟨-, there⟩
        · cases here
        · exact transparent.dirty j key there
      · rcases update_named named with ⟨-, here⟩ | ⟨-, there⟩
        · cases here
        · exact transparent.data j key there
  | @yield i key named clean written' =>
      refine ⟨fun other cleans => transparent.disk other fun j named' => ?_, fun j other named' => ?_,
        fun j other named' => ?_⟩
      · by_cases one : j = i
        · exact one ▸ clean
        · exact cleans j (by simpa [one] using named')
      · rcases update_named named' with ⟨-, here⟩ | ⟨-, there⟩
        · cases here
        · exact transparent.dirty j other there
      · rcases update_named named' with ⟨-, here⟩ | ⟨-, there⟩
        · cases here
        · exact transparent.data j other there
  | @refill i data dirty unwritten unnamed =>
      have apart {j : ι} {key : κ} (named : state.slot j = .named key) : j ≠ i := by
        rintro rfl
        exact unnamed key named
      refine ⟨fun key clean => transparent.disk key fun j named => ?_,
        fun j key named dirty' => ?_, fun j key named unread => ?_⟩
      · simpa [apart named] using clean j named
      · have kept := transparent.dirty j key named (by simpa [apart named] using dirty')
        simpa [apart named] using kept
      · have kept := transparent.data j key named (by simpa [apart named] using unread)
        simpa [apart named] using kept
  | @name i key unnamed fresh allowed moved clean same =>
      have settled : state.disk key = written key := by
        refine transparent.disk key fun j named => ?_
        by_cases one : j = i
        · exact absurd (one ▸ named) (unnamed key)
        · exact absurd (by rw [named]; rfl) (fresh j one)
      refine ⟨fun other cleans => ?_, fun j other named dirty => ?_, fun j other named unread => ?_⟩
      · refine transparent.disk other fun j named => ?_
        by_cases one : j = i
        · exact absurd (one ▸ named) (unnamed other)
        · exact cleans j (by simpa [one] using named)
      · rcases update_named named with ⟨rfl, -⟩ | ⟨-, there⟩
        · exact absurd (clean.symm.trans dirty) (by decide)
        · exact transparent.dirty j other there dirty
      · rcases update_named named with ⟨rfl, here⟩ | ⟨-, there⟩
        · cases here
          rw [← settled]
          exact same.resolve_left fun pending => absurd (pending.symm.trans unread) (by decide)
        · exact transparent.data j other there unread
  | @reserve i key unnamed fresh allowed moved =>
      refine ⟨fun other cleans => transparent.disk other fun j named => ?_, fun j other named => ?_,
        fun j other named => ?_⟩
      · by_cases one : j = i
        · exact absurd (one ▸ named) (unnamed other)
        · exact cleans j (by simpa [one] using named)
      · rcases update_named named with ⟨-, here⟩ | ⟨-, there⟩
        · cases here
        · exact transparent.dirty j other there
      · rcases update_named named with ⟨-, here⟩ | ⟨-, there⟩
        · cases here
        · exact transparent.data j other there
  | @doubt i =>
      refine ⟨transparent.disk, transparent.dirty, fun j key named unread => ?_⟩
      by_cases one : j = i
      · subst one
        simp at unread
      · exact transparent.data j key named (by simpa [one] using unread)

theorem Steps.transparent {written : κ → α} (steps : Steps proper False state state')
    (coherent : Coherent proper state) (transparent : Transparent written state) :
    Transparent written state' := by
  induction steps with
  | refl => exact transparent
  | tail before step ih => exact step.transparent (Steps.coherent before coherent) ih

def State.edit (state : State ι κ α) (i : ι) (contents : α) : State ι κ α :=
  { state with
    data := update state.data i (some contents)
    dirty := update state.dirty i true
    unwritten := update state.unwritten i false }

omit [DecidableEq κ] in
theorem Coherent.edit (coherent : Coherent proper state) (i : ι) (contents : α) :
    Coherent proper (state.edit i contents) := by
  refine ⟨coherent.unique, coherent.allowed, fun j key named clean unread => ?_, coherent.second⟩
  have apart : j ≠ i := by
    rintro rfl
    simp [State.edit] at clean
  have clean' : state.dirty j = false := by simpa [State.edit, apart] using clean
  have unread' : state.unwritten j = false := by simpa [State.edit, apart] using unread
  simpa [State.edit, apart] using coherent.clean j key named clean' unread'

theorem Transparent.edit {written : κ → α} (transparent : Transparent written state)
    (coherent : Coherent proper state) {i : ι} {key : κ} (named : state.slot i = .named key)
    (contents : α) : Transparent (update written key contents) (state.edit i contents) := by
  have apart {j : ι} {other : κ} (named' : state.slot j = .named other) (different : j ≠ i) :
      other ≠ key := by
    rintro rfl
    exact different (coherent.unique j i other (by rw [named']; rfl) (by rw [named]; rfl))
  have same {other : κ} (named' : state.slot i = .named other) : other = key :=
    Slot.named.inj (named'.symm.trans named)
  refine ⟨fun other clean => ?_, fun j other named' dirty => ?_, fun j other named' unread => ?_⟩
  · have different : other ≠ key := by
      rintro rfl
      have cleaned := clean i named
      simp [State.edit] at cleaned
    rw [Function.update_of_ne different]
    refine transparent.disk other fun j named' => ?_
    have elsewhere : j ≠ i := by
      rintro rfl
      exact different (same named')
    simpa [State.edit, elsewhere] using clean j named'
  · by_cases one : j = i
    · subst one
      have keys := same named'
      subst keys
      simp [State.edit]
    · have kept := transparent.dirty j other named' (by simpa [State.edit, one] using dirty)
      simpa [State.edit, one, apart named' one] using kept
  · by_cases one : j = i
    · subst one
      have keys := same named'
      subst keys
      simp [State.edit]
    · have kept := transparent.data j other named' (by simpa [State.edit, one] using unread)
      simpa [State.edit, one, apart named' one] using kept

omit [DecidableEq κ] in
theorem Coherent.soil (coherent : Coherent proper state) (i : ι) :
    Coherent proper { state with dirty := update state.dirty i true } := by
  refine ⟨coherent.unique, coherent.allowed, fun j key named clean unread => ?_, coherent.second⟩
  have apart : j ≠ i := by
    intro same
    subst same
    simp at clean
  exact coherent.clean j key named (by simpa [apart] using clean) unread

/-- What may become of a slot without a name that is given contents. -/
inductive Takes (proper : κ → Prop) (state : State ι κ α) (i : ι) (data : Option α)
    (unwritten : Bool) (second : κ → Option α) : Slot κ → Prop where
  | free : Takes proper state i data unwritten second .free
  | reserved {key : κ} (fresh : state.NoOther i key) (allowed : proper key)
      (moved : second key = none) : Takes proper state i data unwritten second (.reserved key)
  | named {key : κ} (fresh : state.NoOther i key) (allowed : proper key)
      (moved : second key = none) (same : unwritten = true ∨ data = some (state.disk key)) :
      Takes proper state i data unwritten second (.named key)

/-- The slot is taken, while the second cache keeps no more than what is given. -/
def State.take (state : State ι κ α) (i : ι) (slot : Slot κ) (data : Option α) (unwritten : Bool)
    (second : κ → Option α) : State ι κ α :=
  { state with
    slot := update state.slot i slot
    dirty := update state.dirty i false
    unwritten := update state.unwritten i unwritten
    data := update state.data i data
    second := second }

theorem Takes.steps {i : ι} {slot : Slot κ} {data : Option α} {unwritten : Bool}
    {second : κ → Option α} (takes : Takes proper state i data unwritten second slot)
    (unnamed : ∀ key, state.slot i ≠ .named key)
    (left : ∀ key, second key = none ∨ second key = state.second key) :
    Steps proper faults state (state.take i slot data unwritten second) := by
  have forgotten : Step proper faults state { state with second := second } := .forget left
  have refilled : Step proper faults { state with second := second } { state with
      data := update state.data i data
      dirty := update state.dirty i false
      unwritten := update state.unwritten i unwritten
      second := second } := .refill unnamed
  refine .head forgotten (.head refilled (.single ?_))
  cases takes with
  | free => exact .free fun key named => absurd named (unnamed key)
  | reserved fresh allowed moved => exact .reserve unnamed fresh allowed moved
  | named fresh allowed moved same =>
      refine .name unnamed fresh allowed moved (Function.update_self ..) ?_
      simpa using same

/-- Slots that are set aside come by the blocks that they wait for, or are given up. -/
theorem Steps.fill (coherent : Coherent proper state) {bufs : List ι} (distinct : bufs.Nodup)
    (slot : ι → Slot κ) (data : ι → Option α)
    (each : ∀ i ∈ bufs, ∃ key, state.slot i = .reserved key ∧ state.dirty i = false ∧
      (slot i = .free ∨ slot i = .named key ∧ data i = some (state.disk key))) :
    Steps proper faults state { state with
      slot := fun i => if i ∈ bufs then slot i else state.slot i
      data := fun i => if i ∈ bufs then data i else state.data i } := by
  induction bufs generalizing state with
  | nil =>
      simp only [List.not_mem_nil, if_false]
      exact .refl
  | cons i bufs ih =>
      obtain ⟨outside, distinct⟩ := List.nodup_cons.mp distinct
      obtain ⟨key, reserved, clean, becomes⟩ := each i List.mem_cons_self
      have owns : (state.slot i).key = some key := by
        rw [reserved]
        rfl
      have unnamed (other : κ) : state.slot i ≠ .named other := by
        rw [reserved]
        exact fun same => by cases same
      have filled : Steps proper faults state { state with
          slot := update state.slot i (slot i), data := update state.data i (data i) } := by
        have refilled : Step proper faults state { state with
            data := update state.data i (data i) } := by
          have refill : Step proper faults state { state with
              data := update state.data i (data i)
              dirty := update state.dirty i (state.dirty i)
              unwritten := update state.unwritten i (state.unwritten i) } := .refill unnamed
          simpa only [Function.update_eq_self] using refill
        refine .head refilled (.single ?_)
        cases becomes with
        | inl freed =>
            rw [freed]
            exact .free fun other named => absurd named (unnamed other)
        | inr named =>
            rw [named.1]
            refine .name unnamed (coherent.noOther owns) (coherent.allowed i key owns) ?_ clean
              (Or.inr ?_)
            · cases stored : state.second key with
              | none => rfl
              | some contents => exact absurd owns ((coherent.second key contents stored).2.1 i)
            · rw [← named.2]
              exact Function.update_self ..
      have rest := ih (filled.coherent coherent) distinct fun j member => by
        have apart : j ≠ i := fun same => outside (same ▸ member)
        simpa [apart] using each j (List.mem_cons_of_mem i member)
      refine filled.trans ?_
      have slots : (fun j => if j ∈ bufs then slot j else update state.slot i (slot i) j) =
          fun j => if j ∈ i :: bufs then slot j else state.slot j := by
        funext j
        by_cases same : j = i
        · subst same
          simp [outside]
        · simp [same]
      have contents : (fun j => if j ∈ bufs then data j else update state.data i (data i) j) =
          fun j => if j ∈ i :: bufs then data j else state.data j := by
        funext j
        by_cases same : j = i
        · subst same
          simp [outside]
        · simp [same]
      rw [← slots, ← contents]
      exact rest

/-- Slots are given up together. -/
theorem Steps.freeAll {bufs : List ι}
    (loss : ∀ i ∈ bufs, ∀ key, state.slot i = .named key → state.dirty i = false ∨ faults) :
    Steps proper faults state { state with
      slot := fun i => if i ∈ bufs then .free else state.slot i } := by
  induction bufs generalizing state with
  | nil =>
      simp only [List.not_mem_nil, if_false]
      exact .refl
  | cons i bufs ih =>
      refine .head (.free (loss i List.mem_cons_self)) ?_
      have slots : (fun j => if j ∈ bufs then Slot.free else update state.slot i .free j) =
          fun j => if j ∈ i :: bufs then .free else state.slot j := by
        funext j
        by_cases same : j = i
        · subst same
          simp
        · simp [same]
      rw [← slots]
      refine ih fun j member key named => ?_
      cases update_named named with
      | inl here => cases here.2
      | inr there => exact loss j (List.mem_cons_of_mem i member) key there.2

end Ve482.TwoLevel
