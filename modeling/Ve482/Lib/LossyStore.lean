import Mathlib.Logic.Function.Basic

set_option autoImplicit false

/- A store that may lose what it holds, and never gives back anything else. -/
namespace Ve482.LossyStore

open Function (update)

variable {κ ν : Type} [DecidableEq κ]

inductive Access (κ ν : Type) where
  | put (key : κ) (value : ν)
  | take (key : κ) (value : ν)
  | discard (gone : κ → Bool)

/-- What was put last under each key, and was neither taken nor discarded since. -/
def latest : (κ → Option ν) → List (Access κ ν) → κ → Option ν
  | store, [] => store
  | store, .put key value :: rest => latest (update store key (some value)) rest
  | store, .take key _ :: rest => latest (update store key none) rest
  | store, .discard gone :: rest => latest (fun key => if gone key then none else store key) rest

/-- What is taken is what was put last. -/
def Honest (store : κ → Option ν) (accesses : List (Access κ ν)) : Prop :=
  ∀ earlier key value later, accesses = earlier ++ .take key value :: later →
    latest store earlier key = some value

/-- One store has nothing that another has not. -/
def Within (less more : κ → Option ν) : Prop :=
  ∀ key value, less key = some value → more key = some value

/-- A store comes from another by some accesses, whatever is lost on the way. -/
def Serves : (κ → Option ν) → List (Access κ ν) → (κ → Option ν) → Prop
  | before, [], after => Within after before
  | before, .put key value :: rest, after => Serves (update before key (some value)) rest after
  | before, .take key value :: rest, after =>
      before key = some value ∧ Serves (update before key none) rest after
  | before, .discard gone :: rest, after =>
      Serves (fun key => if gone key then none else before key) rest after

variable {store less more before after : κ → Option ν} {first second : List (Access κ ν)}

omit [DecidableEq κ] in
theorem Within.refl (store : κ → Option ν) : Within store store := fun _ _ => id

omit [DecidableEq κ] in
theorem Within.trans {middle : κ → Option ν} (left : Within less middle)
    (right : Within middle more) : Within less more :=
  fun key value held => right key value (left key value held)

theorem Within.update (within : Within less more) (key : κ) (value : Option ν) :
    Within (update less key value) (update more key value) := by
  intro other held
  by_cases same : other = key
  · subst same
    rw [Function.update_self, Function.update_self]
    exact id
  · rw [Function.update_of_ne same, Function.update_of_ne same]
    exact within other held

omit [DecidableEq κ] in
theorem Within.discard (within : Within less more) (gone : κ → Bool) :
    Within (fun key => if gone key then none else less key)
      (fun key => if gone key then none else more key) := by
  intro key value
  dsimp only
  split
  · exact id
  · exact within key value

/-- A store that has more can serve the same accesses. -/
theorem Serves.mono (serves : Serves less first after) (within : Within less more) :
    Serves more first after := by
  induction first generalizing less more with
  | nil => exact Within.trans serves within
  | cons access rest ih =>
      cases access with
      | put key value => exact ih serves (within.update key (some value))
      | take key value => exact ⟨within key value serves.1, ih serves.2 (within.update key none)⟩
      | discard gone => exact ih serves (within.discard gone)

theorem Serves.trans {middle : κ → Option ν} (left : Serves before first middle)
    (right : Serves middle second after) : Serves before (first ++ second) after := by
  induction first generalizing before with
  | nil => exact right.mono left
  | cons access rest ih =>
      cases access with
      | put key value => exact ih left
      | take key value => exact ⟨left.1, ih left.2⟩
      | discard gone => exact ih left

theorem honest_cons {access : Access κ ν} {rest : List (Access κ ν)} {next : κ → Option ν}
    (step : ∀ earlier, latest before (access :: earlier) = latest next earlier) :
    Honest before (access :: rest) ↔
      (∀ key value, access = .take key value → before key = some value) ∧ Honest next rest := by
  refine ⟨fun honest => ⟨fun key value same => honest [] key value rest (by rw [same]; rfl),
    fun earlier key value later same => ?_⟩, fun both earlier key value later same => ?_⟩
  · rw [← step]
    exact honest (access :: earlier) key value later (by rw [same]; rfl)
  · cases earlier with
    | nil => exact both.1 key value (List.cons.inj same).1
    | cons head earlier =>
        obtain ⟨rfl, tail⟩ := List.cons.inj same
        rw [step]
        exact both.2 earlier key value later tail

/-- What a store serves is honest, and it is left with nothing but what was put last. -/
theorem serves_iff {accesses : List (Access κ ν)} :
    Serves before accesses after ↔ Honest before accesses ∧ Within after (latest before accesses) := by
  induction accesses generalizing before with
  | nil => exact ⟨fun within => ⟨fun earlier _ _ _ same => by simp at same, within⟩, And.right⟩
  | cons access rest ih =>
      cases access with
      | put key value =>
          rw [honest_cons fun _ => rfl, Serves, ih]
          exact ⟨fun both => ⟨⟨nofun, both.1⟩, both.2⟩, fun both => ⟨both.1.2, both.2⟩⟩
      | take key value =>
          rw [honest_cons fun _ => rfl, Serves, ih]
          refine ⟨fun all => ⟨⟨fun other held same => ?_, all.2.1⟩, all.2.2⟩,
            fun all => ⟨all.1.1 key value rfl, all.1.2, all.2⟩⟩
          obtain ⟨rfl, rfl⟩ := Access.take.inj same
          exact all.1
      | discard gone =>
          rw [honest_cons fun _ => rfl, Serves, ih]
          exact ⟨fun both => ⟨⟨nofun, both.1⟩, both.2⟩, fun both => ⟨both.1.2, both.2⟩⟩

end Ve482.LossyStore
