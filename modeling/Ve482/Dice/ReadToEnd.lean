import Ve482.Dice.Shown

set_option autoImplicit false

namespace Ve482.Dice

open CString Chunks

/-- Calls of `dice_read` on one open file, each from the offset the one before it left. -/
def reads (params : Params) (minor : Fin diceDevs) : Driver → Nat → List ReadCall → List ReadResult
  | _, _, [] => []
  | driver, offp, call :: calls =>
      let (result, driver) := diceRead params driver minor call offp
      result :: reads params minor driver result.offp calls

/-- Faces that one call could have rolled. -/
def Rolled (params : Params) (dev : DiceDev) (rd : List Int32) : Prop :=
  ∃ random, rd = roll params dev.diceType dev.num random

/-- What reading a device is for: what is delivered is one roll, and once it is delivered the
next call returns 0. -/
def OneRoll (params : Params) (dev : DiceDev) (results : List ReadResult) : Prop :=
  ∃ rd, Rolled params dev rd ∧
    (results.map ReadResult.buff).flatten = render dev.diceType rd ∧
    ∀ earlier result later, results = earlier ++ result :: later →
      (earlier.map ReadResult.buff).flatten = render dev.diceType rd → result.ret = 0

/-- The faces that a call rolls for itself. -/
def ReadCall.rolls (params : Params) (dev : DiceDev) (call : ReadCall) : List Int32 :=
  roll params dev.diceType dev.num call.random

/-- Where a call stops: behind as many places as it asks for, or where its own dice end. -/
def ReadCall.stop (params : Params) (dev : DiceDev) (call : ReadCall) (offp : Nat) : Nat :=
  offp + min call.count (width dev.diceType (call.rolls params dev) - offp)

/-- At every place that a call covers, its dice show what the given faces show, and the last call
stops where these end. -/
def Alike (params : Params) (dev : DiceDev) (rd : List Int32) : Nat → List ReadCall → Prop
  | offp, [] => offp = width dev.diceType rd
  | offp, call :: calls =>
      (∀ place, offp ≤ place → place < call.stop params dev offp →
        shows dev.diceType (call.rolls params dev) place = shows dev.diceType rd place) ∧
      Alike params dev rd (call.stop params dev offp) calls

/-- A call delivers a stretch of its own text, and the driver keeps the device as it is. -/
theorem diceRead_eq (params : Params) (driver : Driver) (minor : Fin diceDevs) {call : ReadCall}
    (copied : call.copied = true) (offp : Nat) :
    diceRead params driver minor call offp =
      let dev := driver.diceDevices minor
      let own := render dev.diceType (call.rolls params dev)
      let size := min call.count (own.length - offp)
      ({ ret := size, offp := offp + size, buff := (own.drop offp).take size },
        { driver with diceNum := dev.num }) := by
  unfold diceRead ReadCall.rolls
  dsimp only
  generalize render _ _ = str
  by_cases past : offp ≥ str.length
  · rw [if_pos past, Nat.sub_eq_zero_of_le past, Nat.min_zero]
    rfl
  · rw [if_neg past, copied, if_neg (by decide)]
    by_cases long : offp + call.count > str.length
    · rw [if_pos long, Nat.min_eq_right (by omega)]
    · rw [if_neg long, Nat.min_eq_left (by omega)]

/-- The return values count the bytes. -/
theorem reads_ret {params : Params} {minor : Fin diceDevs} {calls : List ReadCall}
    (copied : ∀ call ∈ calls, call.copied = true) (driver : Driver) (offp : Nat) :
    ∀ result ∈ reads params minor driver offp calls, result.ret = (result.buff.length : Int) := by
  induction calls generalizing driver offp with
  | nil => exact fun result member => by cases member
  | cons call calls ih =>
      have rest := ih fun other member => copied other (List.mem_cons_of_mem _ member)
      intro result member
      rw [reads, diceRead_eq params driver minor (copied call List.mem_cons_self)] at member
      rcases List.mem_cons.mp member with rfl | later
      · dsimp only
        rw [List.length_take, List.length_drop, Nat.min_assoc, Nat.min_self]
      · exact rest _ _ result later

/-- No call stops before it starts. -/
theorem Alike.within {params : Params} {dev : DiceDev} {rd : List Int32} {calls : List ReadCall}
    {offp : Nat} (alike : Alike params dev rd offp calls) : offp ≤ width dev.diceType rd := by
  induction calls generalizing offp with
  | nil => exact Nat.le_of_eq alike
  | cons call calls ih => exact Nat.le_trans (Nat.le_add_right ..) (ih alike.2)

theorem render_width (params : Params) (dev : DiceDev) {rd : List Int32}
    (rolled : Rolled params dev rd) : (render dev.diceType rd).length = width dev.diceType rd := by
  obtain ⟨random, rfl⟩ := rolled
  exact render_length fun six => roll_range params six dev.num random

/-- What a call delivers is a stretch of a rendering exactly when its dice show there what that
rendering shows. -/
theorem delivers_iff {params : Params} {dev : DiceDev} {rd own : List Int32}
    (rolled : Rolled params dev rd) (also : Rolled params dev own) {offp size : Nat}
    (inOwn : size ≤ width dev.diceType own - offp) (inside : size ≤ width dev.diceType rd - offp) :
    ((render dev.diceType own).drop offp).take size =
        ((render dev.diceType rd).drop offp).take size ↔
      ∀ place, offp ≤ place → place < offp + size →
        shows dev.diceType own place = shows dev.diceType rd place := by
  have read {rd : List Int32} (rolled : Rolled params dev rd) {place : Nat}
      (inside : place < width dev.diceType rd) :
      (render dev.diceType rd).getD place 0 = shows dev.diceType rd place := by
    obtain ⟨random, rfl⟩ := rolled
    exact render_getD (fun six => roll_range params six dev.num random) inside
  rw [stretch_eq_iff (by rwa [render_width params dev also])
    (by rwa [render_width params dev rolled]) 0]
  refine forall₃_congr fun place _ high => ?_
  rw [read also (by omega), read rolled (by omega)]

theorem reads_cut_iff {params : Params} {minor : Fin diceDevs} {calls : List ReadCall}
    (copied : ∀ call ∈ calls, call.copied = true) {driver : Driver} {dev : DiceDev}
    (same : driver.diceDevices minor = dev) {rd : List Int32} (rolled : Rolled params dev rd)
    (offp : Nat) :
    Cuts (render dev.diceType rd) offp ((reads params minor driver offp calls).map ReadResult.buff) ↔
      Alike params dev rd offp calls := by
  induction calls generalizing driver offp with
  | nil => exact Eq.congr_right (render_width params dev rolled)
  | cons call calls ih =>
      have also : Rolled params dev (call.rolls params dev) := ⟨call.random, rfl⟩
      have length := render_width params dev also
      have rest := ih (fun other member => copied other (List.mem_cons_of_mem _ member))
        (show ({ driver with diceNum := dev.num } : Driver).diceDevices minor = dev from same)
        (call.stop params dev offp)
      rw [reads, diceRead_eq params driver minor (copied call List.mem_cons_self), same]
      dsimp only
      rw [List.map_cons, Cuts, Alike, length, List.length_take, List.length_drop, length,
        Nat.min_assoc, Nat.min_self]
      refine (and_congr_right fun _ => rest).trans (and_congr_left fun alike => ?_)
      have inside := alike.within
      unfold ReadCall.stop at inside ⊢
      exact delivers_iff rolled also (Nat.min_le_right ..) (Nat.le_sub_of_add_le' inside)

/-- A call that reads everything, when `get_random_bytes` gives the same value for all dice. -/
def catRead (random : Int32) : ReadCall :=
  { random := fun _ => random, copied := true, count := 131072 }

theorem backgammonPiece_no_newline (face : Int32) : newline ∉ backgammonPiece face := by
  intro member
  rcases List.mem_append.mp member with inPiece | inBlank
  · rcases Nat.lt_or_ge face.toInt.toNat diceBackgammon.length with inside | outside
    · have all : ∀ piece ∈ diceBackgammon, newline ∉ piece := by decide +kernel
      rw [List.getD_eq_getElem _ _ inside] at inPiece
      exact all _ (List.getElem_mem inside) inPiece
    · rw [List.getD_eq_default _ _ outside] at inPiece
      cases inPiece
  · exact absurd inBlank (by decide +kernel)

end Ve482.Dice
