import Ve482.Dadfs.Write
import Ve482.Lib.Chunks

set_option autoImplicit false

namespace Ve482.Dadfs

open Chunks

/-- The answers of the kernel to one `dadfs_read`. `copied n` is how many of `n` bytes
`copy_to_user` manages. -/
structure ReadEnv where
  bread : Bool
  copied : Nat → Nat

/-- The return value, `*ppos` and what is in the user's buffer after a call. -/
structure ReadResult where
  ret : Int
  ppos : Nat
  buf : List UInt8
  deriving DecidableEq, Repr

/-- `nbytes` is an `int`: what it counts lies in one block. -/
def dadfsRead (env : ReadEnv) (fs : Fs) (ino len ppos : Nat) : ReadResult :=
  let inode := fs.mem ino
  if ppos ≥ inode.fileSize then { ret := 0, ppos := ppos, buf := [] }
  else if !env.bread then { ret := 0, ppos := ppos, buf := [] }
  else
    -- the block from its first byte, whatever the position
    let buffer := (fs.bufs inode.dataBlockNumber).bytes
    let nbytes := min inode.fileSize len
    let buf := (List.range (env.copied nbytes)).map buffer
    if env.copied nbytes < nbytes then { ret := -efault, ppos := ppos, buf := buf }
    else { ret := nbytes, ppos := ppos + nbytes, buf := buf }

/-- The calls into the kernel succeed, and the copy is complete. -/
structure ReadEnv.Succeeds (env : ReadEnv) : Prop where
  bread : env.bread = true
  copied : ∀ n, env.copied n = n

structure ReadCall where
  env : ReadEnv
  len : Nat

/-- The calls of one open file, each from the position the one before it left. -/
def reads (fs : Fs) (ino : Nat) : Nat → List ReadCall → List ReadResult
  | _, [] => []
  | ppos, call :: calls =>
      let result := dadfsRead call.env fs ino call.len ppos
      result :: reads fs ino result.ppos calls

/-- The last call, and no other, returned 0. -/
abbrev EndsAtZero (results : List ReadResult) : Prop := StopsAt (fun result => result.ret = 0) results

def endPosition (ppos : Nat) : List ReadResult → Nat
  | [] => ppos
  | result :: results => endPosition result.ppos results

/-- The first `count` bytes of a block. -/
def firstBytes (bytes : Nat → UInt8) (count : Nat) : List UInt8 := (List.range count).map bytes

/-- The file that an inode number stands for in memory. -/
def Fs.fileText (fs : Fs) (ino : Nat) : List UInt8 :=
  firstBytes (fs.bufs (fs.mem ino).dataBlockNumber).bytes (fs.mem ino).fileSize

/-- What reading to the end of a file is for. -/
structure DeliversOnce (fs : Fs) (ino : Nat) (calls : List ReadCall) : Prop where
  within : ∀ pair ∈ (reads fs ino 0 calls).zip calls, pair.1.ret ≤ (pair.2.len : Int)
  text : ((reads fs ino 0 calls).map ReadResult.buf).flatten = fs.fileText ino
  position : endPosition 0 (reads fs ino 0 calls) = (fs.mem ino).fileSize

/-- The lengths, each cut at the size, lead exactly to the end of the file, and over every
piece that they cut off, the content repeats its beginning. -/
def RepeatsStart (bytes : Nat → UInt8) (size : Nat) : Nat → List Nat → Prop
  | pos, [] => pos = size
  | pos, len :: lens =>
      if size ≤ pos then pos = size
      else (∀ j, j < min size len → bytes (pos + j) = bytes j) ∧
        RepeatsStart bytes size (pos + min size len) lens

@[simp] theorem firstBytes_length (bytes : Nat → UInt8) (count : Nat) :
    (firstBytes bytes count).length = count := by
  rw [firstBytes, List.length_map, List.length_range]

/-- The beginning of the file stands at a position as well. -/
theorem firstBytes_cut_iff (bytes : Nat → UInt8) {size pos count : Nat}
    (inside : pos + count ≤ size) :
    firstBytes bytes count = ((firstBytes bytes size).drop pos).take count ↔
      ∀ j, j < count → bytes (pos + j) = bytes j := by
  have length : (((firstBytes bytes size).drop pos).take count).length = count := by
    rw [List.length_take, List.length_drop, firstBytes_length]
    omega
  constructor
  · intro same j small
    have item := congrArg (·[j]?) same
    simp only [firstBytes, List.getElem?_map, List.getElem?_take, List.getElem?_drop,
      List.getElem?_range small, small, ↓reduceIte, Option.map_some,
      List.getElem?_range (show pos + j < size by omega), Option.some.injEq] at item
    exact item.symm
  · intro same
    apply List.ext_getElem
    · rw [length, firstBytes_length]
    · intro j small _
      rw [firstBytes_length] at small
      simp only [firstBytes, List.getElem_map, List.getElem_take, List.getElem_drop,
        List.getElem_range]
      exact (same j small).symm

theorem dadfsRead_end (env : ReadEnv) (fs : Fs) (ino len : Nat) {ppos : Nat}
    (past : (fs.mem ino).fileSize ≤ ppos) :
    dadfsRead env fs ino len ppos = { ret := 0, ppos := ppos, buf := [] } := by
  unfold dadfsRead
  rw [if_pos past]

theorem dadfsRead_inside {env : ReadEnv} (succeeds : env.Succeeds) (fs : Fs) (ino len : Nat)
    {ppos : Nat} (inside : ppos < (fs.mem ino).fileSize) :
    dadfsRead env fs ino len ppos =
      { ret := (min (fs.mem ino).fileSize len : Nat), ppos := ppos + min (fs.mem ino).fileSize len
        buf := firstBytes (fs.bufs (fs.mem ino).dataBlockNumber).bytes
          (min (fs.mem ino).fileSize len) } := by
  unfold dadfsRead
  simp only [succeeds.bread, succeeds.copied, Bool.not_true, Bool.false_eq_true, ↓reduceIte,
    lt_self_iff_false, if_neg (Nat.not_le.mpr inside)]
  rfl

theorem dadfsRead_within {call : ReadCall} (succeeds : call.env.Succeeds) (fs : Fs)
    (ino ppos : Nat) : (dadfsRead call.env fs ino call.len ppos).ret ≤ (call.len : Int) := by
  rcases Nat.lt_or_ge ppos (fs.mem ino).fileSize with inside | past
  · rw [dadfsRead_inside succeeds fs ino call.len inside]
    exact Int.ofNat_le.mpr (Nat.min_le_right ..)
  · rw [dadfsRead_end call.env fs ino call.len past]
    exact Int.natCast_nonneg _

theorem reads_within {fs : Fs} {ino : Nat} {calls : List ReadCall}
    (succeed : ∀ call ∈ calls, call.env.Succeeds) (ppos : Nat) :
    ∀ pair ∈ (reads fs ino ppos calls).zip calls, pair.1.ret ≤ (pair.2.len : Int) := by
  induction calls generalizing ppos with
  | nil => exact fun pair member => by cases member
  | cons call calls ih =>
      have first := succeed call List.mem_cons_self
      have rest := ih (fun other member => succeed other (List.mem_cons_of_mem _ member))
      intro pair member
      rw [reads, List.zip_cons_cons, List.mem_cons] at member
      rcases member with rfl | later
      · exact dadfsRead_within first fs ino ppos
      · exact rest _ pair later

/-- Calls that go on until one returns 0: their pieces are the file from a position on exactly
when the content repeats its beginning there. -/
theorem reads_cut_iff {fs : Fs} {ino : Nat} {calls : List ReadCall}
    (succeed : ∀ call ∈ calls, call.env.Succeeds) (positive : ∀ call ∈ calls, 1 ≤ call.len)
    {ppos : Nat} (ends : EndsAtZero (reads fs ino ppos calls)) :
    (Cuts (fs.fileText ino) ppos ((reads fs ino ppos calls).map ReadResult.buf) ∧
        endPosition ppos (reads fs ino ppos calls) = (fs.mem ino).fileSize) ↔
      RepeatsStart (fs.bufs (fs.mem ino).dataBlockNumber).bytes (fs.mem ino).fileSize ppos
        (calls.map ReadCall.len) := by
  induction calls generalizing ppos with
  | nil => exact ends.elim
  | cons call calls ih =>
      have longEnough := positive call List.mem_cons_self
      rcases Nat.lt_or_ge ppos (fs.mem ino).fileSize with inside | past
      · have read := dadfsRead_inside (succeed call List.mem_cons_self) fs ino call.len inside
        generalize amount : min (fs.mem ino).fileSize call.len = count at read
        have some : ¬ ((count : Int) = 0) := by omega
        rw [reads, read] at ends ⊢
        rw [EndsAtZero, stopsAt_cons, if_neg some] at ends
        have rest := ih (fun other member => succeed other (List.mem_cons_of_mem _ member))
          (fun other member => positive other (List.mem_cons_of_mem _ member)) ends
        rw [List.map_cons, List.map_cons, RepeatsStart, if_neg (by omega), amount, ← rest,
          endPosition, Cuts, firstBytes_length, and_assoc]
        refine and_congr_left fun later => firstBytes_cut_iff _ ?_
        -- the pieces that follow end at the end of the file
        have whole := (cuts_iff_flatten.mp later.1).2
        rw [Fs.fileText, firstBytes_length] at whole
        omega
      · have read := dadfsRead_end call.env fs ino call.len past
        rw [reads, read] at ends ⊢
        rw [EndsAtZero, stopsAt_cons, if_pos rfl] at ends
        rw [ends, List.map_cons, List.map_cons, RepeatsStart, if_pos past, List.map_nil,
          cuts_nil_cons, Cuts, Fs.fileText, firstBytes_length]
        exact and_self_iff

/-- For every file of at most a block, content and sequence of lengths: reading to the end delivers
the file once exactly when the pieces that the lengths cut off all repeat its beginning. -/
theorem reads_deliver_iff (fs : Fs) (ino : Nat) (calls : List ReadCall)
    (succeed : ∀ call ∈ calls, call.env.Succeeds) (positive : ∀ call ∈ calls, 1 ≤ call.len)
    (ends : EndsAtZero (reads fs ino 0 calls)) :
    DeliversOnce fs ino calls ↔
      RepeatsStart (fs.bufs (fs.mem ino).dataBlockNumber).bytes (fs.mem ino).fileSize 0
        (calls.map ReadCall.len) := by
  rw [← reads_cut_iff succeed positive ends, cuts_zero_iff]
  constructor
  · intro delivers
    exact ⟨delivers.text, delivers.position⟩
  · rintro ⟨text, position⟩
    exact ⟨reads_within succeed 0, text, position⟩

def ReadEnv.smooth : ReadEnv := { bread := true, copied := fun n => n }

theorem ReadEnv.smooth_succeeds : ReadEnv.smooth.Succeeds := ⟨rfl, fun _ => rfl⟩

def readsOf (lens : List Nat) : List ReadCall :=
  lens.map fun len => { env := .smooth, len := len }

theorem reads_deliver_welcome :
    DeliversOnce welcomeOpened welcomefileInodeNumber (readsOf [4096, 4096]) ↔
      RepeatsStart (welcomeOpened.bufs (welcomeOpened.mem welcomefileInodeNumber).dataBlockNumber).bytes
        (welcomeOpened.mem welcomefileInodeNumber).fileSize 0
        ((readsOf [4096, 4096]).map ReadCall.len) := by
  refine reads_deliver_iff welcomeOpened welcomefileInodeNumber (readsOf [4096, 4096]) ?_ ?_
    (by decide +kernel)
  · intro call member
    obtain ⟨len, -, rfl⟩ := List.mem_map.mp member
    exact ReadEnv.smooth_succeeds
  · decide

/-- The welcome file of 40 bytes in two halves: both are its first half. -/
theorem second_half_not_read :
    EndsAtZero (reads welcomeOpened welcomefileInodeNumber 0 (readsOf [20, 20, 20])) ∧
      ¬ DeliversOnce welcomeOpened welcomefileInodeNumber (readsOf [20, 20, 20]) := by
  refine ⟨by decide +kernel, fun delivers => ?_⟩
  exact absurd delivers.text (by decide +kernel)

end Ve482.Dadfs
