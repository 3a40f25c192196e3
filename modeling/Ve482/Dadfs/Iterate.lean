import Ve482.Dadfs.Mount
import Ve482.Lib.Chunks

set_option autoImplicit false

namespace Ve482.Dadfs

open Chunks (StopsAt)

abbrev enotdir : Int := 20

/-- `struct dir_context` as one call sees it: the position, how many more entries fit, and the
entries stored so far. -/
structure DirContext where
  pos : Nat
  room : Nat
  stored : List DirRecord
  deriving DecidableEq, Repr

def dirEmit (ctx : DirContext) (record : DirRecord) : Bool × DirContext :=
  match ctx.room with
  | 0 => (false, ctx)
  | room + 1 => (true, { ctx with room := room, stored := ctx.stored ++ [record] })

/-- The loop of `dadfs_iterate` over the records from `i` on, with `fuel` of them left. -/
def emitRecords (records : Nat → DirRecord) : Nat → Nat → DirContext → DirContext
  | 0, _, ctx => ctx
  | fuel + 1, i, ctx =>
      -- the answer of `dir_emit` is not looked at
      let ctx := (dirEmit ctx (records i)).2
      emitRecords records fuel (i + 1) { ctx with pos := ctx.pos + dirRecordBytes }

def dadfsIterate (fs : Fs) (ino : Nat) (ctx : DirContext) : Int × DirContext :=
  if ctx.pos ≠ 0 then (0, ctx)
  else
    let sfsInode := fs.mem ino
    if !sIsdir sfsInode.mode then (-enotdir, ctx)
    else
      (0, emitRecords (fs.bufs sfsInode.dataBlockNumber).records sfsInode.dirChildrenCount 0 ctx)

/-- What the calls of one open directory store, each with room for so many entries and from
the position the one before it left. -/
def listings (fs : Fs) (ino : Nat) : Nat → List Nat → List (List DirRecord)
  | _, [] => []
  | pos, room :: rooms =>
      let ctx := (dadfsIterate fs ino { pos := pos, room := room, stored := [] }).2
      ctx.stored :: listings fs ino ctx.pos rooms

/-- The records of a directory, in order. -/
def Fs.children (fs : Fs) (ino : Nat) : List DirRecord :=
  (List.range (fs.mem ino).dirChildrenCount).map (fs.bufs (fs.mem ino).dataBlockNumber).records

/-- All records are stored by the calls together, each once and in order. -/
def ListsChildren (fs : Fs) (ino : Nat) (rooms : List Nat) : Prop :=
  (listings fs ino 0 rooms).flatten = fs.children ino

theorem dirEmit_eq (ctx : DirContext) (record : DirRecord) :
    dirEmit ctx record =
      (decide (0 < ctx.room),
        { ctx with room := ctx.room - 1, stored := ctx.stored ++ [record].take ctx.room }) := by
  obtain ⟨pos, room, stored⟩ := ctx
  cases room with
  | zero =>
      rw [List.take_zero, List.append_nil]
      rfl
  | succ room => rw [List.take_of_length_le (by simp)]; rfl

/-- The loop goes over every record, and stores those that there is room for. -/
theorem emitRecords_eq (records : Nat → DirRecord) (fuel i : Nat) (ctx : DirContext) :
    emitRecords records fuel i ctx =
      { pos := ctx.pos + fuel * dirRecordBytes, room := ctx.room - fuel
        stored := ctx.stored ++ ((List.range' i fuel).map records).take ctx.room } := by
  induction fuel generalizing i ctx with
  | zero =>
      rw [emitRecords, List.range'_zero, List.map_nil, List.take_nil, List.append_nil,
        Nat.zero_mul, Nat.add_zero, Nat.sub_zero]
  | succ fuel ih =>
      rw [emitRecords, ih, dirEmit_eq, List.range'_succ, List.map_cons]
      dsimp only
      congr 1
      · rw [Nat.succ_mul]
        omega
      · omega
      · rw [List.append_assoc]
        congr 1
        cases ctx.room with
        | zero => rfl
        | succ room => simp

theorem dadfsIterate_past (fs : Fs) (ino : Nat) {ctx : DirContext} (past : ctx.pos ≠ 0) :
    dadfsIterate fs ino ctx = (0, ctx) := by
  unfold dadfsIterate
  rw [if_pos past]

theorem dadfsIterate_start {fs : Fs} {ino : Nat} (directory : sIsdir (fs.mem ino).mode = true)
    (room : Nat) :
    dadfsIterate fs ino { pos := 0, room := room, stored := [] } =
      (0, { pos := (fs.mem ino).dirChildrenCount * dirRecordBytes
            room := room - (fs.mem ino).dirChildrenCount
            stored := (fs.children ino).take room }) := by
  unfold dadfsIterate
  simp only [ne_eq, not_true_eq_false, ↓reduceIte, directory, Bool.not_true, Bool.false_eq_true,
    emitRecords_eq, Nat.zero_add, List.nil_append, Fs.children, List.range_eq_range']

/-- Once past the beginning, no call stores anything. -/
theorem listings_past (fs : Fs) (ino : Nat) {pos : Nat} (past : pos ≠ 0) (rooms : List Nat) :
    (listings fs ino pos rooms).flatten = [] := by
  induction rooms generalizing pos with
  | nil => rfl
  | cons room rooms ih =>
      rw [listings, dadfsIterate_past fs ino past]
      exact ih past

theorem listings_flatten {fs : Fs} {ino : Nat} (directory : sIsdir (fs.mem ino).mode = true)
    (first : Nat) (rest : List Nat) :
    (listings fs ino 0 (first :: rest)).flatten = (fs.children ino).take first := by
  rw [listings, dadfsIterate_start directory, List.flatten_cons]
  dsimp only
  by_cases empty : (fs.mem ino).dirChildrenCount = 0
  · -- without children, the position stays at the beginning
    have none : fs.children ino = [] := by rw [Fs.children, empty]; rfl
    rw [none, List.take_nil, List.nil_append, empty, Nat.zero_mul]
    induction rest with
    | nil => rfl
    | cons room rooms ih =>
        rw [listings, dadfsIterate_start directory, none, List.take_nil, empty, Nat.zero_mul]
        exact ih
  · rw [listings_past fs ino (Nat.mul_ne_zero empty (by decide)) rest, List.append_nil]

/-- For every directory and every way in which the user's buffer splits the listing: all
children are listed exactly when the first call has room for all of them. The block of a directory
has room for 15 of them. -/
theorem listings_iff {fs : Fs} {ino : Nat} (directory : sIsdir (fs.mem ino).mode = true)
    (first : Nat) (rest : List Nat) :
    ListsChildren fs ino (first :: rest) ↔ (fs.mem ino).dirChildrenCount ≤ first := by
  have length : (fs.children ino).length = (fs.mem ino).dirChildrenCount := by
    rw [Fs.children, List.length_map, List.length_range]
  rw [ListsChildren, listings_flatten directory, List.take_eq_self_iff, length]

/-- The fresh image after the creation of one more file in its root. -/
def twoChildren : Fs :=
  ((mounted (mkfs mkfsFreeBlocks zeroDevice) rootInode).call (createFile 97)).fs

theorem listings_two_children :
    ListsChildren twoChildren rootdirInodeNumber [2, 2] ↔
      (twoChildren.mem rootdirInodeNumber).dirChildrenCount ≤ 2 :=
  listings_iff (by decide +kernel) 2 [2]

/-- With room for one entry at a time, the second child is never listed. -/
theorem second_child_not_listed :
    StopsAt (· = []) (listings twoChildren rootdirInodeNumber 0 [1, 1]) ∧
      ¬ ListsChildren twoChildren rootdirInodeNumber [1, 1] := by
  refine ⟨by decide +kernel, ?_⟩
  unfold ListsChildren
  decide +kernel

end Ve482.Dadfs
