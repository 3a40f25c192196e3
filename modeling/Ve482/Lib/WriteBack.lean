import Mathlib.Logic.Function.Basic
import Mathlib.Data.List.Basic

set_option autoImplicit false

namespace Ve482.WriteBack

variable {B C : Type} [DecidableEq B]

/-- One step of a program on a write-back buffer cache. A `write` names the bytes it
touches, so that a client can ask whether they lie inside the block. -/
inductive Op (B C : Type) where
  | write (block : B) (offset length : Nat) (content : C)
  | markDirty (block : B)
  | sync (block : B)

structure Cache (B C : Type) where
  bufs : B → C
  dirty : B → Bool
  disk : B → C

/-- A dirty buffer reaches the disk, a clean one is left alone. -/
def Cache.flush (cache : Cache B C) (block : B) : Cache B C :=
  if cache.dirty block then
    { cache with
      disk := Function.update cache.disk block (cache.bufs block)
      dirty := Function.update cache.dirty block false }
  else cache

/-- What an operation does to the buffers, whatever is on the disk. -/
def Op.onBufs : Op B C → (B → C) → B → C
  | .write block _ _ content, bufs => Function.update bufs block content
  | .markDirty _, bufs => bufs
  | .sync _, bufs => bufs

def Op.apply : Op B C → Cache B C → Cache B C
  | .write block _ _ content, cache =>
      { cache with bufs := Function.update cache.bufs block content }
  | .markDirty block, cache => { cache with dirty := Function.update cache.dirty block true }
  | .sync block, cache => cache.flush block

/-- The operations run in order; before, between and after them the kernel may write
back any dirty buffer. -/
inductive Exec : Cache B C → List (Op B C) → Cache B C → Prop where
  | done (cache : Cache B C) : Exec cache [] cache
  | step {cache last : Cache B C} {op : Op B C} {ops : List (Op B C)}
      (rest : Exec (op.apply cache) ops last) : Exec cache (op :: ops) last
  | writeBack {cache last : Cache B C} {ops : List (Op B C)} (block : B)
      (rest : Exec (cache.flush block) ops last) : Exec cache ops last

/-- The run in which the kernel writes back nothing of its own accord. -/
theorem Exec.straight (cache : Cache B C) (ops : List (Op B C)) :
    Exec cache ops (ops.foldl (fun cache op => op.apply cache) cache) := by
  induction ops generalizing cache with
  | nil => exact .done cache
  | cons op rest ih => exact .step (ih (op.apply cache))

@[simp] theorem flush_bufs (cache : Cache B C) (block : B) :
    (cache.flush block).bufs = cache.bufs := by
  unfold Cache.flush
  split <;> rfl

@[simp] theorem apply_bufs (op : Op B C) (cache : Cache B C) :
    (op.apply cache).bufs = op.onBufs cache.bufs := by
  cases op with
  | write block offset length content => rfl
  | markDirty block => rfl
  | sync block => exact flush_bufs cache block

theorem flush_disk (cache : Cache B C) (block other : B) :
    (cache.flush block).disk other = cache.disk other ∨
      (cache.flush block).disk other = cache.bufs other := by
  unfold Cache.flush
  split
  · by_cases same : other = block
    · subst same
      exact Or.inr (Function.update_self ..)
    · exact Or.inl (Function.update_of_ne same ..)
  · exact Or.inl rfl

/-- The buffers do not depend on what the kernel writes back. -/
theorem Exec.bufs_eq {cache last : Cache B C} {ops : List (Op B C)}
    (run : Exec cache ops last) :
    last.bufs = ops.foldl (fun bufs op => op.onBufs bufs) cache.bufs := by
  induction run with
  | done cache => rfl
  | step rest ih => simpa only [List.foldl_cons, apply_bufs] using ih
  | writeBack block rest ih => simpa only [flush_bufs] using ih

/-- A run of two programs in a row stops somewhere between them. -/
theorem Exec.split {cache last : Cache B C} {first second : List (Op B C)}
    (run : Exec cache (first ++ second) last) :
    ∃ middle, Exec cache first middle ∧ Exec middle second last := by
  generalize whole : first ++ second = ops at run
  induction run generalizing first with
  | done cache =>
      obtain ⟨rfl, rfl⟩ := List.append_eq_nil_iff.mp whole
      exact ⟨cache, .done cache, .done cache⟩
  | @step cache last op ops rest ih =>
      cases first with
      | nil =>
          rw [List.nil_append] at whole
          subst whole
          exact ⟨cache, .done cache, .step rest⟩
      | cons head tail =>
          obtain ⟨rfl, same⟩ := List.cons.inj whole
          obtain ⟨middle, left, right⟩ := ih same
          exact ⟨middle, .step left, right⟩
  | writeBack block rest ih =>
      obtain ⟨middle, left, right⟩ := ih whole
      exact ⟨middle, .writeBack block left, right⟩

/-- The contents a program gives to the buffer of one block, in order. -/
def versions (block : B) : List (Op B C) → List C
  | [] => []
  | .write other _ _ content :: rest =>
      if other = block then content :: versions block rest else versions block rest
  | .markDirty _ :: rest => versions block rest
  | .sync _ :: rest => versions block rest

/-- A block on the disk holds what it held before, or something its buffer has held. -/
theorem Exec.disk_version {cache last : Cache B C} {ops : List (Op B C)}
    (run : Exec cache ops last) (block : B) :
    last.disk block = cache.disk block ∨ last.disk block = cache.bufs block ∨
      last.disk block ∈ versions block ops := by
  induction run with
  | done cache => exact Or.inl rfl
  | @step cache last op ops rest ih =>
      cases op with
      | write other offset length content =>
          by_cases same : other = block
          · subst same
            simp only [Op.apply, Function.update_self] at ih
            simp only [versions, ↓reduceIte, List.mem_cons]
            rcases ih with old | new | later
            · exact Or.inl old
            · exact Or.inr (Or.inr (Or.inl new))
            · exact Or.inr (Or.inr (Or.inr later))
          · simp only [Op.apply, Function.update_of_ne (Ne.symm same)] at ih
            simpa only [versions, same, ↓reduceIte] using ih
      | markDirty other => exact ih
      | sync other =>
          simp only [Op.apply, flush_bufs] at ih
          rcases ih with old | new | later
          · rcases flush_disk cache other block with kept | written
            · exact Or.inl (old.trans kept)
            · exact Or.inr (Or.inl (old.trans written))
          · exact Or.inr (Or.inl new)
          · exact Or.inr (Or.inr later)
  | @writeBack cache last ops other rest ih =>
      simp only [flush_bufs] at ih
      rcases ih with old | new | later
      · rcases flush_disk cache other block with kept | written
        · exact Or.inl (old.trans kept)
        · exact Or.inr (Or.inl (old.trans written))
      · exact Or.inr (Or.inl new)
      · exact Or.inr (Or.inr later)

/-- A block the program writes nowhere: on the disk it is old or its buffer. -/
theorem Exec.disk_unwritten {cache last : Cache B C} {ops : List (Op B C)}
    (run : Exec cache ops last) (block : B) (unwritten : versions block ops = []) :
    last.disk block = cache.disk block ∨ last.disk block = cache.bufs block := by
  rcases run.disk_version block with old | new | later
  · exact Or.inl old
  · exact Or.inr new
  · rw [unwritten] at later
    cases later

theorem versions_append (block : B) (first second : List (Op B C)) :
    versions block (first ++ second) = versions block first ++ versions block second := by
  induction first with
  | nil => rfl
  | cons op rest ih =>
      cases op with
      | write other offset length content =>
          by_cases same : other = block
          · simp only [List.cons_append, versions, same, ↓reduceIte, ih]
          · simp only [List.cons_append, versions, same, ↓reduceIte, ih]
      | markDirty other => exact ih
      | sync other => exact ih

/-- A cut program has written at most what the whole program writes. -/
theorem mem_versions_of_cut {block : B} {cut ops : List (Op B C)} {content : C}
    (before : cut <+: ops) (member : content ∈ versions block cut) :
    content ∈ versions block ops := by
  obtain ⟨rest, rfl⟩ := before
  rw [versions_append]
  exact List.mem_append_left _ member

/-- Between marking a buffer dirty and its next write, either it is still dirty or the
disk already has it. -/
def Settling (block : B) (cache : Cache B C) : Prop :=
  cache.dirty block = true ∨ cache.disk block = cache.bufs block

theorem Settling.flush {block : B} {cache : Cache B C} (settling : Settling block cache)
    (other : B) : Settling block (cache.flush other) := by
  unfold Cache.flush
  split
  · by_cases same : block = other
    · subst same
      exact Or.inr (Function.update_self ..)
    · simpa only [Settling, Function.update_of_ne same] using settling
  · exact settling

theorem Settling.sync {block : B} {cache : Cache B C} (settling : Settling block cache) :
    (cache.flush block).disk block = cache.bufs block := by
  unfold Cache.flush
  split
  · exact Function.update_self ..
  · rename_i clean
    exact settling.resolve_left clean

theorem Settling.exec {block : B} {cache last : Cache B C} {ops : List (Op B C)}
    (run : Exec cache ops last) (settling : Settling block cache)
    (unwritten : versions block ops = []) : Settling block last := by
  induction run with
  | done cache => exact settling
  | @step cache last op ops rest ih =>
      cases op with
      | write other offset length content =>
          by_cases same : other = block
          · simp only [versions, same, ↓reduceIte, reduceCtorEq] at unwritten
          · simp only [versions, same, ↓reduceIte] at unwritten
            apply ih _ unwritten
            simpa only [Settling, Op.apply, Function.update_of_ne (Ne.symm same)] using settling
      | markDirty other =>
          apply ih _ unwritten
          by_cases same : block = other
          · subst same
            exact Or.inl (Function.update_self ..)
          · simpa only [Settling, Op.apply, Function.update_of_ne same] using settling
      | sync other => exact ih (settling.flush other) unwritten
  | writeBack other rest ih => exact ih (settling.flush other) unwritten

/-- Once a block is on the disk, it stays there until its buffer is written again. -/
theorem Exec.disk_stable {cache last : Cache B C} {ops : List (Op B C)}
    (run : Exec cache ops last) (block : B) (unwritten : versions block ops = [])
    (same : cache.disk block = cache.bufs block) : last.disk block = cache.bufs block := by
  rcases run.disk_unwritten block unwritten with old | new
  · exact old.trans same
  · exact new

theorem Exec.bufs_unwritten {cache last : Cache B C} {ops : List (Op B C)}
    (run : Exec cache ops last) (block : B) (unwritten : versions block ops = []) :
    last.bufs block = cache.bufs block := by
  induction run with
  | done cache => rfl
  | @step cache last op ops rest ih =>
      cases op with
      | write other offset length content =>
          by_cases same : other = block
          · simp only [versions, same, ↓reduceIte, reduceCtorEq] at unwritten
          · simp only [versions, same, ↓reduceIte] at unwritten
            rw [ih unwritten]
            exact Function.update_of_ne (Ne.symm same) ..
      | markDirty other => exact ih unwritten
      | sync other => simpa only [Op.apply, flush_bufs] using ih unwritten
  | writeBack other rest ih => simpa only [flush_bufs] using ih unwritten

theorem Exec.settling {cache last : Cache B C} {block : B} {ops : List (Op B C)}
    (run : Exec cache (.markDirty block :: ops) last) (unwritten : versions block ops = []) :
    Settling block last := by
  generalize whole : Op.markDirty block :: ops = all at run
  induction run with
  | done cache => cases whole
  | step rest ih =>
      obtain ⟨rfl, rfl⟩ := List.cons.inj whole
      exact Settling.exec rest (Or.inl (Function.update_self ..)) unwritten
  | writeBack other rest ih => exact ih whole

theorem Exec.after_sync {cache last : Cache B C} {block : B} {ops : List (Op B C)}
    (run : Exec cache (.sync block :: ops) last) (settling : Settling block cache)
    (unwritten : versions block ops = []) : last.disk block = cache.bufs block := by
  generalize whole : Op.sync block :: ops = all at run
  induction run with
  | done cache => cases whole
  | step rest ih =>
      obtain ⟨rfl, rfl⟩ := List.cons.inj whole
      simp only [Op.apply] at rest
      rw [rest.disk_stable block unwritten (settling.sync.trans (by rw [flush_bufs])), flush_bufs]
  | writeBack other rest ih =>
      rw [ih (settling.flush other) whole, flush_bufs]

/-- `mark_buffer_dirty` and later `sync_dirty_buffer`: the block is on the disk. -/
theorem Exec.disk_synced {cache last : Cache B C} {block : B} {middle rest : List (Op B C)}
    (run : Exec cache (.markDirty block :: middle ++ .sync block :: rest) last)
    (between : versions block middle = []) (after : versions block rest = []) :
    last.disk block = cache.bufs block := by
  obtain ⟨before, left, right⟩ := run.split
  rw [right.after_sync (left.settling between) after]
  exact left.bufs_unwritten block between

/-- A run cut short leaves on the disk what was there, or something the buffer held. -/
theorem Exec.disk_cut {cache last : Cache B C} {cut ops : List (Op B C)}
    (run : Exec cache cut last) (before : cut <+: ops) (block : B) :
    last.disk block = cache.disk block ∨ last.disk block = cache.bufs block ∨
      last.disk block ∈ versions block ops := by
  rcases run.disk_version block with old | new | later
  · exact Or.inl old
  · exact Or.inr (Or.inl new)
  · exact Or.inr (Or.inr (mem_versions_of_cut before later))

/-- A cut of two programs in a row falls into the first, or into the second after all of
the first. -/
theorem cut_append {α : Type} {cut first second : List α} (before : cut <+: first ++ second) :
    cut <+: first ∨ ∃ rest, cut = first ++ rest ∧ rest <+: second := by
  rcases List.prefix_or_prefix_of_prefix before (List.prefix_append first second) with
    early | ⟨rest, rfl⟩
  · exact Or.inl early
  · exact Or.inr ⟨rest, rfl, (List.prefix_append_right_inj first).mp before⟩

/-- The write of one block that is on the disk before the program goes on. -/
def commit (block : B) (offset length : Nat) (content : C) : List (Op B C) :=
  [.write block offset length content, .markDirty block, .sync block]

theorem versions_commit_self (block : B) (offset length : Nat) (content : C) :
    versions block (commit block offset length content) = [content] := by
  simp only [commit, versions, ↓reduceIte]

theorem versions_commit_other {block other : B} (apart : other ≠ block) (offset length : Nat)
    (content : C) : versions other (commit block offset length content) = [] := by
  simp only [commit, versions, if_neg (Ne.symm apart)]

theorem commit_bufs {cache last : Cache B C} {block : B} {offset length : Nat} {content : C}
    (run : Exec cache (commit block offset length content) last) :
    last.bufs = Function.update cache.bufs block content :=
  run.bufs_eq

theorem commit_disk_self {cache last : Cache B C} {block : B} {offset length : Nat} {content : C}
    (run : Exec cache (commit block offset length content) last) : last.disk block = content := by
  obtain ⟨written, first, rest⟩ := Exec.split
    (show Exec cache ([.write block offset length content] ++ [.markDirty block, .sync block]) last
      from run)
  have synced := Exec.disk_synced
    (show Exec written (.markDirty block :: [] ++ .sync block :: []) last from rest) rfl rfl
  rw [synced, first.bufs_eq]
  exact Function.update_self ..

theorem commit_disk_other {cache last : Cache B C} {block other : B} (apart : other ≠ block)
    {offset length : Nat} {content : C}
    (run : Exec cache (commit block offset length content) last) :
    last.disk other = cache.disk other ∨ last.disk other = cache.bufs other :=
  run.disk_unwritten other (versions_commit_other apart offset length content)

end Ve482.WriteBack
