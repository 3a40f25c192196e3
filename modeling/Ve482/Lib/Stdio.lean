import Ve482.Lib.CString

set_option autoImplicit false

namespace Ve482.Stdio

open CString

variable {ι : Type} [DecidableEq ι]

/-- What the files hold; `none` where there is no file. -/
abbrev Disk (ι : Type) : Type := ι → Option Text

/-- A stream that was opened for writing: where its next `write` goes, and the bytes that are
still in its buffer. -/
structure Stream (ι : Type) where
  file : ι
  offset : Nat
  pending : Text

/-- `write` at an offset; what lies between the end of the file and the offset reads as zero. -/
def overwrite (content : Text) (offset : Nat) (text : Text) : Text :=
  content.take offset ++ List.replicate (offset - content.length) 0 ++ text ++
    content.drop (offset + text.length)

/-- Empties the buffer into the file. -/
def fflush (stream : Stream ι) (disk : Disk ι) : Stream ι × Disk ι :=
  if stream.pending = [] then (stream, disk)
  else
    (⟨stream.file, stream.offset + stream.pending.length, []⟩,
      Function.update disk stream.file
        (some (overwrite ((disk stream.file).getD []) stream.offset stream.pending)))

/-- `fopen(file, "w")` -/
def fopen (file : ι) (disk : Disk ι) : Stream ι × Disk ι :=
  (⟨file, 0, []⟩, Function.update disk file (some []))

/-- Puts one byte into a buffer of `bufSize` bytes, which goes to the file when it is full. -/
def fputc (bufSize : Nat) (c : UInt8) (stream : Stream ι) (disk : Disk ι) : Stream ι × Disk ι :=
  let stream := { stream with pending := stream.pending ++ [c] }
  if bufSize ≤ stream.pending.length then fflush stream disk else (stream, disk)

def fputs (bufSize : Nat) : Text → Stream ι → Disk ι → Stream ι × Disk ι
  | [], stream, disk => (stream, disk)
  | c :: text, stream, disk =>
      let (stream, disk) := fputc bufSize c stream disk
      fputs bufSize text stream disk

/-- What `exit` does to the streams that are still open, in this order. -/
def closeAll : List (Stream ι) → Disk ι → Disk ι
  | [], disk => disk
  | stream :: rest, disk => closeAll rest (fflush stream disk).2

theorem overwrite_end (content text : Text) :
    overwrite content content.length text = content ++ text := by
  simp [overwrite]

/-- The stream stands at the end of its file. -/
structure AtEnd (stream : Stream ι) (disk : Disk ι) (content : Text) : Prop where
  held : disk stream.file = some content
  offset : stream.offset = content.length

theorem AtEnd.fflush {stream : Stream ι} {disk : Disk ι} {content : Text}
    (atEnd : AtEnd stream disk content) :
    (Stdio.fflush stream disk).2 =
      Function.update disk stream.file (some (content ++ stream.pending)) := by
  rw [Stdio.fflush]
  by_cases empty : stream.pending = []
  · rw [if_pos empty, empty, List.append_nil, ← atEnd.held, Function.update_eq_self]
  · rw [if_neg empty, atEnd.held, atEnd.offset, Option.getD_some, overwrite_end]

/-- What a stream at the end of its file has taken is in the file or in the buffer. -/
theorem AtEnd.fputs (bufSize : Nat) (text : Text) {stream : Stream ι} {disk : Disk ι}
    {content : Text} (atEnd : AtEnd stream disk content) :
    ∃ written pending, content ++ stream.pending ++ text = written ++ pending ∧
      Stdio.fputs bufSize text stream disk =
        (⟨stream.file, written.length, pending⟩,
          Function.update disk stream.file (some written)) := by
  induction text generalizing stream disk content with
  | nil =>
      refine ⟨content, stream.pending, List.append_nil _, ?_⟩
      rw [Stdio.fputs, ← atEnd.offset, ← atEnd.held, Function.update_eq_self]
  | cons c text ih =>
      rw [Stdio.fputs, fputc]
      by_cases full : bufSize ≤ (stream.pending ++ [c]).length
      · have flushed : Stdio.fflush { stream with pending := stream.pending ++ [c] } disk =
            (⟨stream.file, stream.offset + (stream.pending ++ [c]).length, []⟩,
              Function.update disk stream.file (some (content ++ (stream.pending ++ [c])))) := by
          rw [Stdio.fflush, if_neg (by simp)]
          simp only [atEnd.held, atEnd.offset, Option.getD_some, overwrite_end]
        have next : AtEnd (⟨stream.file, stream.offset + (stream.pending ++ [c]).length, []⟩ :
            Stream ι) (Function.update disk stream.file (some (content ++ (stream.pending ++ [c]))))
            (content ++ (stream.pending ++ [c])) :=
          ⟨Function.update_self _ _ _, by simp only [List.length_append, atEnd.offset]⟩
        obtain ⟨written, pending, whole, result⟩ := ih next
        refine ⟨written, pending, ?_, ?_⟩
        · rw [← whole]
          simp
        · simp only [full, if_true, flushed, result, Function.update_idem]
      · have next : AtEnd { stream with pending := stream.pending ++ [c] } disk content :=
          ⟨atEnd.held, atEnd.offset⟩
        obtain ⟨written, pending, whole, result⟩ := ih next
        refine ⟨written, pending, ?_, ?_⟩
        · rw [← whole]
          simp
        · simp only [full, if_false, result]

structure Mirrors (streams : List (Stream ι)) (disk whole : Disk ι) : Prop where
  tails : ∀ stream ∈ streams, stream.pending ≠ [] →
    ∃ content, AtEnd stream disk content ∧ whole stream.file = some (content ++ stream.pending)
  others : ∀ file, (∀ stream ∈ streams, stream.pending ≠ [] → stream.file ≠ file) →
    whole file = disk file
  apart : streams.Pairwise fun first second =>
    first.pending ≠ [] → second.pending ≠ [] → first.file ≠ second.file

omit [DecidableEq ι] in
theorem Mirrors.refl (disk : Disk ι) : Mirrors [] disk disk :=
  ⟨by simp, fun _ _ => rfl, .nil⟩

omit [DecidableEq ι] in
theorem Mirrors.perm {streams closing : List (Stream ι)} {disk whole : Disk ι}
    (mirrors : Mirrors streams disk whole) (perm : closing.Perm streams) :
    Mirrors closing disk whole := by
  refine ⟨fun stream inside => mirrors.tails stream (perm.mem_iff.mp inside), ?_, ?_⟩
  · intro file free
    exact mirrors.others file fun stream inside => free stream (perm.mem_iff.mpr inside)
  · refine (perm.pairwise_iff ?_).mpr mirrors.apart
    intro first second apart left right same
    exact apart right left same.symm

/-- A new file appears, whole without buffers and in two parts with them. -/
theorem Mirrors.opened {streams : List (Stream ι)} {disk whole : Disk ι}
    (mirrors : Mirrors streams disk whole) {file : ι}
    (free : ∀ stream ∈ streams, stream.pending ≠ [] → stream.file ≠ file) (written pending : Text) :
    Mirrors (⟨file, written.length, pending⟩ :: streams)
      (Function.update disk file (some written))
      (Function.update whole file (some (written ++ pending))) := by
  constructor
  · intro stream inside left
    rcases List.mem_cons.mp inside with rfl | inside
    · exact ⟨written, ⟨Function.update_self _ _ _, rfl⟩, Function.update_self _ _ _⟩
    · obtain ⟨content, atEnd, ends⟩ := mirrors.tails stream inside left
      have other := free stream inside left
      exact ⟨content, ⟨(Function.update_of_ne other _ _).trans atEnd.held, atEnd.offset⟩,
        (Function.update_of_ne other _ _).trans ends⟩
  · intro other unwritten
    by_cases same : other = file
    · subst same
      have none : pending = [] := by
        by_contra left
        exact unwritten _ List.mem_cons_self left rfl
      rw [Function.update_self, Function.update_self, none, List.append_nil]
    · rw [Function.update_of_ne same, Function.update_of_ne same]
      exact mirrors.others other fun stream inside =>
        unwritten stream (List.mem_cons_of_mem _ inside)
  · refine List.pairwise_cons.mpr ⟨?_, mirrors.apart⟩
    intro stream inside _ left same
    exact free stream inside left same.symm

/-- In whatever order `exit` flushes, the files end as they would be without buffers. -/
theorem Mirrors.closeAll {streams : List (Stream ι)} {disk whole : Disk ι}
    (mirrors : Mirrors streams disk whole) : Stdio.closeAll streams disk = whole := by
  induction streams generalizing disk with
  | nil =>
      funext file
      exact (mirrors.others file (by simp)).symm
  | cons stream streams ih =>
      obtain ⟨first, others⟩ := List.pairwise_cons.mp mirrors.apart
      apply ih
      by_cases empty : stream.pending = []
      · rw [fflush, if_pos empty]
        refine ⟨fun other inside => mirrors.tails other (List.mem_cons_of_mem _ inside), ?_, others⟩
        intro file free
        refine mirrors.others file ?_
        intro other inside left
        rcases List.mem_cons.mp inside with rfl | inside
        · exact absurd empty left
        · exact free other inside left
      · obtain ⟨content, atEnd, ends⟩ := mirrors.tails stream List.mem_cons_self empty
        rw [atEnd.fflush]
        refine ⟨?_, ?_, others⟩
        · intro other inside left
          obtain ⟨held, atEnd', ends'⟩ := mirrors.tails other (List.mem_cons_of_mem _ inside) left
          have elsewhere : other.file ≠ stream.file := (first other inside empty left).symm
          exact ⟨held, ⟨(Function.update_of_ne elsewhere _ _).trans atEnd'.held, atEnd'.offset⟩,
            ends'⟩
        · intro file free
          by_cases same : file = stream.file
          · rw [same, Function.update_self, ends]
          · rw [Function.update_of_ne same]
            refine mirrors.others file ?_
            intro other inside left
            rcases List.mem_cons.mp inside with rfl | inside
            · exact Ne.symm same
            · exact free other inside left

end Ve482.Stdio
