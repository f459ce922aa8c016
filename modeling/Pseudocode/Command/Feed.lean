/-
# The line editor that the debugger and the program share

In step mode a line editor hands out the lines that are typed.  The debugger asks it for a line at
each pause.  The program reads through a buffer, and the buffer is filled in chunks: whatever is
left of the line that the editor handed out last, and if nothing is, the next line with a line feed
after it.
-/
import Pseudocode.Run.Console

namespace Pseudocode

/-- A line without its line feed. -/
abbrev Line := List UInt8

/-- The input that some lines make, each ended by a line feed. -/
def typed (lines : List Line) : List UInt8 := lines.flatMap (· ++ [0x0A])

/-- The lines on their way to the debugger and the program. -/
structure Feed where
  /-- The lines that the editor has not handed out. -/
  lines : List Line
  /-- What is left of the line that was handed out for the program last. -/
  pending : List UInt8 := []
  /-- What is in the buffer of the program. -/
  buffer : List UInt8 := []
deriving DecidableEq, Repr, Inhabited

/-- The two that take lines. -/
inductive Reader where
  | debugger
  | program
deriving DecidableEq, Repr, Inhabited

namespace Feed

/-- The size of the buffer in bytes. -/
def bufferSize : Nat := 4096

/-- The editor hands out the next line, if there is one. -/
def edit (f : Feed) : Option Line × Feed := (f.lines.head?, { f with lines := f.lines.tail })

/-- Hands out the next chunk, of at most so many bytes; `none` if there are no more lines. -/
def chunk? (f : Feed) (size : Nat) : Option (List UInt8 × Feed) :=
  if f.pending.isEmpty then
    match f.edit with
    | (none, _) => none
    | (some line, f) =>
        let text := line ++ [0x0A]
        some (text.take size, { f with pending := text.drop size })
  else some (f.pending.take size, { f with pending := f.pending.drop size })

/-- How many bytes have not come to the buffer. -/
def left (f : Feed) : Nat := f.pending.length + (typed f.lines).length

theorem left_chunk {f f' : Feed} {size : Nat} {bytes : List UInt8} (hsize : 0 < size)
    (h : f.chunk? size = some (bytes, f')) : f'.left < f.left := by
  unfold chunk? at h
  split at h
  · rename_i hpending
    cases hlines : f.lines with
    | nil => simp [edit, hlines] at h
    | cons line lines =>
        simp only [edit, hlines, List.head?_cons, List.tail_cons] at h
        obtain ⟨-, rfl⟩ := Prod.mk.inj (Option.some.inj h)
        simp [left, typed, hlines]
        omega
  · rename_i hpending
    obtain ⟨-, rfl⟩ := Prod.mk.inj (Option.some.inj h)
    have hne : 0 < f.pending.length := List.length_pos_iff.2 (by simpa using hpending)
    simp only [left, List.length_drop]
    omega

/-- Reads through the buffer up to a line feed, after what has been read already: what has been
read, whether the line feed was found, and the feed. -/
def readOn (f : Feed) (done : List UInt8) : List UInt8 × Bool × Feed :=
  match Console.splitLine f.buffer with
  | (piece, true, rest) => (done ++ piece, true, { f with buffer := rest })
  | (_, false, _) =>
      if _full : bufferSize ≤ f.buffer.length then readOn { f with buffer := [] } (done ++ f.buffer)
      else
        match _served : f.chunk? (bufferSize - f.buffer.length) with
        | none => (done ++ f.buffer, false, { f with buffer := [] })
        | some (bytes, f') => readOn { f' with buffer := f.buffer ++ bytes } done
termination_by (f.left, f.buffer.length)
decreasing_by
  · exact Prod.Lex.right _ (Nat.lt_of_lt_of_le (by decide) _full)
  · have hless : f'.left < f.left := left_chunk (Nat.sub_pos_of_lt (Nat.lt_of_not_le _full)) _served
    exact Prod.Lex.left _ _ hless

/-- The program asks for a line: the line as it was typed, and the answer that it gets. -/
def read (f : Feed) : Option Line × Except HostError ByteString × Feed :=
  let (raw, ended, f) := f.readOn []
  let line := Text.dropEndWhile (fun b => b == 0x0D || b == 0x0A) raw
  (if ended then some raw else none,
    if ended || !line.isEmpty then .ok (.ofList line) else .error { text := "EOF" }, f)

/-- One of the two asks for a line. -/
def serve (f : Feed) : Reader → Option Line × Feed
  | .debugger => f.edit
  | .program => ((f.read).1, (f.read).2.2)

/-- The two ask for lines in turn. -/
def serveAll : List Reader → Feed → List (Option Line) × Feed
  | [], f => ([], f)
  | r :: rs, f =>
      let (line?, f) := f.serve r
      let (lines, f) := serveAll rs f
      (line? :: lines, f)

end Feed

end Pseudocode
