/-
# One line for each who asks

The debugger and the program take lines from one editor, the program through a buffer that is
filled in chunks.  A chunk never goes beyond the line that it belongs to, and the program stops
reading at its line feed.  Hence nothing is left in the buffer when the program has its line, and
the line that the debugger asks for next is the one after it, however long the lines are.

The main results are

* `Feed.read_eq`: the program gets the next line, whole, and nothing is read ahead;
* `Feed.serveAll_eq`: those who ask for lines get them one by one, in whatever order they ask;
* `Feed.read_eq_readLine`: a console with the lines as its input answers as the buffer does.
-/
import Pseudocode.Command.Feed
import Pseudocode.Proofs.Lines

namespace Pseudocode

lemma typed_cons (line : Line) (lines : List Line) :
    typed (line :: lines) = line ++ 0x0A :: typed lines := by
  simp [typed]

@[simp] lemma typed_nil : typed [] = [] := rfl

lemma length_le_typed (lines : List Line) : lines.length ≤ (typed lines).length := by
  induction lines with
  | nil => simp
  | cons line lines ih =>
      rw [typed_cons]
      simp only [List.length_cons, List.length_append]
      omega

/-- What so many who ask for a line get in turn: each the next one, if there is one. -/
def inTurn (lines : List Line) (n : Nat) : List (Option Line) := (List.range n).map (lines[·]?)

lemma inTurn_succ (lines : List Line) (n : Nat) :
    inTurn lines (n + 1) = lines.head? :: inTurn lines.tail n := by
  simp [inTurn, List.range_succ_eq_map, List.head?_eq_getElem?, Function.comp_def]

lemma inTurn_add (lines : List Line) (m n : Nat) :
    inTurn lines (m + n) = inTurn lines m ++ inTurn (lines.drop m) n := by
  simp [inTurn, List.range_add, Function.comp_def]

namespace Console

lemma splitLine_of_not_mem {raw : List UInt8} (h : 0x0A ∉ raw) :
    splitLine raw = (raw, false, []) := by
  rcases splitLine_cases raw with ⟨piece, rest, -, hraw, -⟩ | ⟨-, hsplit⟩
  · exact absurd (by simp [hraw]) h
  · exact hsplit

lemma splitLine_append {raw : List UInt8} (h : 0x0A ∉ raw) (rest : List UInt8) :
    splitLine (raw ++ 0x0A :: rest) = (raw, true, rest) := by
  have hall : ∀ b ∈ raw, (b != 0x0A) = true := fun b hb => by
    simpa using fun e : b = 0x0A => h (e ▸ hb)
  have htake : (raw ++ 0x0A :: rest).takeWhile (· != 0x0A) = raw := by
    rw [List.takeWhile_append_of_pos hall]
    simp
  simp only [splitLine, htake, List.drop_left]

/-- With lines as the input, reading a line takes the first one. -/
lemma readLine_typed {lines : List Line} (hlines : ∀ line ∈ lines, 0x0A ∉ line) {c : Console}
    (hc : c.input = typed lines) :
    c.readLine = (delivered (lines.head?.map fun line => .ofList (stripped line)),
      { c with input := typed lines.tail }) := by
  cases lines with
  | nil =>
      have hsplit : splitLine c.input = ([], false, []) := hc ▸ rfl
      simp [readLine, hsplit, Text.dropEndWhile, delivered]
  | cons line lines =>
      have hsplit : splitLine c.input = (line, true, typed lines) := by
        rw [hc, typed_cons]
        exact splitLine_append (hlines line List.mem_cons_self) _
      simp [readLine, hsplit, delivered]
      rfl

end Console

namespace Feed

variable {lines : List Line}

/-- While a line is on its way, it is in the buffer, or its end is not there yet. -/
lemma rest_cases {f : Feed} {raw : List UInt8} (hraw : 0x0A ∉ raw)
    (h : f.buffer ++ f.pending = raw ++ [0x0A]) :
    f.pending = [] ∧ Console.splitLine f.buffer = (raw, true, []) ∨
      f.pending ≠ [] ∧ Console.splitLine f.buffer = (f.buffer, false, []) ∧
        ∃ raw', raw = f.buffer ++ raw' ∧ f.pending = raw' ++ [0x0A] := by
  rcases List.eq_nil_or_concat f.pending with hnil | ⟨raw', b, hlast⟩
  · rw [hnil, List.append_nil] at h
    exact .inl ⟨hnil, h ▸ Console.splitLine_append hraw []⟩
  · rw [List.concat_eq_append] at hlast
    rw [hlast, ← List.append_assoc] at h
    obtain ⟨rfl, hb⟩ := List.append_inj' h rfl
    obtain rfl : b = 0x0A := by simpa using hb
    refine .inr ⟨by simp [hlast], Console.splitLine_of_not_mem fun hmem => ?_, raw', rfl, hlast⟩
    exact hraw (List.mem_append_left _ hmem)

/-- Without a line feed in the buffer and with room in it, the program is served. -/
lemma readOn_of_served {f f' : Feed} {done bytes : List UInt8}
    (hsplit : Console.splitLine f.buffer = (f.buffer, false, []))
    (hroom : ¬ bufferSize ≤ f.buffer.length)
    (hserved : f.chunk? (bufferSize - f.buffer.length) = some (bytes, f')) :
    f.readOn done = { f' with buffer := f.buffer ++ bytes }.readOn done := by
  rw [readOn, hsplit]
  simp only [dif_neg hroom]
  split
  · rename_i hnone
    simp [hnone] at hserved
  · rename_i bytes f' hsome
    obtain ⟨rfl, rfl⟩ := Prod.mk.inj (Option.some.inj (hsome.symm.trans hserved))
    rfl

/-- When the rest of a line is on its way, the program reads it, and no more. -/
lemma readOn_of_rest (f : Feed) (done : List UInt8) {raw : List UInt8} (hraw : 0x0A ∉ raw)
    (h : f.buffer ++ f.pending = raw ++ [0x0A]) :
    f.readOn done = (done ++ raw, true, { lines := f.lines }) := by
  induction f, done using readOn.induct generalizing raw with
  | case1 f done piece rest hsplit =>
      rw [readOn]
      rcases rest_cases hraw h with ⟨hpending, hthere⟩ | ⟨-, hnot, -⟩
      · obtain ⟨lines, pending, buffer⟩ := f
        obtain rfl : pending = [] := hpending
        simp only at hthere ⊢
        rw [hthere]
      · simp [hnot] at hsplit
  | case2 f done piece rest hsplit hfull ih =>
      rcases rest_cases hraw h with ⟨-, hthere⟩ | ⟨-, -, raw', rfl, hpending⟩
      · simp [hthere] at hsplit
      · have hraw' : 0x0A ∉ raw' := fun hmem => hraw (List.mem_append_right _ hmem)
        rw [readOn, hsplit]
        simp only [dif_pos hfull]
        rw [ih hraw' (by simpa using hpending), List.append_assoc]
  | case3 f done piece rest hsplit hroom hnone =>
      rcases rest_cases hraw h with ⟨-, hthere⟩ | ⟨hpending, -, -⟩
      · simp [hthere] at hsplit
      · simp [chunk?, hpending] at hnone
  | case4 f done piece rest hsplit hroom bytes f' hserved ih =>
      rcases rest_cases hraw h with ⟨-, hthere⟩ | ⟨hpending, hnot, -⟩
      · simp [hthere] at hsplit
      · have hchunk : f.pending.take (bufferSize - f.buffer.length) = bytes ∧
            { f with pending := f.pending.drop (bufferSize - f.buffer.length) } = f' := by
          simpa [chunk?, hpending] using hserved
        obtain ⟨rfl, rfl⟩ := hchunk
        rw [readOn_of_served hnot hroom hserved]
        exact ih hraw (by simp [h])

/-- When nothing is on its way, the program reads the next line. -/
lemma readOn_next {line : Line} (hline : 0x0A ∉ line) :
    ({ lines := line :: lines } : Feed).readOn [] = (line, true, { lines }) := by
  have hempty : Console.splitLine [] = ([], false, []) := rfl
  rw [readOn_of_served hempty (by simp [bufferSize]) rfl,
    readOn_of_rest _ _ hline (List.take_append_drop _ _)]
  rfl

/-- Without a line the program reads nothing. -/
lemma readOn_nil : ({ lines := [] } : Feed).readOn [] = ([], false, { lines := [] }) := by
  have hempty : Console.splitLine [] = ([], false, []) := rfl
  rw [readOn]
  simp [hempty, bufferSize, chunk?, edit]

/-- The program gets the next line, however long it is, and nothing is read ahead. -/
theorem read_eq (hlines : ∀ line ∈ lines, 0x0A ∉ line) :
    ({ lines } : Feed).read.1 = lines.head? ∧
      ({ lines } : Feed).read.2.2 = { lines := lines.tail } := by
  cases lines with
  | nil => simp [read, readOn_nil]
  | cons line lines => simp [read, readOn_next (hlines line List.mem_cons_self)]

lemma serve_eq (hlines : ∀ line ∈ lines, 0x0A ∉ line) (r : Reader) :
    serve { lines } r = (lines.head?, { lines := lines.tail }) := by
  cases r with
  | debugger => rfl
  | program => exact Prod.ext (read_eq hlines).1 (read_eq hlines).2

/-- Those who ask for lines get them one by one, whoever of them asks when. -/
theorem serveAll_eq (hlines : ∀ line ∈ lines, 0x0A ∉ line) (readers : List Reader) :
    serveAll readers { lines } =
      (inTurn lines readers.length, { lines := lines.drop readers.length }) := by
  induction readers generalizing lines with
  | nil => rfl
  | cons r readers ih =>
      have htail : ∀ line ∈ lines.tail, 0x0A ∉ line := fun line h =>
        hlines line (List.mem_of_mem_tail h)
      simp only [serveAll, serve_eq hlines, ih htail, List.length_cons, inTurn_succ, List.drop_tail]

/-- A console with the lines as its input answers the program as its buffer does, and is left with
the other lines. -/
theorem read_eq_readLine (hlines : ∀ line ∈ lines, 0x0A ∉ line) {c : Console}
    (hc : c.input = typed lines) :
    ({ lines } : Feed).read.2.1 = c.readLine.1 ∧ c.readLine.2.input = typed lines.tail := by
  rw [Console.readLine_typed hlines hc]
  refine ⟨?_, rfl⟩
  cases lines with
  | nil => simp [read, readOn_nil, Text.dropEndWhile, Console.delivered]
  | cons line lines =>
      simp [read, readOn_next (hlines line List.mem_cons_self), Console.delivered]
      rfl

end Feed

end Pseudocode
