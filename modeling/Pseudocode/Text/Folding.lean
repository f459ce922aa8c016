/-
# Names without case

Names are compared in lower case.  The form to compare is made in blocks of a fixed number of
bytes, and it is written into a buffer that grows when it is full.  For a name that fits into one
block and keeps its size this is the lower-case form of each character.  A longer one may come out
otherwise: a character that a block cuts in two gives a replacement character for each byte, and
the character at which the buffer is found full is left out.
-/
import Pseudocode.Text.Lowercase
import Pseudocode.Text.Utf8

namespace Pseudocode.Text

/-- The size of a block, and of the buffer at the start, in bytes. -/
def foldingBlock : Nat := 128

/-- What one block gives: its lower-case characters, how many bytes of it are done with, and
whether the buffer was found full. -/
structure Folded where
  text : List Char := []
  used : Nat := 0
  isFull : Bool := false
deriving Repr, Inhabited

/-- How many bytes of a block a character is taken to have used.  The replacement character counts
as a single broken byte. -/
def usedBytes (c : Char) : Nat := if c == replacement then 1 else c.utf8Size

/-- The lower-case form of the characters of a block, as long as there is room for them. -/
def foldChars (room : Nat) : List Char → Folded
  | [] => {}
  | c :: rest =>
      let form := toLower c
      if form.utf8Size ≤ room then
        let more := foldChars (room - form.utf8Size) rest
        { more with text := form :: more.text, used := usedBytes c + more.used }
      else { used := usedBytes c, isFull := true }

/-- The lower-case form of the first block of some bytes. -/
def foldBlock (room : Nat) (bytes : List UInt8) : Folded :=
  foldChars room (decode (bytes.take foldingBlock))

/-- The size of the buffer after it has grown. -/
def grownBuffer (size : Nat) : Nat := if size ≤ 256 then size * 2 else size + size / 2

/-- The form of the bytes that are left, where `free` of the buffer's `size` bytes are still
empty. -/
def foldRest (size free : Nat) : List UInt8 → List Char
  | [] => []
  | first :: rest =>
      let block := foldBlock free (first :: rest)
      let free := free - (encode block.text).length
      let grown := if block.isFull && block.text.isEmpty then grownBuffer size else size
      block.text ++ foldRest grown (free + (grown - size)) (rest.drop (block.used - 1))
termination_by bytes => bytes.length
decreasing_by simp only [List.length_drop, List.length_cons]; omega

/-- The form of the bytes that are left after `done` bytes that are their own form.  Blocks that
are their own form are passed over; with the first that is not, the buffer comes into use. -/
def foldBytes (done : Nat) : List UInt8 → List Char
  | [] => []
  | first :: rest =>
      let block := foldBlock foldingBlock (first :: rest)
      let form := encode block.text
      let left := rest.drop (block.used - 1)
      if form == (first :: rest).take block.used && !block.isFull then
        block.text ++ foldBytes (done + block.used) left
      else
        let filled := done + form.length
        let size :=
          if done != 0 && foldingBlock < filled then filled + left.length else foldingBlock
        block.text ++ foldRest size (size - filled) left
termination_by bytes => bytes.length
decreasing_by simp only [List.length_drop, List.length_cons]; omega

/-- The form of a name in which names are compared. -/
def folded (name : String) : List Char := foldBytes 0 (encode name.toList)

end Pseudocode.Text
