/-
# Reading lines through a buffer

Lines end with a line feed, before which one carriage return is dropped.  A line that does not
fit into the buffer is handed out in pieces, which may cut a character in two.
-/
import Pseudocode.Text.Utf8

namespace Pseudocode.Text

/-- The size of the buffer in bytes. -/
def lineBuffer : Nat := 4096

/-- Drops one carriage return at the end. -/
def dropReturn (bytes : List UInt8) : List UInt8 :=
  if bytes.getLast? == some 0x0D then bytes.dropLast else bytes

/-- A line, or a piece of one that is too long, and the bytes after it. -/
structure Line where
  text : List UInt8
  isPiece : Bool := false
  rest : List UInt8
deriving Repr, Inhabited

/-- The first line of some bytes. -/
def readLine? (bytes : List UInt8) : Option Line :=
  if bytes.isEmpty then none
  else
    let line := bytes.takeWhile (· != 0x0A)
    if lineBuffer ≤ line.length then
      let piece := dropReturn (line.take lineBuffer)
      some { text := piece, isPiece := true, rest := bytes.drop piece.length }
    else
      match bytes.drop line.length with
      | [] => some { text := line, rest := [] }
      | _ :: rest => some { text := dropReturn line, rest }

/-- The first lines of some bytes, at most as many as the fuel allows. -/
def linesUpTo : (fuel : Nat) → List UInt8 → List Line
  | 0, _ => []
  | fuel + 1, bytes =>
      match readLine? bytes with
      | none => []
      | some line => line :: linesUpTo fuel line.rest

/-- All lines of a text. -/
def lines (text : String) : List Line :=
  let bytes := encode text.toList
  linesUpTo bytes.length bytes

end Pseudocode.Text
