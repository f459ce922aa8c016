/-
# The part of a stream that is in view

A stream comes into view in pieces of whole characters and of at most 512 bytes.  A piece with a
character that is not allowed comes into view up to that character, and no further.  At the end
of the stream there is one more character to be seen each time one is asked for.
-/
import Pseudocode.Yaml.Token

namespace Pseudocode.Yaml

/-- A piece of a stream. -/
structure Piece where
  /-- How many characters there are up to the end of the piece. -/
  stop : Nat
  /-- Whether a character that is not allowed stands there. -/
  broken : Bool := false
deriving DecidableEq, Repr, Inhabited

/-- The size of a piece in bytes. -/
def pieceSize : Nat := 512

/-- The pieces of the characters from an index on; `room` is what is left of the first one. -/
def piecesFrom : (room index : Nat) → List Char → List Piece
  | _, index, [] => [⟨index, false⟩]
  | room, index, c :: rest =>
      let fits := c.utf8Size ≤ room
      let more :=
        if isAllowed c then
          piecesFrom ((if fits then room else pieceSize) - c.utf8Size) (index + 1) rest
        else [⟨index, true⟩]
      if fits then more else ⟨index, false⟩ :: more

/-- The character that marks the order of bytes. -/
def isByteOrderMark (c : Char) : Bool := c.toNat == 0xFEFF

/-- What of a stream is in view. -/
structure View where
  /-- How many characters have come into view. -/
  shown : Nat := 0
  /-- The pieces that are not in view yet. -/
  pieces : List Piece := []
  /-- Whether the view began with a byte order mark when it was last moved. -/
  marked : Bool := false
  /-- Whether a character that is not allowed was met where none was needed. -/
  spoiled : Bool := false
deriving Repr, Inhabited

namespace View

/-- Brings pieces into view until `target` characters are; tells whether that can be done. -/
def advance (target : Nat) : (shown : Nat) → List Piece → Nat × List Piece × Bool
  | shown, [] => (shown + 1, [], true)
  | _, p :: rest =>
      if p.broken then (p.stop, p :: rest, false)
      else if target ≤ p.stop then (p.stop, rest, true)
      else advance target p.stop rest

/-- Moves the view to the rest of the stream, and makes it reach to `target` characters. -/
def reach (v : View) (target : Nat) (rest : List Char) : View × Bool :=
  if target ≤ v.shown then (v, true)
  else
    let (shown, pieces, ok) := advance target v.shown v.pieces
    ({ v with shown, pieces, marked := rest.head?.any isByteOrderMark }, ok)

end View

end Pseudocode.Yaml
