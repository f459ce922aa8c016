/-
# The closest known name

A misspelt name is answered with the known name nearest to it.  A candidate is considered when
the letters of the misspelt name occur in it in order, ignoring case; among those the smallest
edit distance wins, and the earlier candidate on a tie.
-/
import Pseudocode.Text.Folding

namespace Pseudocode.Text

/-- Whether the characters of the first text occur in the second, in order. -/
def isSubsequence : List Char → List Char → Bool
  | [], _ => true
  | _ :: _, [] => false
  | a :: as, b :: bs => if a == b then isSubsequence as bs else isSubsequence (a :: as) bs

/-- The next row of the edit distance table: `diagonal` is the entry up and to the left, `left`
the entry just computed. -/
def distanceRow (c : Char) : (diagonal left : Nat) → List Char → List Nat → List Nat
  | diagonal, left, b :: bs, up :: ups =>
      let best := min (min (up + 1) (left + 1)) (if b == c then diagonal else diagonal + 1)
      best :: distanceRow c up best bs ups
  | _, _, _, _ => []

/-- The number of insertions, deletions and replacements of characters that turn one text into
the other. -/
def editDistance (a b : List Char) : Nat :=
  let first := List.range (b.length + 1)
  let last := a.foldl (fun row c =>
    match row with
    | [] => []
    | d :: ups => (d + 1) :: distanceRow c d (d + 1) b ups) first
  last.getLastD 0

/-- Whether a candidate is considered for a misspelt name. -/
def isCandidate (name candidate : String) : Bool :=
  let a := folded name
  let b := folded candidate
  (encode a).length ≤ (encode b).length && isSubsequence a b

/-- The candidate closest to a misspelt name. -/
def closest? (name : String) (candidates : List String) : Option String :=
  let ranked := (candidates.filter (isCandidate name)).map fun c =>
    (editDistance name.toList c.toList, c)
  match ranked with
  | [] => none
  | first :: rest => some (rest.foldl (fun best r => if r.1 < best.1 then r else best) first).2

end Pseudocode.Text
