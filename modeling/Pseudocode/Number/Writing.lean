/-
# The text of a number

Numbers are written with the shortest digits that read back.  Magnitudes from `10 ^ -6` up to
`10 ^ 21` are written positionally; all others have one digit before the point and an exponent
with a sign and at least two digits.
-/
import Pseudocode.Number.Shortest

namespace Pseudocode.Number

/-- Digits with the point after the first `point` of them, zeros filling the gaps. -/
def positional (digits : List Char) (point : Int) : List Char :=
  if point ≤ 0 then
    '0' :: '.' :: (List.replicate (-point).toNat '0' ++ digits)
  else
    let whole := digits.take point.toNat
    let fraction := digits.drop point.toNat
    let whole := whole ++ List.replicate (point.toNat - whole.length) '0'
    if fraction.isEmpty then whole else whole ++ '.' :: fraction

/-- An exponent: its sign and at least two digits. -/
def exponentText (e : Int) : List Char :=
  let digits := Nat.toDigits 10 e.natAbs
  (if e < 0 then '-' else '+') :: (if digits.length < 2 then '0' :: digits else digits)

/-- Digits in scientific notation, the value being `0.digits * 10 ^ point`. -/
def scientific (digits : List Char) (point : Int) : List Char :=
  digits.take 1 ++ (if digits.length ≤ 1 then [] else '.' :: digits.drop 1)
    ++ 'e' :: exponentText (point - 1)

/-- Whether a magnitude `0.d… * 10 ^ point` is written positionally. -/
def isPositional (point : Int) : Bool := -6 < point && point ≤ 21

/-- The text of a magnitude. -/
def magnitude (m : Nat) (e : Int) : List Char :=
  if m = 0 then ['0']
  else
    let d := shortest m e
    if isPositional d.point then positional d.chars d.point else scientific d.chars d.point

/-- The text of a number. -/
def format : Number → String
  | .nan => "NaN"
  | .infinity false => "Infinity"
  | .infinity true => "-Infinity"
  | .finite s m e _ => String.ofList ((if s then ['-'] else []) ++ magnitude m e)

end Pseudocode.Number
