/-
# The shortest decimal that reads back

The decimal digits of a finite number are the fewest that still round to it; among those of
that length the ones nearest to its exact value are taken, an exact tie going to the even
last digit.  Everything is decided in exact arithmetic on the rounding interval of the number.
-/
import Pseudocode.Number.Basic

namespace Pseudocode.Number

/-- A positive decimal `0.d₁d₂…dₙ * 10 ^ point`, its digits read as one natural number. -/
structure Decimal where
  digits : Nat
  point : Int
deriving DecidableEq, Repr, Inhabited

/-- Four times a positive number and the two ends of its rounding interval, as numerators over
a common denominator: the value, the lower end and the upper end. -/
structure Interval where
  value : Nat
  lower : Nat
  upper : Nat
  den : Nat
  /-- Whether the ends themselves round to the number. -/
  closed : Bool

/-- The rounding interval of `m * 2 ^ e`: half a unit above, and half a unit below, or a
quarter where the next smaller number has a smaller exponent. -/
def Interval.of (m : Nat) (e : Int) : Interval :=
  let up := e.toNat
  let below := if m = mantissaBound / 2 ∧ minExponent < e then 1 else 2
  { value := (4 * m) <<< up
    lower := (4 * m - below) <<< up
    upper := (4 * m + 2) <<< up
    den := 4 <<< (-e).toNat
    closed := m % 2 = 0 }

/-- Whether `c * 10 ^ q` rounds to the number of the interval. -/
def Interval.holds (i : Interval) (c : Nat) (q : Int) : Bool :=
  let x := c * Nat.pow 10 q.toNat * i.den
  let s := Nat.pow 10 (-q).toNat
  if i.closed then i.lower * s ≤ x && x ≤ i.upper * s else i.lower * s < x && x < i.upper * s

/-- The least `k` with `value < 10 ^ k`, counted up or down from an estimate. -/
def Interval.pointFrom (i : Interval) : Nat → Int → Int
  | 0, k => k
  | fuel + 1, k =>
      if Nat.pow 10 k.toNat * i.den ≤ i.value * Nat.pow 10 (-k).toNat then i.pointFrom fuel (k + 1)
      else if i.value * Nat.pow 10 (-(k - 1)).toNat < Nat.pow 10 (k - 1).toNat * i.den then
        i.pointFrom fuel (k - 1)
      else k

/-- The position of the decimal point of the value: it is at least `10 ^ (point - 1)` and below
`10 ^ point`. -/
def Interval.point (i : Interval) : Int :=
  let bits : Int := (i.value.log2 : Int) - (i.den.log2 : Int)
  i.pointFrom 16 (bits * 30103 / 100000)

/-- The candidate of `n` digits that rounds to the number, if there is one. -/
def Interval.atLength? (i : Interval) (point : Int) (n : Nat) : Option Decimal :=
  let q := point - n
  let num := i.value * Nat.pow 10 (-q).toNat
  let den := i.den * Nat.pow 10 q.toNat
  let c := num / den
  let r := num % den
  let down := i.holds c q
  let up := i.holds (c + 1) q
  let pick (c : Nat) : Option Decimal :=
    -- a carry into a new digit moves the point
    if c = Nat.pow 10 n then some ⟨Nat.pow 10 (n - 1), point + 1⟩ else some ⟨c, point⟩
  if down && up then
    if 2 * r < den then pick c
    else if den < 2 * r then pick (c + 1)
    else if c % 2 = 0 then pick c else pick (c + 1)
  else if down then pick c
  else if up then pick (c + 1)
  else none

/-- The first length at which a candidate exists. -/
def Interval.search (i : Interval) (point : Int) : Nat → Nat → Decimal
  | 0, n => ⟨i.value * Nat.pow 10 (n - point).toNat / i.den, point⟩
  | fuel + 1, n =>
      match i.atLength? point n with
      | some d => d
      | none => i.search point fuel (n + 1)

/-- The digit characters of a decimal, trailing zeros dropped. -/
def Decimal.chars (d : Decimal) : List Char :=
  ((Nat.toDigits 10 d.digits).reverse.dropWhile (· == '0')).reverse

/-- The shortest decimal of the positive number `m * 2 ^ e`. -/
def shortest (m : Nat) (e : Int) : Decimal :=
  let i := Interval.of m e
  i.search i.point 17 1

end Pseudocode.Number
