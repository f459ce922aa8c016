/-
# Numbers: binary64 as exact dyadic rationals

The language has one kind of number, the 64-bit binary floating point number.  A finite
number is kept as a sign, a mantissa and an exponent, standing for `± mantissa * 2 ^ exponent`,
so that every operation can be said in exact integer arithmetic followed by one rounding to
the nearest representable number, ties going to the even mantissa.  The mantissa and the exponent
are those of the interchange format, so that there are no other numbers.

All rounding goes through `Number.ofRatio`, which rounds a quotient of two naturals.
-/

namespace Pseudocode

namespace Number

/-- Mantissas stay below this bound, which is `2 ^ 53`. -/
def mantissaBound : Nat := 9007199254740992

/-- The smallest exponent, that of the subnormal numbers and of zero. -/
def minExponent : Int := -1074

/-- The largest exponent of a finite number. -/
def maxExponent : Int := 971

/-- A mantissa and an exponent are canonical when they are those of the interchange format:
normal numbers use all 53 bits, all others have the smallest exponent. -/
structure Canonical (m : Nat) (e : Int) : Prop where
  bounded : m < mantissaBound
  least : minExponent ≤ e
  most : e ≤ maxExponent
  normal : mantissaBound ≤ 2 * m ∨ e = minExponent

instance (m : Nat) (e : Int) : Decidable (Canonical m e) :=
  decidable_of_iff
    (m < mantissaBound ∧ minExponent ≤ e ∧ e ≤ maxExponent ∧
      (mantissaBound ≤ 2 * m ∨ e = minExponent))
    ⟨fun ⟨bounded, least, most, normal⟩ => { bounded, least, most, normal },
      fun h => ⟨h.bounded, h.least, h.most, h.normal⟩⟩

end Number

/-- A number: not-a-number, an infinity, or `± mantissa * 2 ^ exponent`. -/
inductive Number where
  | nan
  | infinity (negative : Bool)
  | finite (negative : Bool) (mantissa : Nat) (exponent : Int)
      (canonical : Number.Canonical mantissa exponent)
deriving DecidableEq, Repr, Inhabited

namespace Number

/-- Zero, with the given sign. -/
def zero (negative : Bool) : Number := .finite negative 0 minExponent (by decide)

/-- `n / d` rounded to the nearest natural number, a half going to the even neighbour. -/
def roundQuotient (n d : Nat) : Nat :=
  let q := n / d
  let r := n % d
  if 2 * r < d then q
  else if d < 2 * r then q + 1
  else if q % 2 = 0 then q else q + 1

/-- The numerator and denominator of `n / d / 2 ^ e`. -/
def scale (n d : Nat) (e : Int) : Nat × Nat :=
  (n <<< (-e).toNat, d <<< e.toNat)

/-- The exponent `e` for which `n / d` has a 53-bit integer part in units of `2 ^ e`,
never below the smallest exponent. -/
def gridExponent (n d : Nat) : Int :=
  let e : Int := (n.log2 : Int) - (d.log2 : Int) - 53
  let (a, b) := scale n d e
  max minExponent (if a / b < mantissaBound then e else e + 1)

/-- The number of a mantissa of 53 bits, of fewer with the smallest exponent, or of `2 ^ 53` after
a carry.  If the exponent is too large, the number is infinite. -/
def pack (negative : Bool) (m : Nat) (e : Int) : Number :=
  let (m, e) := if m = mantissaBound then (m / 2, e + 1) else (m, e)
  if h : Canonical m e then .finite negative m e h else .infinity negative

/-- The number nearest to `± n / d`. -/
def ofRatio (negative : Bool) (n d : Nat) : Number :=
  if n = 0 then zero negative
  else
    let e := gridExponent n d
    let (a, b) := scale n d e
    pack negative (roundQuotient a b) e

/-- The number nearest to `± m * 2 ^ e`. -/
def ofScaled (negative : Bool) (m : Nat) (e : Int) : Number :=
  ofRatio negative (m <<< e.toNat) (1 <<< (-e).toNat)

/-- The number nearest to a natural number. -/
def ofNat (n : Nat) : Number := ofRatio false n 1

/-- The number nearest to an integer. -/
def ofInt (i : Int) : Number := ofRatio (i < 0) i.natAbs 1

instance (n : Nat) : OfNat Number n := ⟨Number.ofNat n⟩

def isNaN : Number → Bool
  | .nan => true
  | _ => false

def isInfinite : Number → Bool
  | .infinity _ => true
  | _ => false

def isZero : Number → Bool
  | .finite _ m _ _ => m == 0
  | _ => false

/-! ### Order -/

/-- A signed magnitude as an integer. -/
def signed (negative : Bool) (m : Nat) : Int := if negative then -(m : Int) else m

/-- The integer values of two finite numbers in units of the smaller of their exponents. -/
def align (s : Bool) (m : Nat) (e : Int) (s' : Bool) (m' : Nat) (e' : Int) : Int × Int :=
  let u := min e e'
  (signed s (m <<< (e - u).toNat), signed s' (m' <<< (e' - u).toNat))

/-- How two numbers compare; `none` when one of them is not a number. -/
def compare? : Number → Number → Option Ordering
  | .nan, _ => none
  | _, .nan => none
  | .infinity s, .infinity s' => some (if s = s' then .eq else if s then .lt else .gt)
  | .infinity s, .finite _ _ _ _ => some (if s then .lt else .gt)
  | .finite _ _ _ _, .infinity s => some (if s then .gt else .lt)
  | .finite s m e _, .finite s' m' e' _ =>
      let (a, b) := align s m e s' m' e'
      some (compare a b)

/-- Equality of values: both zeros are equal, not-a-number equals nothing. -/
def eq (a b : Number) : Bool := a.compare? b == some .eq

def lt (a b : Number) : Bool := a.compare? b == some .lt

def le (a b : Number) : Bool :=
  match a.compare? b with
  | some .lt | some .eq => true
  | _ => false

/-! ### Arithmetic -/

/-- The opposite number. -/
def neg : Number → Number
  | .nan => .nan
  | .infinity s => .infinity (!s)
  | .finite s m e h => .finite (!s) m e h

/-- The sum; an exact zero is negative only when both summands are. -/
def add : Number → Number → Number
  | .nan, _ => .nan
  | _, .nan => .nan
  | .infinity s, .infinity s' => if s = s' then .infinity s else .nan
  | .infinity s, .finite _ _ _ _ => .infinity s
  | .finite _ _ _ _, .infinity s => .infinity s
  | .finite s m e _, .finite s' m' e' _ =>
      let (a, b) := align s m e s' m' e'
      let sum := a + b
      if sum = 0 then zero (s && s') else ofScaled (sum < 0) sum.natAbs (min e e')

def sub (a b : Number) : Number := a.add b.neg

def mul : Number → Number → Number
  | .nan, _ => .nan
  | _, .nan => .nan
  | .infinity s, .infinity s' => .infinity (s != s')
  | .infinity s, .finite s' m _ _ => if m = 0 then .nan else .infinity (s != s')
  | .finite s m _ _, .infinity s' => if m = 0 then .nan else .infinity (s != s')
  | .finite s m e _, .finite s' m' e' _ => ofScaled (s != s') (m * m') (e + e')

def div : Number → Number → Number
  | .nan, _ => .nan
  | _, .nan => .nan
  | .infinity _, .infinity _ => .nan
  | .infinity s, .finite s' _ _ _ => .infinity (s != s')
  | .finite s _ _ _, .infinity s' => zero (s != s')
  | .finite s m e _, .finite s' m' e' _ =>
      if m' = 0 then (if m = 0 then .nan else .infinity (s != s'))
      else ofRatio (s != s') (m <<< (e - e').toNat) (m' <<< (e' - e).toNat)

/-- The exact remainder of a division toward zero; it has the sign of the dividend. -/
def mod : Number → Number → Number
  | .nan, _ => .nan
  | _, .nan => .nan
  | .infinity _, _ => .nan
  | .finite s m e h, .infinity _ => .finite s m e h
  | .finite s m e _, .finite _ m' e' _ =>
      if m' = 0 then .nan
      else
        let u := min e e'
        ofScaled s ((m <<< (e - u).toNat) % (m' <<< (e' - u).toNat)) u

/-! ### Integers -/

/-- The integer part of the magnitude of `m * 2 ^ e`. -/
def integerPart (m : Nat) (e : Int) : Nat := (m <<< e.toNat) >>> (-e).toNat

/-- Whether `m * 2 ^ e` is an integer. -/
def isIntegral (m : Nat) (e : Int) : Bool := integerPart m e <<< (-e).toNat == m <<< e.toNat

/-- A finite number without a fractional part. -/
def isInteger : Number → Bool
  | .finite _ m e _ => isIntegral m e
  | _ => false

/-- The integer a number stands for after cutting off its fraction; `none` if not finite. -/
def truncate? : Number → Option Int
  | .finite s m e _ => some (signed s (integerPart m e))
  | _ => none

/-- The least integer not below a finite number, with the number's sign when it is zero. -/
def ceil : Number → Number
  | .finite s m e h =>
      if isIntegral m e then .finite s m e h
      else ofRatio s (if s then integerPart m e else integerPart m e + 1) 1
  | x => x

/-- The greatest integer not above a finite number, with the number's sign when it is zero. -/
def floor : Number → Number
  | .finite s m e h =>
      if isIntegral m e then .finite s m e h
      else ofRatio s (if s then integerPart m e + 1 else integerPart m e) 1
  | x => x

/-- The largest and the smallest number of 64 bits with a sign. -/
def maxInt64 : Int := 9223372036854775807

def minInt64 : Int := -9223372036854775808

/-- Whether a number fits into 64 bits with a sign. -/
def fitsInt64 (i : Int) : Bool := minInt64 ≤ i && i ≤ maxInt64

/-- The 64-bit signed integer of a number, its fraction cut off.  Anything that does not fit,
not-a-number and the infinities included, gives the least such integer. -/
def toInt64 (x : Number) : Int :=
  match x.truncate? with
  | some i => if fitsInt64 i then i else minInt64
  | none => minInt64

end Number

end Pseudocode
