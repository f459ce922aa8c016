/-
# Rounding

A finite number stands for a rational, and what is computed with numbers is what is computed with
rationals, followed by rounding.  The numbers that can be represented form grids: up to
`2 ^ 53` times the unit of a grid all of its points are there, and above that those of the next one.
Rounding takes a point of the grid around the exact result, and no number that can be represented is
nearer.

So rounding does not step over any number that can be represented: what lies on one side of it
before is not on the other side of it afterwards.

The main results are

* `Number.nearest_ofRatio`: no number is nearer to a quotient than what it is rounded to;
* `Number.nearest_add`, `Number.nearest_ofNat`: the same for sums and integers;
* `Number.Nearest.le_of_le`, `Number.Nearest.mono`: rounding keeps the order;
* `Number.proper_ceil`, `Number.proper_floor`: these are exact.
-/
import Mathlib.Algebra.Order.Archimedean.Basic
import Mathlib.Algebra.Order.Field.Power
import Mathlib.Algebra.Order.Floor.Semifield
import Mathlib.Data.Rat.Floor
import Mathlib.Tactic.FieldSimp
import Mathlib.Tactic.Linarith
import Mathlib.Tactic.NormNum
import Mathlib.Tactic.Positivity
import Mathlib.Tactic.Ring
import Pseudocode.Number.Basic

namespace Pseudocode.Number

/-! ### Powers -/

lemma zpow_eq_div (b : ℚ) (e : Int) : b ^ e = b ^ e.toNat / b ^ (-e).toNat := by
  rcases Int.le_total 0 e with h | h
  · obtain ⟨n, rfl⟩ := Int.eq_ofNat_of_zero_le h
    simp
  · obtain ⟨n, hn⟩ := Int.eq_ofNat_of_zero_le (Int.neg_nonneg.mpr h)
    obtain rfl : e = -(n : Int) := by omega
    simp

lemma two_zpow_pos (e : Int) : (0 : ℚ) < 2 ^ e := by positivity

lemma two_zpow_add (e : Int) (k : Nat) : (2 : ℚ) ^ (e + k) = 2 ^ k * 2 ^ e := by
  rw [zpow_add₀ two_ne_zero, zpow_natCast, mul_comm]

/-- Shifting numerator and denominator multiplies by a power of two. -/
lemma shift_div_shift (a b : Nat) (e : Int) :
    ((a <<< e.toNat : Nat) : ℚ) / ((b <<< (-e).toNat : Nat) : ℚ) = a / b * 2 ^ e := by
  rw [zpow_eq_div, Nat.shiftLeft_eq, Nat.shiftLeft_eq]
  push_cast
  rw [mul_div_mul_comm]

/-! ### Rounding to an integer -/

/-- A tie goes to the even neighbour. -/
lemma roundQuotient_bounds (a : Nat) {b : Nat} (hb : 0 < b) :
    (2 * (roundQuotient a b * b) ≤ 2 * a + b ∧ 2 * a ≤ 2 * (roundQuotient a b * b) + b) ∧
      (roundQuotient a b % 2 = 1 →
        2 * (roundQuotient a b * b) < 2 * a + b ∧ 2 * a < 2 * (roundQuotient a b * b) + b) := by
  have hdiv := Nat.div_add_mod' a b
  have hmod := Nat.mod_lt a hb
  have hnext : (a / b + 1) * b = a / b * b + b := Nat.succ_mul _ _
  unfold roundQuotient
  dsimp only
  generalize a / b = q at *
  split_ifs <;> omega

lemma abs_div_sub (a q : Nat) {b : Nat} (hb : 0 < b) :
    |(a : ℚ) / b - q| = |(a : ℚ) - q * b| / b := by
  have hb' : (0 : ℚ) < b := by exact_mod_cast hb
  rw [div_sub' hb'.ne', abs_div, abs_of_pos hb', mul_comm (b : ℚ)]

/-- The integer is at most half a unit away. -/
lemma abs_sub_roundQuotient_le (a : Nat) {b : Nat} (hb : 0 < b) :
    |(a : ℚ) / b - roundQuotient a b| ≤ 1 / 2 := by
  have hb' : (0 : ℚ) < b := by exact_mod_cast hb
  obtain ⟨hlow, hhigh⟩ := (roundQuotient_bounds a hb).1
  have hlow' : 2 * ((roundQuotient a b : ℚ) * b) ≤ 2 * a + b := by exact_mod_cast hlow
  have hhigh' : 2 * (a : ℚ) ≤ 2 * (roundQuotient a b * b) + b := by exact_mod_cast hhigh
  rw [abs_div_sub a _ hb, div_le_iff₀ hb', abs_le]
  constructor <;> linarith

/-- It is less than half a unit away if it is odd. -/
lemma abs_sub_roundQuotient_lt (a : Nat) {b : Nat} (hb : 0 < b)
    (hodd : roundQuotient a b % 2 = 1) : |(a : ℚ) / b - roundQuotient a b| < 1 / 2 := by
  have hb' : (0 : ℚ) < b := by exact_mod_cast hb
  obtain ⟨hlow, hhigh⟩ := (roundQuotient_bounds a hb).2 hodd
  have hlow' : 2 * ((roundQuotient a b : ℚ) * b) < 2 * a + b := by exact_mod_cast hlow
  have hhigh' : 2 * (a : ℚ) < 2 * (roundQuotient a b * b) + b := by exact_mod_cast hhigh
  rw [abs_div_sub a _ hb, div_lt_iff₀ hb', abs_lt]
  constructor <;> linarith

/-- No integer is nearer. -/
lemma abs_sub_roundQuotient_le_abs_sub (a : Nat) {b : Nat} (hb : 0 < b) (j : Int) :
    |(a : ℚ) / b - roundQuotient a b| ≤ |(a : ℚ) / b - j| := by
  by_cases hj : j = roundQuotient a b
  · rw [hj]
    exact le_of_eq rfl
  · have hhalf := abs_sub_roundQuotient_le a hb
    have happart : (1 : ℚ) ≤ |(roundQuotient a b : ℚ) - j| := by
      exact_mod_cast Int.one_le_abs (sub_ne_zero.mpr (Ne.symm hj))
    have htriangle := abs_sub_le ((roundQuotient a b : Nat) : ℚ) ((a : ℚ) / b) j
    rw [abs_sub_comm _ ((a : ℚ) / b)] at htriangle
    linarith

/-- From a half below `2 ^ 53` on, this is what is next: the other neighbour is odd. -/
lemma roundQuotient_of_half_below {a b : Nat} (hb : 0 < b) (hlow : (2 : ℚ) ^ 53 - 1 / 2 ≤ a / b)
    (hhigh : (a : ℚ) / b < 2 ^ 53) : roundQuotient a b = mantissaBound := by
  have hb' : (0 : ℚ) < b := by exact_mod_cast hb
  rw [le_div_iff₀ hb'] at hlow
  rw [div_lt_iff₀ hb'] at hhigh
  have hhigh : a < mantissaBound * b := by
    rw [mantissaBound]
    norm_num at hhigh
    exact_mod_cast hhigh
  have hlow : mantissaBound * b * 2 ≤ 2 * a + b := by
    rw [mantissaBound]
    have hlow' : (9007199254740992 : ℚ) * b * 2 ≤ 2 * a + b := by linarith
    exact_mod_cast hlow'
  have hquotient : a / b = mantissaBound - 1 := by
    have hlow' : (mantissaBound - 1) * b ≤ a := by
      unfold mantissaBound at *
      omega
    have hhigh' : a < (mantissaBound - 1 + 1) * b := by
      unfold mantissaBound at *
      omega
    exact Nat.div_eq_of_lt_le hlow' hhigh'
  have hdiv := Nat.div_add_mod' a b
  have hrem : b ≤ 2 * (a % b) := by
    rw [hquotient] at hdiv
    unfold mantissaBound at *
    omega
  have hodd : (mantissaBound - 1) % 2 ≠ 0 := by decide
  rw [roundQuotient, hquotient, if_neg (not_lt.mpr hrem), if_neg hodd]
  split_ifs <;> rfl

/-! ### The grid -/

lemma mantissaBound_eq : (mantissaBound : ℚ) = 2 ^ 53 := by norm_num [mantissaBound]

lemma scale_div (n d : Nat) (e : Int) :
    ((scale n d e).1 : ℚ) / (scale n d e).2 = n / d / 2 ^ e := by
  have hshift := shift_div_shift n d (-e)
  rwa [neg_neg, zpow_neg, ← div_eq_mul_inv] at hshift

lemma scale_pos (n : Nat) {d : Nat} (hd : 0 < d) (e : Int) : 0 < (scale n d e).2 := by
  simp only [scale, Nat.shiftLeft_eq]
  positivity

/-- A quotient lies between the powers of two that its parts suggest. -/
lemma log2_bounds {n d : Nat} (hn : 0 < n) (hd : 0 < d) :
    (2 : ℚ) ^ ((n.log2 : Int) - d.log2 - 1) < n / d ∧
      (n : ℚ) / d < 2 ^ ((n.log2 : Int) - d.log2 + 1) := by
  have hd' : (0 : ℚ) < d := by exact_mod_cast hd
  have hnlow : (2 : ℚ) ^ n.log2 ≤ n := by exact_mod_cast Nat.log2_self_le hn.ne'
  have hdlow : (2 : ℚ) ^ d.log2 ≤ d := by exact_mod_cast Nat.log2_self_le hd.ne'
  have hnhigh : (n : ℚ) < 2 ^ (n.log2 + 1) := by exact_mod_cast Nat.lt_log2_self
  have hdhigh : (d : ℚ) < 2 ^ (d.log2 + 1) := by exact_mod_cast Nat.lt_log2_self
  have hbelow : (2 : ℚ) ^ ((n.log2 : Int) - d.log2 - 1) = 2 ^ n.log2 / 2 ^ (d.log2 + 1) := by
    rw [sub_sub, zpow_sub₀ two_ne_zero, zpow_natCast, ← Nat.cast_succ, zpow_natCast]
  have habove : (2 : ℚ) ^ ((n.log2 : Int) - d.log2 + 1) = 2 ^ (n.log2 + 1) / 2 ^ d.log2 := by
    rw [sub_add_eq_add_sub, zpow_sub₀ two_ne_zero, zpow_natCast, ← Nat.cast_succ, zpow_natCast]
  rw [hbelow, habove, div_lt_div_iff₀ (by positivity) hd', div_lt_div_iff₀ hd' (by positivity)]
  constructor
  · exact mul_lt_mul_of_le_of_lt_of_pos_of_nonneg hnlow hdhigh (by positivity) (by positivity)
  · exact mul_lt_mul_of_lt_of_le_of_nonneg_of_pos hnhigh hdlow (by positivity) (by positivity)

/-- In the units of its grid a quotient has at most 53 bits before the point, and as many unless the
units are the smallest ones. -/
lemma gridExponent_spec {n d : Nat} (hn : 0 < n) (hd : 0 < d) :
    minExponent ≤ gridExponent n d ∧ (n : ℚ) / d < 2 ^ 53 * 2 ^ gridExponent n d ∧
      (gridExponent n d = minExponent ∨ 2 ^ 52 * 2 ^ gridExponent n d ≤ (n : ℚ) / d) := by
  obtain ⟨hlow, hhigh⟩ := log2_bounds hn hd
  generalize he : (n.log2 : Int) - d.log2 - 53 = e
  rw [show (n.log2 : Int) - d.log2 - 1 = e + (52 : Nat) by omega, two_zpow_add] at hlow
  rw [show (n.log2 : Int) - d.log2 + 1 = e + (54 : Nat) by omega, two_zpow_add] at hhigh
  -- one of two exponents fits, and the quotient tells which one it is
  obtain ⟨f, hf, hflow, hfhigh⟩ : ∃ f, gridExponent n d = max minExponent f ∧
      2 ^ 52 * 2 ^ f ≤ (n : ℚ) / d ∧ (n : ℚ) / d < 2 ^ 53 * 2 ^ f := by
    have hpos := scale_pos n hd e
    have hpos' : (0 : ℚ) < (scale n d e).2 := by exact_mod_cast hpos
    have hiff : (scale n d e).1 / (scale n d e).2 < mantissaBound ↔
        (n : ℚ) / d < 2 ^ 53 * 2 ^ e := by
      rw [Nat.div_lt_iff_lt_mul hpos, ← div_lt_iff₀ (two_zpow_pos e), ← scale_div,
        div_lt_iff₀ hpos', ← mantissaBound_eq]
      exact_mod_cast Iff.rfl
    refine ⟨if (scale n d e).1 / (scale n d e).2 < mantissaBound then e else e + 1,
      by simp only [gridExponent, he], ?_⟩
    split_ifs with h
    · exact ⟨hlow.le, hiff.mp h⟩
    · rw [hiff, not_lt] at h
      rw [show e + 1 = e + (1 : Nat) by omega, two_zpow_add]
      constructor <;> linarith
  rw [hf]
  rcases le_total minExponent f with hle | hle
  · rw [max_eq_right hle]
    exact ⟨hle, hfhigh, .inr hflow⟩
  · have hpow : (2 : ℚ) ^ f ≤ 2 ^ minExponent := zpow_le_zpow_right₀ one_le_two hle
    rw [max_eq_left hle]
    exact ⟨le_rfl, by linarith, .inl rfl⟩

/-! ### Numbers as rationals -/

/-- The rational that a finite number stands for. -/
def toRat : Number → ℚ
  | .finite s m e _ => signed s m * 2 ^ e
  | _ => 0

/-- A finite number. -/
inductive Proper : Number → Prop where
  | finite {s : Bool} {m : Nat} {e : Int} (h : Canonical m e) : Proper (.finite s m e h)

/-- The number stands for a rational that none is nearer to. -/
structure Nearest (x : ℚ) (r : Number) : Prop where
  proper : r.Proper
  nearest : ∀ y : Number, y.Proper → |x - r.toRat| ≤ |x - y.toRat|

lemma signed_not (s : Bool) (m : Nat) : signed (!s) m = -signed s m := by
  cases s <;> simp [signed]

lemma toRat_neg (x : Number) : x.neg.toRat = -x.toRat := by
  cases x <;> simp [neg, toRat, signed_not]

lemma Proper.neg {x : Number} (h : x.Proper) : x.neg.Proper := by
  cases h with
  | finite h => exact .finite h

lemma toRat_zero (s : Bool) : (zero s).toRat = 0 := by cases s <;> simp [zero, toRat, signed]

lemma proper_zero (s : Bool) : (zero s).Proper := .finite _

lemma toRat_finite (s : Bool) {m : Nat} {e : Int} (h : Canonical m e) :
    (finite s m e h).toRat = signed s m * 2 ^ e := rfl

lemma signed_false (m : Nat) : signed false m = m := rfl

/-- Of two equal magnitudes neither has the smaller unit: its mantissa would be too large. -/
lemma Canonical.exponent_le {m m' : Nat} {e e' : Int} (h : Canonical m e) (h' : Canonical m' e')
    (heq : (m : ℚ) * 2 ^ e = m' * 2 ^ e') : e' ≤ e := by
  obtain ⟨hm, hmin, -, -⟩ := h
  obtain ⟨-, -, -, hnormal⟩ := h'
  by_contra hlt
  have hnormal : mantissaBound ≤ 2 * m' := hnormal.resolve_right (by omega)
  have hnormal' : (mantissaBound : ℚ) ≤ 2 * m' := by exact_mod_cast hnormal
  have hm' : (m : ℚ) < mantissaBound := by exact_mod_cast hm
  have hpow : (2 : ℚ) ^ (e + (1 : Nat)) ≤ 2 ^ e' :=
    zpow_le_zpow_right₀ one_le_two (by push_cast; omega)
  have hu := two_zpow_pos e
  rw [two_zpow_add] at hpow
  have hle : (m' : ℚ) * (2 ^ 1 * 2 ^ e) ≤ m' * 2 ^ e' :=
    mul_le_mul_of_nonneg_left hpow (Nat.cast_nonneg m')
  have hlt' : (m : ℚ) * 2 ^ e < 2 * m' * 2 ^ e := mul_lt_mul_of_pos_right (by linarith) hu
  linarith

/-- A magnitude has one mantissa and one exponent. -/
lemma Canonical.unique {m m' : Nat} {e e' : Int} (h : Canonical m e) (h' : Canonical m' e')
    (heq : (m : ℚ) * 2 ^ e = m' * 2 ^ e') : m = m' ∧ e = e' := by
  obtain rfl : e = e' := le_antisymm (h'.exponent_le h heq.symm) (h.exponent_le h' heq)
  have hm := mul_right_cancel₀ (two_zpow_pos e).ne' heq
  exact ⟨by exact_mod_cast hm, rfl⟩

section Nearest

variable {x x' : ℚ} {r r' y : Number}

lemma Nearest.neg (h : Nearest x r) : Nearest (-x) r.neg where
  proper := h.proper.neg
  nearest := fun y hy => by
    have hnear := h.nearest y.neg hy.neg
    rw [toRat_neg] at hnear ⊢
    rwa [neg_sub_neg, abs_sub_comm, ← abs_neg (-x - y.toRat), neg_sub, sub_neg_eq_add,
      add_comm, ← sub_neg_eq_add]

/-- What is at most a number that can be represented is so after rounding. -/
lemma Nearest.le_of_le (h : Nearest x r) (hy : y.Proper) (hle : x ≤ y.toRat) :
    r.toRat ≤ y.toRat := by
  by_contra hlt
  have hnear := h.nearest y hy
  rw [abs_sub_comm, abs_of_nonneg (by linarith), abs_sub_comm, abs_of_nonneg (by linarith)] at hnear
  linarith

lemma Nearest.ge_of_ge (h : Nearest x r) (hy : y.Proper) (hge : y.toRat ≤ x) :
    y.toRat ≤ r.toRat := by
  have hle := h.neg.le_of_le hy.neg (by rw [toRat_neg]; linarith)
  rw [toRat_neg, toRat_neg] at hle
  linarith

/-- What can be represented is not changed. -/
lemma Nearest.eq (h : Nearest y.toRat r) (hy : y.Proper) : r.toRat = y.toRat :=
  le_antisymm (h.le_of_le hy le_rfl) (h.ge_of_ge hy le_rfl)

/-- Rounding keeps the order. -/
theorem Nearest.mono (h : Nearest x r) (h' : Nearest x' r') (hx : x < x') :
    r.toRat ≤ r'.toRat := by
  by_contra hlt
  have hnear := sq_le_sq.mpr (h.nearest r' h'.proper)
  have hnear' := sq_le_sq.mpr (h'.nearest r h.proper)
  have hpos := mul_pos (sub_pos.mpr hx) (sub_pos.mpr (not_le.mp hlt))
  linarith

end Nearest

/-! ### What a quotient is rounded to -/

/-- Up to here what is rounded stays finite: half a unit above the largest number. -/
def roundingLimit : ℚ := (2 ^ 53 - 1 / 2) * 2 ^ maxExponent

lemma lt_roundingLimit {x : ℚ} (hx : x ≤ 2 ^ 64) : x < roundingLimit := by
  have hpow : (2 : ℚ) ^ ((64 : Nat) : Int) ≤ 2 ^ maxExponent :=
    zpow_le_zpow_right₀ one_le_two (by decide)
  rw [zpow_natCast] at hpow
  rw [roundingLimit]
  linarith

/-- A carry into a further bit does not change the value. -/
lemma exists_pack {m : Nat} {e : Int} (s : Bool) (hmin : minExponent ≤ e) (he : e ≤ maxExponent)
    (hle : m ≤ mantissaBound) (hm : m = mantissaBound → e < maxExponent)
    (hnormal : mantissaBound ≤ 2 * m ∨ e = minExponent) :
    ∃ m' e' h, pack s m e = finite s m' e' h ∧ (m' : ℚ) * 2 ^ e' = m * 2 ^ e := by
  unfold pack
  by_cases hcarry : m = mantissaBound
  · have h : Canonical (m / 2) (e + 1) := by
      rw [hcarry]
      exact ⟨by decide, by omega, hm hcarry, .inl (by decide)⟩
    refine ⟨m / 2, e + 1, h, ?_, ?_⟩
    · rw [if_pos hcarry]
      exact dif_pos h
    · rw [hcarry, zpow_add_one₀ two_ne_zero]
      norm_num [mantissaBound]
      ring
  · have h : Canonical m e := ⟨lt_of_le_of_ne hle hcarry, hmin, he, hnormal⟩
    refine ⟨m, e, h, ?_, rfl⟩
    rw [if_neg hcarry]
    exact dif_pos h

/-- What has a smaller unit is at most the least number that needs the unit. -/
lemma toRat_le_of_lt {m : Nat} {e e' : Int} (s : Bool) (h : Canonical m e') (he : e' < e) :
    (finite s m e' h).toRat ≤ 2 ^ 52 * 2 ^ e := by
  have hm := h.bounded
  have hu := two_zpow_pos e'
  have hsigned : (signed s m : ℚ) ≤ 2 ^ 53 := by
    have hle : signed s m ≤ 2 ^ 53 := by
      unfold signed mantissaBound at *
      split_ifs <;> omega
    exact_mod_cast hle
  have hpow : (2 : ℚ) ^ (e' + (1 : Nat)) ≤ 2 ^ e :=
    zpow_le_zpow_right₀ one_le_two (by push_cast; omega)
  rw [two_zpow_add] at hpow
  calc (finite s m e' h).toRat ≤ 2 ^ 53 * 2 ^ e' := mul_le_mul_of_nonneg_right hsigned hu.le
    _ ≤ 2 ^ 52 * 2 ^ e := by linarith

/-- No number is larger than the largest one. -/
lemma Proper.abs_toRat_le {a : Number} (ha : a.Proper) :
    |a.toRat| ≤ (2 ^ 53 - 1) * 2 ^ maxExponent := by
  cases ha with
  | @finite s m e h =>
      have hm := h.bounded
      have hpow : (2 : ℚ) ^ e ≤ 2 ^ maxExponent := zpow_le_zpow_right₀ one_le_two h.most
      have hmle : (m : ℚ) ≤ 2 ^ 53 - 1 := by
        have hm' : (m : ℚ) + 1 ≤ mantissaBound := by exact_mod_cast hm
        rw [mantissaBound_eq] at hm'
        linarith
      have habs : |(signed s m : ℚ)| = m := by
        cases s <;> simp [signed]
      rw [toRat_finite, abs_mul, habs, abs_of_pos (two_zpow_pos e)]
      exact mul_le_mul hmle hpow (two_zpow_pos e).le (by norm_num)

section Grid

variable {n d : Nat}

/-- What a quotient is in the units of its grid. -/
lemma div_eq_scale (n d : Nat) (e : Int) :
    (n : ℚ) / d = (scale n d e).1 / (scale n d e).2 * 2 ^ e := by
  rw [scale_div, div_mul_cancel₀ _ (two_zpow_pos e).ne']

/-- No multiple of the unit is nearer than the one that a quotient is rounded to. -/
lemma nearest_multiple (hd : 0 < d) (e : Int) (j : Int) :
    |(n : ℚ) / d - roundQuotient (scale n d e).1 (scale n d e).2 * 2 ^ e| ≤
      |(n : ℚ) / d - j * 2 ^ e| := by
  have hnear := abs_sub_roundQuotient_le_abs_sub (scale n d e).1 (scale_pos n hd e) j
  rw [div_eq_scale n d e, ← sub_mul, ← sub_mul, abs_mul, abs_mul]
  exact mul_le_mul_of_nonneg_right hnear (abs_nonneg _)

/-- What is rounded has at most one bit more than the mantissa, and none if it is to stay finite. -/
lemma roundQuotient_scale_spec (hn : 0 < n) (hd : 0 < d) (hx : (n : ℚ) / d < roundingLimit)
    {e : Int} (he : gridExponent n d = e) {m : Nat}
    (hm : roundQuotient (scale n d e).1 (scale n d e).2 = m) :
    e ≤ maxExponent ∧ m ≤ mantissaBound ∧ (m = mantissaBound → e < maxExponent) ∧
      (mantissaBound ≤ 2 * m ∨ e = minExponent) := by
  obtain ⟨-, hhigh, hlow⟩ := gridExponent_spec hn hd
  have hhalf := abs_sub_roundQuotient_le (scale n d e).1 (scale_pos n hd e)
  rw [abs_le, hm] at hhalf
  rw [he, div_eq_scale n d e] at hhigh hlow
  rw [div_eq_scale n d e] at hx
  generalize ((scale n d e).1 : ℚ) / (scale n d e).2 = q at hhalf hhigh hlow hx
  have hu := two_zpow_pos e
  have hq : q < 2 ^ 53 := lt_of_mul_lt_mul_right hhigh hu.le
  have hmax : e ≤ maxExponent := by
    by_contra hgt
    rcases hlow with rfl | hlow
    · exact hgt (by decide)
    · have hpow : (2 : ℚ) ^ (maxExponent + (1 : Nat)) ≤ 2 ^ e :=
        zpow_le_zpow_right₀ one_le_two (by push_cast; omega)
      have hmaxpos := two_zpow_pos maxExponent
      rw [two_zpow_add] at hpow
      rw [roundingLimit] at hx
      linarith
  refine ⟨hmax, ?_, fun heq => lt_of_le_of_ne hmax ?_, hlow.symm.imp_left fun hlow => ?_⟩
  · by_contra hgt
    have hgt' : (mantissaBound : ℚ) + 1 ≤ m := by exact_mod_cast Nat.not_le.mp hgt
    rw [mantissaBound_eq] at hgt'
    linarith
  · rintro rfl
    have hlimit : q < 2 ^ 53 - 1 / 2 := lt_of_mul_lt_mul_right hx hu.le
    rw [heq, mantissaBound_eq] at hhalf
    linarith
  · have hq' : (2 : ℚ) ^ 52 ≤ q := le_of_mul_le_mul_right hlow hu
    by_contra hlt
    have hlt' : (m : ℚ) + 1 ≤ 2 ^ 52 := by
      have hm : m + 1 ≤ 2 ^ 52 := by
        unfold mantissaBound at hlt
        omega
      exact_mod_cast hm
    linarith

/-- **No number is nearer to a quotient than what it is rounded to.** -/
theorem nearest_ofRatio_false (hd : 0 < d) (hx : (n : ℚ) / d < roundingLimit) :
    Nearest (n / d) (ofRatio false n d) := by
  rcases Nat.eq_zero_or_pos n with rfl | hn
  · refine ⟨proper_zero false, fun y _ => ?_⟩
    simp [ofRatio, toRat_zero]
  · obtain ⟨hmin, -, hlow⟩ := gridExponent_spec hn hd
    generalize he : gridExponent n d = e at hmin hlow
    have hnear := nearest_multiple (n := n) hd e
    generalize hm : roundQuotient (scale n d e).1 (scale n d e).2 = m at hnear
    obtain ⟨hmax, hle, hcarry, hnormal⟩ := roundQuotient_scale_spec hn hd hx he hm
    have hpack : ofRatio false n d = pack false m e := by
      simp only [ofRatio, if_neg hn.ne', he, hm]
    obtain ⟨_, _, h, hpacked, hvalue⟩ := exists_pack false hmin hmax hle hcarry hnormal
    rw [hpack, hpacked]
    refine ⟨.finite h, fun y hy => ?_⟩
    rw [toRat_finite, signed_false, Int.cast_natCast, hvalue]
    cases hy with
    | @finite s m' e' hy =>
        by_cases hee : e ≤ e'
        · -- the other number is a multiple of the same unit
          obtain ⟨k, rfl⟩ := Int.le.dest hee
          have hmultiple : (finite s m' (e + k) hy).toRat = (signed s m' * 2 ^ k : Int) * 2 ^ e := by
            rw [toRat_finite, two_zpow_add]
            push_cast
            ring
          rw [hmultiple]
          exact hnear _
        · -- the other number is not larger than the least one that needs this unit
          have hmin' := hy.least
          have hlow := hlow.resolve_left (by omega)
          have hnear := hnear (2 ^ 52)
          have hsmall := toRat_le_of_lt s hy (not_le.mp hee)
          rw [Int.cast_pow, Int.cast_ofNat, abs_of_nonneg (sub_nonneg.mpr hlow)] at hnear
          rw [abs_of_nonneg (a := (n : ℚ) / d - (finite s m' e' hy).toRat) (by linarith)]
          linarith

/-- From the limit on there is no finite number. -/
theorem ofRatio_of_limit_le (s : Bool) (hn : 0 < n) (hd : 0 < d) (hx : roundingLimit ≤ (n : ℚ) / d) :
    ofRatio s n d = .infinity s := by
  obtain ⟨-, hhigh, -⟩ := gridExponent_spec hn hd
  generalize he : gridExponent n d = e at hhigh
  rw [ofRatio, if_neg hn.ne']
  simp only [he]
  have hmaxpos := two_zpow_pos maxExponent
  rcases lt_trichotomy e maxExponent with hlt | rfl | hgt
  · -- the units are too small for such a quotient
    have hpow : (2 : ℚ) ^ (e + (1 : Nat)) ≤ 2 ^ maxExponent :=
      zpow_le_zpow_right₀ one_le_two (by push_cast; omega)
    rw [two_zpow_add] at hpow
    rw [roundingLimit] at hx
    linarith
  · -- half a unit above the largest mantissa there is a carry
    have hb := scale_pos n hd maxExponent
    rw [div_eq_scale n d maxExponent] at hx hhigh
    have hlow : (2 : ℚ) ^ 53 - 1 / 2 ≤ (scale n d maxExponent).1 / (scale n d maxExponent).2 :=
      le_of_mul_le_mul_right hx hmaxpos
    have hhigh := lt_of_mul_lt_mul_right hhigh hmaxpos.le
    rw [roundQuotient_of_half_below hb hlow hhigh, pack, if_pos rfl]
    rfl
  · unfold pack
    split_ifs
    · exact dif_neg fun h => absurd h.most (by omega)
    · exact dif_neg fun h => absurd h.most (not_le.mpr hgt)

lemma ofRatio_not (s : Bool) (n d : Nat) : ofRatio (!s) n d = (ofRatio s n d).neg := by
  unfold ofRatio
  split_ifs
  · rfl
  · dsimp only
    unfold pack
    split_ifs <;> dsimp only <;> split_ifs <;> rfl

/-- **No number is nearer to a quotient than what it is rounded to.** -/
theorem nearest_ofRatio (s : Bool) (hd : 0 < d) (hx : (n : ℚ) / d < roundingLimit) :
    Nearest (if s then -((n : ℚ) / d) else n / d) (ofRatio s n d) := by
  cases s with
  | false => exact nearest_ofRatio_false hd hx
  | true =>
      rw [if_pos rfl, ← Bool.not_false, ofRatio_not]
      exact (nearest_ofRatio_false hd hx).neg

end Grid

/-! ### Sums and integers -/

lemma nearest_zero (s : Bool) : Nearest 0 (zero s) :=
  ⟨proper_zero s, fun y _ => by simp [toRat_zero]⟩

/-- No number is nearer to a natural number than what it is rounded to. -/
theorem nearest_ofNat {n : Nat} (hn : (n : ℚ) < roundingLimit) : Nearest n (ofNat n) := by
  have hnear := nearest_ofRatio (n := n) (d := 1) false one_pos (by simpa using hn)
  simpa [ofNat] using hnear

/-- The same for an integer in any unit. -/
lemma nearest_ofScaled (i : Int) (e : Int) (hx : |(i : ℚ) * 2 ^ e| < roundingLimit) :
    Nearest (i * 2 ^ e) (ofScaled (i < 0) i.natAbs e) := by
  have hu := two_zpow_pos e
  have hvalue : ((i.natAbs <<< e.toNat : Nat) : ℚ) / ((1 <<< (-e).toNat : Nat) : ℚ) =
      |(i : ℚ) * 2 ^ e| := by
    rw [shift_div_shift, Nat.cast_one, div_one, abs_mul, abs_of_pos hu, Nat.cast_natAbs,
      Int.cast_abs]
  have hnear := nearest_ofRatio (n := i.natAbs <<< e.toNat) (d := 1 <<< (-e).toNat) (decide (i < 0))
    (by rw [Nat.shiftLeft_eq]; positivity) (by rwa [hvalue])
  have hsign : (if decide (i < 0) then -|(i : ℚ) * 2 ^ e| else |(i : ℚ) * 2 ^ e|) =
      i * 2 ^ e := by
    by_cases hi : i < 0
    · have hi' : (i : ℚ) < 0 := by exact_mod_cast hi
      rw [if_pos (by simpa using hi), abs_of_neg (mul_neg_of_neg_of_pos hi' hu), neg_neg]
    · have hi' : (0 : ℚ) ≤ i := by exact_mod_cast not_lt.mp hi
      rw [if_neg (by simpa using hi), abs_of_nonneg (mul_nonneg hi' hu.le)]
  rw [hvalue, hsign] at hnear
  exact hnear

/-- The integer for a number in a smaller unit. -/
lemma signed_shift (s : Bool) {m : Nat} {e u : Int} (h : Canonical m e) (hu : u ≤ e) :
    (signed s (m <<< (e - u).toNat) : ℚ) * 2 ^ u = (finite s m e h).toRat := by
  obtain ⟨k, rfl⟩ := Int.le.dest hu
  have hsigned : signed s (m <<< k) = signed s m * 2 ^ k := by
    rw [Nat.shiftLeft_eq]
    cases s <;> simp [signed]
  rw [add_sub_cancel_left, Int.toNat_natCast, hsigned, toRat_finite, two_zpow_add]
  push_cast
  ring

section Operations

variable {a b : Number}

/-- A sum is an integer in the smaller unit, and this is rounded. -/
lemma add_eq (ha : a.Proper) (hb : b.Proper) : ∃ (i u : Int) (s : Bool),
    a.toRat + b.toRat = i * 2 ^ u ∧
      a.add b = if i = 0 then zero s else ofScaled (i < 0) i.natAbs u := by
  cases ha with
  | @finite s m e h =>
      cases hb with
      | @finite s' m' e' h' =>
          refine ⟨signed s (m <<< (e - min e e').toNat) + signed s' (m' <<< (e' - min e e').toNat),
            min e e', s && s', ?_, rfl⟩
          rw [Int.cast_add, add_mul, signed_shift s h (min_le_left e e'),
            signed_shift s' h' (min_le_right e e')]

/-- **No number is nearer to the sum of two numbers than what it is rounded to.** -/
theorem nearest_add (ha : a.Proper) (hb : b.Proper) (hx : |a.toRat + b.toRat| < roundingLimit) :
    Nearest (a.toRat + b.toRat) (a.add b) := by
  obtain ⟨i, u, s, hsum, hadd⟩ := add_eq ha hb
  rw [hsum] at hx
  rw [hsum, hadd]
  split_ifs with hzero
  · rw [hzero, Int.cast_zero, zero_mul]
    exact nearest_zero s
  · exact nearest_ofScaled i u hx

/-- From the limit on the sum is infinite. -/
lemma add_of_limit_le (ha : a.Proper) (hb : b.Proper) (hx : roundingLimit ≤ a.toRat + b.toRat) :
    a.add b = .infinity false := by
  obtain ⟨i, u, s, hsum, hadd⟩ := add_eq ha hb
  have hlimit : 0 < roundingLimit := lt_roundingLimit (by norm_num)
  rw [hsum] at hx
  have hi : 0 < i := by
    have hpos : (0 : ℚ) < i := (mul_pos_iff_of_pos_right (two_zpow_pos u)).mp (hlimit.trans_le hx)
    exact_mod_cast hpos
  have hnat : 0 < i.natAbs := Int.natAbs_pos.mpr hi.ne'
  rw [hadd, if_neg hi.ne', ofScaled, decide_eq_false (not_lt.mpr hi.le)]
  refine ofRatio_of_limit_le false ?_ ?_ ?_
  · rw [Nat.shiftLeft_eq]
    positivity
  · rw [Nat.shiftLeft_eq]
    positivity
  · rwa [shift_div_shift, Nat.cast_one, div_one, Nat.cast_natAbs, abs_of_pos hi]

/-- The same for differences. -/
lemma nearest_sub (ha : a.Proper) (hb : b.Proper) (hx : |a.toRat - b.toRat| < roundingLimit) :
    Nearest (a.toRat - b.toRat) (a.sub b) := by
  rw [sub_eq_add_neg, ← toRat_neg] at hx ⊢
  exact nearest_add ha hb.neg hx

/-- Numbers are in the order of the rationals. -/
lemma compare?_eq (ha : a.Proper) (hb : b.Proper) :
    a.compare? b = some (compare a.toRat b.toRat) := by
  cases ha with
  | @finite s m e h =>
      cases hb with
      | @finite s' m' e' h' =>
          rw [← signed_shift s h (min_le_left e e'), ← signed_shift s' h' (min_le_right e e')]
          have hu := two_zpow_pos (min e e')
          have hcompare : (finite s m e h).compare? (finite s' m' e' h') =
              some (compare (signed s (m <<< (e - min e e').toNat))
                (signed s' (m' <<< (e' - min e e').toNat))) := rfl
          rw [hcompare, Option.some.injEq]
          generalize signed s (m <<< (e - min e e').toNat) = i
          generalize signed s' (m' <<< (e' - min e e').toNat) = j
          rcases lt_trichotomy i j with hij | rfl | hij
          · have hij' : (i : ℚ) < j := by exact_mod_cast hij
            rw [compare_lt_iff_lt.mpr hij, compare_lt_iff_lt.mpr (mul_lt_mul_of_pos_right hij' hu)]
          · rw [compare_eq_iff_eq.mpr rfl, compare_eq_iff_eq.mpr rfl]
          · have hij' : (j : ℚ) < i := by exact_mod_cast hij
            rw [compare_gt_iff_gt.mpr hij, compare_gt_iff_gt.mpr (mul_lt_mul_of_pos_right hij' hu)]

lemma lt_iff (ha : a.Proper) (hb : b.Proper) : a.lt b = true ↔ a.toRat < b.toRat := by
  rw [lt, compare?_eq ha hb, beq_iff_eq, Option.some.injEq, compare_lt_iff_lt]

lemma le_iff (ha : a.Proper) (hb : b.Proper) : a.le b = true ↔ a.toRat ≤ b.toRat := by
  rw [le, compare?_eq ha hb, ← not_lt, ← compare_gt_iff_gt]
  cases compare a.toRat b.toRat <;> simp

end Operations

/-! ### Exact results -/

/-- A mantissa of at most 53 bits can be represented with any exponent that there is. -/
lemma exists_proper {m : Nat} {e : Int} (hm : m < mantissaBound) (hmin : minExponent ≤ e)
    (hmax : e ≤ maxExponent) : ∃ y : Number, y.Proper ∧ y.toRat = m * 2 ^ e := by
  obtain ⟨k, rfl⟩ := Int.le.dest hmin
  induction k generalizing m with
  | zero =>
      exact ⟨finite false m _ ⟨hm, hmin, hmax, .inr (add_zero _)⟩, .finite _, by
        rw [toRat_finite, signed_false, Int.cast_natCast]⟩
  | succ k ih =>
      by_cases hnormal : mantissaBound ≤ 2 * m
      · exact ⟨finite false m _ ⟨hm, hmin, hmax, .inl hnormal⟩, .finite _, by
          rw [toRat_finite, signed_false, Int.cast_natCast]⟩
      · -- there is room for one more bit
        obtain ⟨y, hy, hvalue⟩ := ih (m := 2 * m) (by omega) (by omega) (by omega)
        refine ⟨y, hy, hvalue.trans ?_⟩
        rw [Nat.cast_succ, ← add_assoc, zpow_add_one₀ two_ne_zero]
        push_cast
        ring

lemma proper_ofNat {n : Nat} (hn : n ≤ mantissaBound) : (ofNat n).Proper ∧ (ofNat n).toRat = n := by
  have hn' : (n : ℚ) ≤ 2 ^ 53 := by
    rw [← mantissaBound_eq]
    exact_mod_cast hn
  have hnear := nearest_ofNat (n := n) (lt_roundingLimit (by linarith))
  refine ⟨hnear.proper, ?_⟩
  obtain ⟨y, hy, hvalue⟩ : ∃ y : Number, y.Proper ∧ y.toRat = n := by
    rcases hn.lt_or_eq with hlt | rfl
    · obtain ⟨y, hy, hvalue⟩ := exists_proper (e := 0) hlt (by decide) (by decide)
      exact ⟨y, hy, by rw [hvalue, zpow_zero, mul_one]⟩
    · obtain ⟨y, hy, hvalue⟩ := exists_proper (m := 1) (e := (53 : Nat)) (by decide) (by decide)
        (by decide)
      exact ⟨y, hy, by rw [hvalue, mantissaBound_eq, zpow_natCast, Nat.cast_one, one_mul]⟩
  rw [← hvalue] at hnear ⊢
  exact hnear.eq hy

lemma integerPart_eq (m : Nat) (e : Int) : integerPart m e = ⌊(m : ℚ) * 2 ^ e⌋₊ := by
  have hdiv : (m : ℚ) * 2 ^ e = ((m * 2 ^ e.toNat : Nat) : ℚ) / ((2 ^ (-e).toNat : Nat) : ℚ) := by
    rw [zpow_eq_div, ← mul_div_assoc]
    push_cast
    rfl
  rw [integerPart, Nat.shiftLeft_eq, Nat.shiftRight_eq_div_pow, hdiv, Nat.floor_div_eq_div]

lemma isIntegral_iff (m : Nat) (e : Int) :
    isIntegral m e = true ↔ (integerPart m e : ℚ) = m * 2 ^ e := by
  have hpos : (0 : ℚ) < 2 ^ (-e).toNat := by positivity
  rw [isIntegral, beq_iff_eq, Nat.shiftLeft_eq, Nat.shiftLeft_eq, zpow_eq_div, ← mul_div_assoc,
    eq_div_iff hpos.ne']
  exact_mod_cast Iff.rfl

/-- A number with a fraction has an integer part of at most 53 bits. -/
lemma integerPart_lt {m : Nat} {e : Int} (hm : m < mantissaBound) (hfraction : ¬ isIntegral m e) :
    integerPart m e < mantissaBound := by
  have he : e.toNat = 0 := by
    by_contra he
    have hneg : (-e).toNat = 0 := by omega
    exact hfraction (by simp [isIntegral, integerPart, hneg])
  rw [integerPart, he, Nat.shiftLeft_zero, Nat.shiftRight_eq_div_pow]
  exact (Nat.div_le_self _ _).trans_lt hm

section Ceil

variable {a : Number}

/-- The least integer that is not below a number can be represented. -/
theorem proper_ceil (ha : a.Proper) : a.ceil.Proper ∧ a.ceil.toRat = ⌈a.toRat⌉ := by
  cases ha with
  | @finite s m e h =>
      have hnonneg : (0 : ℚ) ≤ m * 2 ^ e := by positivity
      by_cases hintegral : isIntegral m e = true
      · have hvalue : (finite s m e h).toRat = (signed s (integerPart m e) : Int) := by
          have hpart := (isIntegral_iff m e).mp hintegral
          rw [toRat_finite]
          cases s <;> simp [signed, hpart]
        refine ⟨by rw [ceil, if_pos hintegral]; exact .finite h, ?_⟩
        rw [ceil, if_pos hintegral, hvalue, Int.ceil_intCast]
      · -- the integers around the magnitude can be represented
        have hlt := integerPart_lt h.bounded hintegral
        have hle : (integerPart m e : ℚ) ≤ m * 2 ^ e := by
          rw [integerPart_eq]
          exact Nat.floor_le hnonneg
        have hbelow : (integerPart m e : ℚ) < m * 2 ^ e :=
          lt_of_le_of_ne hle fun heq => hintegral ((isIntegral_iff m e).mpr heq)
        have habove : (m : ℚ) * 2 ^ e < integerPart m e + 1 := by
          rw [integerPart_eq]
          exact Nat.lt_floor_add_one _
        cases s with
        | false =>
            obtain ⟨hproper, hvalue⟩ := proper_ofNat (n := integerPart m e + 1) hlt
            have hceil : (finite false m e h).ceil = ofNat (integerPart m e + 1) := by
              rw [ceil, if_neg hintegral, if_neg (by decide), ofNat]
            rw [hceil]
            refine ⟨hproper, ?_⟩
            rw [hvalue, ← Int.cast_natCast, Int.cast_inj, eq_comm, Int.ceil_eq_iff, toRat_finite,
              signed_false]
            push_cast
            exact ⟨by linarith, habove.le⟩
        | true =>
            obtain ⟨hproper, hvalue⟩ := proper_ofNat (n := integerPart m e) hlt.le
            have hceil : (finite true m e h).ceil = (ofNat (integerPart m e)).neg := by
              rw [ceil, if_neg hintegral, if_pos rfl, ofNat, ← ofRatio_not, Bool.not_false]
            rw [hceil]
            refine ⟨hproper.neg, ?_⟩
            rw [toRat_neg, hvalue, ← Int.cast_natCast, ← Int.cast_neg, Int.cast_inj, eq_comm,
              Int.ceil_eq_iff, toRat_finite, signed, if_pos rfl]
            push_cast
            constructor <;> linarith

lemma floor_eq_neg_ceil_neg (a : Number) : a.floor = a.neg.ceil.neg := by
  cases a with
  | finite s m e h =>
      by_cases hintegral : isIntegral m e = true
      · rw [floor, if_pos hintegral, neg, ceil, if_pos hintegral, neg, Bool.not_not]
      · rw [floor, if_neg hintegral, neg, ceil, if_neg hintegral, ← ofRatio_not, Bool.not_not]
        cases s <;> rfl
  | _ => simp [floor, ceil, neg]

/-- The greatest integer that is not above a number can be represented. -/
theorem proper_floor (ha : a.Proper) : a.floor.Proper ∧ a.floor.toRat = ⌊a.toRat⌋ := by
  obtain ⟨hproper, hvalue⟩ := proper_ceil ha.neg
  rw [floor_eq_neg_ceil_neg]
  refine ⟨hproper.neg, ?_⟩
  rw [toRat_neg, hvalue, toRat_neg, Int.ceil_neg, Int.cast_neg, neg_neg]

end Ceil

section Integers

variable {a r : Number} {x : ℚ} {i : Int}

/-- Numbers from `2 ^ 53` on are even. -/
lemma exists_even_of_le (hr : r.Proper) (hle : 2 ^ 53 ≤ r.toRat) :
    ∃ j : Int, r.toRat = (2 * j : Int) := by
  cases hr with
  | @finite s m e h =>
      rcases lt_or_ge 0 e with he | he
      · obtain ⟨k, hk⟩ := Int.eq_ofNat_of_zero_le (Int.sub_nonneg_of_le he)
        obtain rfl : e = k + (1 : Nat) := by
          push_cast
          omega
        exact ⟨signed s m * 2 ^ k, by
          rw [toRat_finite, two_zpow_add, zpow_natCast]
          push_cast
          ring⟩
      · -- a smaller unit would not do
        have hone : (2 : ℚ) ^ e ≤ 1 := zpow_le_one_of_nonpos₀ one_le_two he
        have hm : (m : ℚ) < 2 ^ 53 := by
          rw [← mantissaBound_eq]
          exact_mod_cast h.bounded
        have hsigned : (signed s m : ℚ) ≤ m := by
          cases s <;> simp [signed]
        have hnonneg : (0 : ℚ) ≤ m := by positivity
        have hu := two_zpow_pos e
        have hlt : (finite s m e h).toRat < 2 ^ 53 := by
          rw [toRat_finite]
          nlinarith
        exact absurd hle (not_le.mpr hlt)

/-- What is rounded to an integer stays an integer. -/
theorem Nearest.exists_int (h : Nearest (i : ℚ) r) : ∃ j : Int, r.toRat = j := by
  have hsmall : ∀ {k : Nat} {r : Number}, k ≤ mantissaBound → Nearest (k : ℚ) r →
      r.toRat = k := by
    intro k r hk hr
    obtain ⟨hproper, hvalue⟩ := proper_ofNat hk
    rw [← hvalue] at hr ⊢
    exact hr.eq hproper
  have hnat : ∀ {k : Nat} {r : Number}, Nearest (k : ℚ) r → ∃ j : Int, r.toRat = j := by
    intro k r hr
    rcases Nat.le_total k mantissaBound with hk | hk
    · exact ⟨k, (hsmall hk hr).trans (Int.cast_natCast k).symm⟩
    · obtain ⟨hproper, hvalue⟩ := proper_ofNat (le_refl mantissaBound)
      have hge := hr.ge_of_ge hproper (by rw [hvalue]; exact_mod_cast hk)
      rw [hvalue, mantissaBound_eq] at hge
      obtain ⟨j, hj⟩ := exists_even_of_le hr.proper hge
      exact ⟨2 * j, hj⟩
  obtain ⟨k, rfl | rfl⟩ := i.eq_nat_or_neg
  · exact hnat (by rwa [Int.cast_natCast] at h)
  · have hneg := h.neg
    rw [Int.cast_neg, neg_neg, Int.cast_natCast] at hneg
    obtain ⟨j, hj⟩ := hnat hneg
    rw [toRat_neg] at hj
    exact ⟨-j, by rw [Int.cast_neg, ← hj, neg_neg]⟩

/-- The integer of 64 bits that a number stands for, if it is one. -/
lemma toInt64_eq (ha : a.Proper) (hvalue : a.toRat = i) (hfits : fitsInt64 i = true) :
    a.toInt64 = i := by
  cases ha with
  | @finite s m e h =>
      have htruncate : (finite s m e h).truncate? = some i := by
        rw [toRat_finite] at hvalue
        rw [truncate?, integerPart_eq, Option.some.injEq]
        cases s with
        | false =>
            have hnonneg : (0 : ℚ) ≤ i := by
              rw [← hvalue, signed_false]
              positivity
            rw [signed_false, Int.cast_natCast] at hvalue
            rw [hvalue, signed_false, Int.natCast_floor_eq_floor hnonneg, Int.floor_intCast]
        | true =>
            have hneg : ((m : ℚ) * 2 ^ e) = (-i : Int) := by
              rw [Int.cast_neg, ← hvalue, signed, if_pos rfl]
              push_cast
              ring
            have hnonneg : (0 : ℚ) ≤ (-i : Int) := by
              rw [← hneg]
              positivity
            rw [hneg, signed, if_pos rfl, Int.natCast_floor_eq_floor hnonneg, Int.floor_intCast,
              neg_neg]
      rw [toInt64, htruncate]
      dsimp only
      rw [if_pos hfits]

end Integers

end Pseudocode.Number
