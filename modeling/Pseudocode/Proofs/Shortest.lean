/-
# The shortest decimals

What is rounded to a number is an interval of rationals around it: it reaches to the middle between
the number and its neighbours, and the middles belong to it where the mantissa is even.  So the
intervals of different numbers are disjoint, and of each rational it is known what number it is
rounded to.

The digits of a number are those of a decimal in its interval.  They are looked for with one digit,
with two digits and so on.  With seventeen digits the decimals are so close to each other that there
is one in the interval.

The main results are

* `Number.Rounds.unique`: a rational is in one interval;
* `Number.ofRatio_of_rounds`: it is rounded to the number of that interval;
* `Number.point_eq`: the position of the decimal point is found from the estimate;
* `Number.shortest_spec`: the digits are those of a decimal in the interval.
-/
import Pseudocode.Number.Shortest
import Pseudocode.Proofs.Rounding

namespace Pseudocode.Number

/-! ### The intervals -/

/-- How far below a number its interval begins, in units of its last place. -/
def reach (m : Nat) (e : Int) : ℚ := if m = mantissaBound / 2 ∧ minExponent < e then 1 / 4 else 1 / 2

/-- The rational is in the interval of `m * 2 ^ e`, off the ends if the mantissa is odd. -/
structure Rounds (m : Nat) (e : Int) (x : ℚ) : Prop where
  lower : (m - reach m e) * 2 ^ e ≤ x
  upper : x ≤ (m + 1 / 2) * 2 ^ e
  inside : m % 2 = 1 → (m - reach m e) * 2 ^ e < x ∧ x < (m + 1 / 2) * 2 ^ e

lemma reach_le (m : Nat) (e : Int) : reach m e ≤ 1 / 2 := by
  unfold reach
  split_ifs <;> norm_num

lemma reach_pos (m : Nat) (e : Int) : 0 < reach m e := by
  unfold reach
  split_ifs <;> norm_num

section Disjoint

variable {m m' : Nat} {e e' : Int} {x : ℚ}

/-- An interval stays below the middle that is above the largest mantissa, which is odd. -/
lemma Rounds.lt_top (h : Rounds m e x) (hm : m < mantissaBound) : x < (2 ^ 53 - 1 / 2) * 2 ^ e := by
  have hu := two_zpow_pos e
  rcases Nat.mod_two_eq_zero_or_one m with heven | hodd
  · have hm' : m + 2 ≤ mantissaBound := by
      unfold mantissaBound at *
      omega
    have hm' : (m : ℚ) + 2 ≤ mantissaBound := by exact_mod_cast hm'
    rw [mantissaBound_eq] at hm'
    have hlt : ((m : ℚ) + 1 / 2) * 2 ^ e < (2 ^ 53 - 1 / 2) * 2 ^ e :=
      mul_lt_mul_of_pos_right (by linarith) hu
    linarith [h.upper]
  · have hm' : (m : ℚ) + 1 ≤ mantissaBound := by exact_mod_cast hm
    rw [mantissaBound_eq] at hm'
    have hle : ((m : ℚ) + 1 / 2) * 2 ^ e ≤ (2 ^ 53 - 1 / 2) * 2 ^ e :=
      mul_le_mul_of_nonneg_right (by linarith) hu.le
    linarith [(h.inside hodd).2]

/-- The intervals of numbers with the same unit are disjoint: of neighbours one is odd. -/
lemma Rounds.not_of_lt (h : Rounds m e x) (hm : m < m') : ¬ Rounds m' e x := by
  intro h'
  have hu := two_zpow_pos e
  have hreach := reach_le m' e
  have hnext : (m : ℚ) + 1 ≤ m' := by exact_mod_cast hm
  have hle : ((m : ℚ) + 1 / 2) * 2 ^ e ≤ (m' - reach m' e) * 2 ^ e :=
    mul_le_mul_of_nonneg_right (by linarith) hu.le
  have hlower := h'.lower
  -- the intervals of neighbours meet in the middle, which is not in that of the odd one
  rcases Nat.mod_two_eq_zero_or_one m with heven | hodd
  · rcases Nat.mod_two_eq_zero_or_one m' with heven' | hodd'
    · have hnext : (m : ℚ) + 2 ≤ m' := by
        have hnext : m + 2 ≤ m' := by omega
        exact_mod_cast hnext
      have hlt : ((m : ℚ) + 1 / 2) * 2 ^ e < (m' - reach m' e) * 2 ^ e :=
        mul_lt_mul_of_pos_right (by linarith) hu
      linarith [h.upper]
    · linarith [h.upper, (h'.inside hodd').1]
  · linarith [(h.inside hodd).2]

/-- So are those of numbers with different units: the larger one has all bits, and begins no earlier
than what is above the largest mantissa with the smaller unit. -/
lemma Rounds.not_of_exponent_lt (hx : Rounds m e x) (h : Canonical m e)
    (h' : Canonical m' e') (he : e < e') : ¬ Rounds m' e' x := by
  intro hx'
  have hmin : minExponent < e' := lt_of_le_of_lt h.least he
  have hnormal : mantissaBound ≤ 2 * m' := h'.normal.resolve_right hmin.ne'
  have hpow : (2 : ℚ) ^ (e + (1 : Nat)) ≤ 2 ^ e' :=
    zpow_le_zpow_right₀ one_le_two (by push_cast; omega)
  rw [two_zpow_add] at hpow
  have hstart : (2 : ℚ) ^ 52 - 1 / 4 ≤ m' - reach m' e' := by
    by_cases hleast : m' = mantissaBound / 2
    · rw [reach, if_pos ⟨hleast, hmin⟩, hleast]
      norm_num [mantissaBound]
    · have hnext : 2 ^ 52 + 1 ≤ m' := by
        unfold mantissaBound at *
        omega
      have hnext : (2 : ℚ) ^ 52 + 1 ≤ m' := by exact_mod_cast hnext
      linarith [reach_le m' e']
  have hlower : ((2 : ℚ) ^ 53 - 1 / 2) * 2 ^ e ≤ (m' - reach m' e') * 2 ^ e' := by
    calc ((2 : ℚ) ^ 53 - 1 / 2) * 2 ^ e = (2 ^ 52 - 1 / 4) * (2 ^ 1 * 2 ^ e) := by ring
      _ ≤ (m' - reach m' e') * 2 ^ e' :=
          mul_le_mul hstart hpow (by positivity) (by linarith)
  linarith [hx.lt_top h.bounded, hx'.lower]

/-- **The intervals of different numbers are disjoint.** -/
theorem Rounds.unique (hx : Rounds m e x) (hx' : Rounds m' e' x) (h : Canonical m e)
    (h' : Canonical m' e') : m = m' ∧ e = e' := by
  rcases lt_trichotomy e e' with hlt | rfl | hgt
  · exact absurd hx' (hx.not_of_exponent_lt h h' hlt)
  · rcases lt_trichotomy m m' with hlt | rfl | hgt
    · exact absurd hx' (hx.not_of_lt hlt)
    · exact ⟨rfl, rfl⟩
    · exact absurd hx (hx'.not_of_lt hgt)
  · exact absurd hx (hx'.not_of_exponent_lt h' h hgt)

/-- What is in the interval of a finite number is rounded to a finite one. -/
lemma Rounds.lt_roundingLimit (hx : Rounds m e x) (h : Canonical m e) :
    x < roundingLimit := by
  have hpow : (2 : ℚ) ^ e ≤ 2 ^ maxExponent := zpow_le_zpow_right₀ one_le_two h.most
  rw [roundingLimit]
  exact (hx.lt_top h.bounded).trans_le (mul_le_mul_of_nonneg_left hpow (by norm_num))

end Disjoint

/-! ### What is rounded is in the interval -/

section Rounded

variable {s : Bool} {n d m : Nat} {e : Int}

/-- What is half a unit away, or less if the mantissa is odd, is in the interval, unless it is below
the least mantissa of a unit. -/
lemma rounds_of_near {q : ℚ} (hhalf : |q - m| ≤ 1 / 2) (hodd : m % 2 = 1 → |q - m| < 1 / 2)
    (hlow : e = minExponent ∨ 2 ^ 52 ≤ q) : Rounds m e (q * 2 ^ e) := by
  have hu := two_zpow_pos e
  rw [abs_le] at hhalf
  rw [abs_lt] at hodd
  refine ⟨mul_le_mul_of_nonneg_right ?_ hu.le, ?_, fun hmodd => ?_⟩
  · unfold reach
    split_ifs with hleast
    · have hq := hlow.resolve_left hleast.2.ne'
      rw [hleast.1]
      norm_num [mantissaBound] at hq ⊢
      linarith
    · linarith
  · exact mul_le_mul_of_nonneg_right (by linarith) hu.le
  · obtain ⟨hbelow, habove⟩ := hodd hmodd
    have hreach : reach m e = 1 / 2 := by
      refine if_neg fun hleast => ?_
      rw [hleast.1] at hmodd
      exact absurd hmodd (by decide)
    rw [hreach]
    exact ⟨mul_lt_mul_of_pos_right (by linarith) hu, mul_lt_mul_of_pos_right (by linarith) hu⟩

/-- The interval of the least mantissa of a unit begins with what is carried from the smaller one. -/
lemma rounds_of_carry {q : ℚ} (hmin : minExponent ≤ e) (hlow : 2 ^ 53 - 1 / 2 ≤ q)
    (hhigh : q < 2 ^ 53) : Rounds (mantissaBound / 2) (e + 1) (q * 2 ^ e) := by
  have hu := two_zpow_pos e
  have hbelow := mul_le_mul_of_nonneg_right hlow hu.le
  have habove := mul_lt_mul_of_pos_right hhigh hu
  refine ⟨?_, ?_, fun hodd => absurd hodd (by decide)⟩
  · rw [reach, if_pos ⟨rfl, by omega⟩, zpow_add_one₀ two_ne_zero]
    norm_num [mantissaBound] at hbelow ⊢
    linarith
  · rw [zpow_add_one₀ two_ne_zero]
    norm_num [mantissaBound] at habove ⊢
    linarith

/-- What a quotient is rounded to has the quotient in its interval. -/
theorem rounds_ofRatio (s : Bool) (hn : 0 < n) (hd : 0 < d) (hx : (n : ℚ) / d < roundingLimit) :
    ∃ m e h, ofRatio s n d = finite s m e h ∧ Rounds m e (n / d) := by
  obtain ⟨hmin, hhigh, hlow⟩ := gridExponent_spec hn hd
  generalize he : gridExponent n d = e at hmin hhigh hlow
  have hb := scale_pos n hd e
  have hhalf := abs_sub_roundQuotient_le (scale n d e).1 hb
  have hodd := abs_sub_roundQuotient_lt (scale n d e).1 hb
  generalize hm : roundQuotient (scale n d e).1 (scale n d e).2 = m at hhalf hodd
  obtain ⟨hmax, hle, hcarry, hnormal⟩ := roundQuotient_scale_spec hn hd hx he hm
  have hpack : ofRatio s n d = pack s m e := by
    simp only [ofRatio, if_neg hn.ne', he, hm]
  rw [hpack, div_eq_scale n d e, pack]
  rw [div_eq_scale n d e] at hhigh hlow
  generalize ((scale n d e).1 : ℚ) / (scale n d e).2 = q at hhalf hodd hhigh hlow
  have hu := two_zpow_pos e
  have hq := lt_of_mul_lt_mul_right hhigh hu.le
  by_cases hcarried : m = mantissaBound
  · have he' : e + 1 ≤ maxExponent := hcarry hcarried
    have hstart : 2 ^ 53 - 1 / 2 ≤ q := by
      rw [hcarried, mantissaBound_eq, abs_le] at hhalf
      linarith
    have h : Canonical (mantissaBound / 2) (e + 1) :=
      ⟨by decide, by omega, he', .inl (by decide)⟩
    refine ⟨mantissaBound / 2, e + 1, h, ?_, rounds_of_carry hmin hstart hq⟩
    rw [if_pos hcarried, hcarried]
    exact dif_pos h
  · have hstart := hlow.imp_right fun h => le_of_mul_le_mul_right h hu
    have h : Canonical m e := ⟨lt_of_le_of_ne hle hcarried, hmin, hmax, hnormal⟩
    refine ⟨m, e, h, ?_, rounds_of_near hhalf hodd hstart⟩
    rw [if_neg hcarried]
    exact dif_pos h

/-- **What is in the interval of a number is rounded to it.** -/
theorem ofRatio_of_rounds (hm : 0 < m) (h : Canonical m e) (hd : 0 < d)
    (hx : Rounds m e (n / d)) : ofRatio s n d = finite s m e h := by
  have hn : 0 < n := by
    have hm' : (1 : ℚ) ≤ m := by exact_mod_cast hm
    have hpos : (0 : ℚ) < (m - reach m e) * 2 ^ e :=
      mul_pos (by linarith [reach_le m e]) (two_zpow_pos e)
    by_contra hzero
    obtain rfl : n = 0 := by omega
    have hlower := hx.lower
    rw [Nat.cast_zero, zero_div] at hlower
    linarith
  obtain ⟨m', e', h', heq, hx'⟩ := rounds_ofRatio s hn hd (hx.lt_roundingLimit h)
  obtain ⟨rfl, rfl⟩ := hx.unique hx' h h'
  exact heq

end Rounded

/-! ### Powers of ten -/

lemma ten_zpow_pos (q : Int) : (0 : ℚ) < 10 ^ q := by positivity

/-- The exponents are compared after both powers are brought to one base, of which `hpow` says how
the other one compares. -/
lemma exponents_lt {a b : Int} {p q : Nat} (hp : p ≠ 0) (hpow : ((2 : ℚ) ^ p) ^ b ≤ (10 ^ q) ^ b)
    (h : (10 : ℚ) ^ a < 2 ^ b) : p * a < q * b := by
  have hlt : ((10 : ℚ) ^ a) ^ p < (2 ^ b) ^ p := pow_lt_pow_left₀ h (ten_zpow_pos a).le hp
  rw [← zpow_natCast, ← zpow_natCast, ← zpow_mul, ← zpow_mul] at hlt hpow
  rw [mul_comm (p : Int) b] at hpow
  have hten := (zpow_lt_zpow_iff_right₀ (by norm_num)).mp (hlt.trans_le hpow)
  linarith

/-- A power of ten below a power of two: the exponents are apart by nearly the ratio of the
logarithms, which is between `59 / 196` and `28 / 93`. -/
lemma exponents_of_ten_lt_two {a b : Int} (h : (10 : ℚ) ^ a < 2 ^ b) :
    (0 ≤ b → 93 * a < 28 * b) ∧ (b ≤ 0 → 196 * a < 59 * b) := by
  refine ⟨fun hb => ?_, fun hb => ?_⟩
  · exact exponents_lt (by decide) (zpow_le_zpow_left₀ hb (by positivity) (by norm_num)) h
  · obtain ⟨n, rfl⟩ := Int.exists_eq_neg_ofNat hb
    refine exponents_lt (by decide) ?_ h
    rw [zpow_neg, zpow_neg, zpow_natCast, zpow_natCast]
    exact inv_anti₀ (by positivity) (pow_le_pow_left₀ (by positivity) (by norm_num) n)

lemma exponents_of_two_lt_ten {a b : Int} (h : (2 : ℚ) ^ b < 10 ^ a) :
    (0 ≤ b → 59 * b < 196 * a) ∧ (b ≤ 0 → 28 * b < 93 * a) := by
  have hinv : (10 : ℚ) ^ (-a) < 2 ^ (-b) := by
    rw [zpow_neg, zpow_neg]
    exact inv_strictAnti₀ (two_zpow_pos b) h
  obtain ⟨hnonneg, hnonpos⟩ := exponents_of_ten_lt_two hinv
  exact ⟨fun hb => by linarith [hnonpos (by omega)], fun hb => by linarith [hnonneg (by omega)]⟩

/-- Comparing a decimal with a quotient, without fractions. -/
lemma mul_pow_le_iff {a d : Nat} (hd : 0 < d) (c : Nat) (q : Int) :
    a * Nat.pow 10 (-q).toNat ≤ c * Nat.pow 10 q.toNat * d ↔ (a : ℚ) / d ≤ c * 10 ^ q := by
  have hd' : (0 : ℚ) < d := by exact_mod_cast hd
  have hpow : (0 : ℚ) < 10 ^ (-q).toNat := by positivity
  rw [zpow_eq_div, ← mul_div_assoc, div_le_div_iff₀ hd' hpow, Nat.pow_eq, Nat.pow_eq]
  exact_mod_cast Iff.rfl

lemma le_mul_pow_iff {a d : Nat} (hd : 0 < d) (c : Nat) (q : Int) :
    c * Nat.pow 10 q.toNat * d ≤ a * Nat.pow 10 (-q).toNat ↔ (c : ℚ) * 10 ^ q ≤ a / d := by
  have hd' : (0 : ℚ) < d := by exact_mod_cast hd
  have hpow : (0 : ℚ) < 10 ^ (-q).toNat := by positivity
  rw [zpow_eq_div, ← mul_div_assoc, div_le_div_iff₀ hpow hd', Nat.pow_eq, Nat.pow_eq]
  exact_mod_cast Iff.rfl

/-! ### The position of the decimal point -/

section Point

variable {i : Interval}

/-- The position is found from every estimate that is off by less than the steps allowed. -/
lemma Interval.pointFrom_eq (hd : 0 < i.den) {k : Int} (hlow : (10 : ℚ) ^ (k - 1) ≤ i.value / i.den)
    (hhigh : (i.value : ℚ) / i.den < 10 ^ k) (fuel : Nat) (j : Int) (habove : j - k < fuel)
    (hbelow : k - j < fuel) : i.pointFrom fuel j = k := by
  -- the comparisons tell on which side of the position an estimate is
  have hle : ∀ l : Int, Nat.pow 10 l.toNat * i.den ≤ i.value * Nat.pow 10 (-l).toNat ↔ l < k := by
    intro l
    have hiff := le_mul_pow_iff (a := i.value) hd 1 l
    rw [one_mul, Nat.cast_one, one_mul] at hiff
    rw [hiff]
    refine ⟨fun h => ?_, fun h => ?_⟩
    · exact (zpow_lt_zpow_iff_right₀ (by norm_num)).mp (h.trans_lt hhigh)
    · exact (zpow_le_zpow_right₀ (by norm_num) (by omega)).trans hlow
  induction fuel generalizing j with
  | zero => omega
  | succ fuel ih =>
      rw [pointFrom]
      split_ifs with hup hdown
      · have hj := (hle j).mp hup
        exact ih (j + 1) (by omega) (by omega)
      · have hj := mt (hle (j - 1)).mpr (not_le.mpr hdown)
        exact ih (j - 1) (by omega) (by omega)
      · have hj := mt (hle j).mpr hup
        have hj' := (hle (j - 1)).mp (not_lt.mp hdown)
        omega

end Point

/-! ### The interval that is computed with -/

section Computed

variable {m : Nat} {e : Int}

lemma den_of_pos (m : Nat) (e : Int) : 0 < (Interval.of m e).den := by
  simp only [Interval.of, Nat.shiftLeft_eq]
  positivity

lemma value_of (m : Nat) (e : Int) :
    ((Interval.of m e).value : ℚ) / (Interval.of m e).den = m * 2 ^ e := by
  rw [Interval.of, shift_div_shift]
  push_cast
  ring

lemma upper_of (m : Nat) (e : Int) :
    ((Interval.of m e).upper : ℚ) / (Interval.of m e).den = (m + 1 / 2) * 2 ^ e := by
  rw [Interval.of, shift_div_shift]
  push_cast
  ring

lemma lower_of (hm : 0 < m) (e : Int) :
    ((Interval.of m e).lower : ℚ) / (Interval.of m e).den = (m - reach m e) * 2 ^ e := by
  rw [Interval.of, shift_div_shift]
  unfold reach
  split_ifs
  · rw [Nat.cast_sub (by omega)]
    push_cast
    ring
  · rw [Nat.cast_sub (by omega)]
    push_cast
    ring

/-- A decimal is found to be in the interval if and only if it is. -/
theorem holds_iff (hm : 0 < m) (e : Int) (c : Nat) (q : Int) :
    (Interval.of m e).holds c q = true ↔ Rounds m e (c * 10 ^ q) := by
  have hd := den_of_pos m e
  have hlower := mul_pow_le_iff (a := (Interval.of m e).lower) hd c q
  have hupper := le_mul_pow_iff (a := (Interval.of m e).upper) hd c q
  have hlower' := le_mul_pow_iff (a := (Interval.of m e).lower) hd c q
  have hupper' := mul_pow_le_iff (a := (Interval.of m e).upper) hd c q
  rw [lower_of hm] at hlower hlower'
  rw [upper_of] at hupper hupper'
  have hclosed : (Interval.of m e).closed = true ↔ m % 2 = 0 := by
    rw [Interval.of, decide_eq_true_iff]
  unfold Interval.holds
  dsimp only
  split_ifs with heven
  · rw [Bool.and_eq_true, decide_eq_true_iff, decide_eq_true_iff, hlower, hupper]
    refine ⟨fun ⟨hl, hu⟩ => ⟨hl, hu, fun hodd => ?_⟩, fun h => ⟨h.lower, h.upper⟩⟩
    rw [hclosed] at heven
    omega
  · rw [Bool.and_eq_true, decide_eq_true_iff, decide_eq_true_iff, ← not_le, hlower', ← not_le,
      hupper', not_le, not_le]
    refine ⟨fun ⟨hl, hu⟩ => ⟨hl.le, hu.le, fun _ => ⟨hl, hu⟩⟩, fun h => h.inside ?_⟩
    rw [hclosed] at heven
    omega

/-- **The position of the decimal point is found.** -/
theorem point_spec (hm : 0 < m) (h : Canonical m e) :
    (10 : ℚ) ^ ((Interval.of m e).point - 1) ≤ m * 2 ^ e ∧
      (m : ℚ) * 2 ^ e < 10 ^ (Interval.of m e).point ∧
      -400 < (Interval.of m e).point ∧ (Interval.of m e).point < 400 := by
  obtain ⟨hmax, hmin, hemax, -⟩ := h
  have hm' : (1 : ℚ) ≤ m := by exact_mod_cast hm
  have hmax' : (m : ℚ) < 2 ^ 53 := by
    rw [← mantissaBound_eq]
    exact_mod_cast hmax
  have hu := two_zpow_pos e
  have hd := den_of_pos m e
  have hpos : (0 : ℚ) < m * 2 ^ e := mul_pos (by linarith) hu
  obtain ⟨k, hlow, hhigh⟩ := exists_mem_Ico_zpow hpos (show (1 : ℚ) < 10 by norm_num)
  have hvalue : 0 < (Interval.of m e).value := by
    simp only [Interval.of, Nat.shiftLeft_eq]
    positivity
  obtain ⟨hbelow, habove⟩ := log2_bounds hvalue hd
  rw [value_of] at hbelow habove
  generalize hbits : ((Interval.of m e).value.log2 : Int) - (Interval.of m e).den.log2 = bits
    at hbelow habove
  -- the value is between the least and the largest number
  have hleast : (2 : ℚ) ^ e < 2 ^ (bits + 1) := by nlinarith
  have hlargest : (2 : ℚ) ^ (bits - 1) < 2 ^ (e + (53 : Nat)) := by
    rw [two_zpow_add]
    nlinarith
  have hleast := (zpow_lt_zpow_iff_right₀ (by norm_num)).mp hleast
  have hlargest := (zpow_lt_zpow_iff_right₀ (by norm_num)).mp hlargest
  -- so few bits leave the estimate near the position
  have hten := exponents_of_ten_lt_two (hlow.trans_lt habove)
  have htwo := exponents_of_two_lt_ten (hbelow.trans hhigh)
  unfold minExponent at hmin
  unfold maxExponent at hemax
  have hpoint : (Interval.of m e).point = k + 1 := by
    rw [Interval.point, hbits]
    refine Interval.pointFrom_eq hd ?_ ?_ 16 _ (by omega) (by omega)
    · rwa [value_of, add_sub_cancel_right]
    · rwa [value_of]
  rw [hpoint, add_sub_cancel_right]
  exact ⟨hlow, hhigh, by omega, by omega⟩

end Computed

/-! ### The search -/

/-- A candidate of `n` digits, with a carry into a new digit. -/
def Decimal.carried (c n : Nat) (point : Int) : Decimal :=
  if c = Nat.pow 10 n then ⟨Nat.pow 10 (n - 1), point + 1⟩ else ⟨c, point⟩

section Search

variable {i : Interval} {point : Int} {n : Nat} {d : Decimal}

/-- The number of units of the last digit in the value. -/
def Interval.units (i : Interval) (q : Int) : Nat :=
  i.value * Nat.pow 10 (-q).toNat / (i.den * Nat.pow 10 q.toNat)

/-- A candidate is one of the two decimals around the value, and is in the interval; there is none
if they are both outside. -/
lemma Interval.atLength?_cases (i : Interval) (point : Int) (n : Nat) :
    (∃ c, (c = i.units (point - n) ∨ c = i.units (point - n) + 1) ∧
      i.holds c (point - n) = true ∧ i.atLength? point n = some (.carried c n point)) ∨
    (i.holds (i.units (point - n)) (point - n) = false ∧
      i.holds (i.units (point - n) + 1) (point - n) = false ∧ i.atLength? point n = none) := by
  have hpick : ∀ c : Nat, (if c = Nat.pow 10 n then some ⟨Nat.pow 10 (n - 1), point + 1⟩
      else some ⟨c, point⟩) = some (Decimal.carried c n point) := by
    intro c
    rw [Decimal.carried]
    split_ifs <;> rfl
  unfold atLength?
  dsimp only
  simp only [hpick]
  rw [← units]
  cases hdown : i.holds (i.units (point - n)) (point - n) <;>
    cases hup : i.holds (i.units (point - n) + 1) (point - n)
  · exact .inr ⟨rfl, rfl, rfl⟩
  · exact .inl ⟨_, .inr rfl, hup, rfl⟩
  · exact .inl ⟨_, .inl rfl, hdown, rfl⟩
  · left
    simp only [Bool.and_self, if_true]
    split_ifs
    · exact ⟨_, .inl rfl, hdown, rfl⟩
    · exact ⟨_, .inr rfl, hup, rfl⟩
    · exact ⟨_, .inl rfl, hdown, rfl⟩
    · exact ⟨_, .inr rfl, hup, rfl⟩

lemma Interval.le_units_iff (hd : 0 < i.den) (c : Nat) (q : Int) :
    c ≤ i.units q ↔ (c : ℚ) * 10 ^ q ≤ i.value / i.den := by
  have hpos : 0 < i.den * Nat.pow 10 q.toNat := Nat.mul_pos hd (Nat.pow_pos (by decide))
  rw [units, Nat.le_div_iff_mul_le hpos, ← le_mul_pow_iff hd, mul_comm i.den, mul_assoc]

/-- The search ends with a candidate if there is one of seventeen digits. -/
lemma Interval.search_spec (hlast : i.atLength? point 17 ≠ none) (fuel : Nat) (hn : 0 < n)
    (hn' : n ≤ 17) (hfuel : n + fuel = 18) :
    ∃ k, 0 < k ∧ i.atLength? point k = some (i.search point fuel n) := by
  induction fuel generalizing n with
  | zero => omega
  | succ fuel ih =>
      rw [search]
      cases hcandidate : i.atLength? point n with
      | some d => exact ⟨n, hn, hcandidate⟩
      | none =>
          have hne : n ≠ 17 := by
            rintro rfl
            exact hlast hcandidate
          exact ih (by omega) (by omega) (by omega)

/-- A carry does not change the value, and leaves as many digits. -/
lemma carried_spec {c : Nat} (hn : 0 < n) (hlow : 10 ^ (n - 1) ≤ c) (hhigh : c ≤ 10 ^ n)
    (point : Int) :
    10 ^ (n - 1) ≤ (Decimal.carried c n point).digits ∧
      (Decimal.carried c n point).digits < 10 ^ n ∧
      ((Decimal.carried c n point).digits : ℚ) * 10 ^ ((Decimal.carried c n point).point - n) =
        c * 10 ^ (point - n) ∧
      ((Decimal.carried c n point).point = point ∨
        (Decimal.carried c n point).point = point + 1) := by
  obtain ⟨n, rfl⟩ := Nat.exists_eq_add_of_lt hn
  rw [zero_add, Nat.add_sub_cancel] at hlow
  rw [zero_add] at hhigh
  rw [zero_add, Nat.add_sub_cancel]
  unfold Decimal.carried
  simp only [Nat.pow_eq, Nat.add_sub_cancel]
  split_ifs with hcarry
  · refine ⟨le_rfl, Nat.pow_lt_pow_right (by decide) n.lt_succ_self, ?_, .inr rfl⟩
    rw [hcarry, show point + 1 - (n + 1 : Nat) = point - (n + 1 : Nat) + 1 by ring,
      zpow_add_one₀ (by norm_num)]
    push_cast
    ring
  · exact ⟨hlow, lt_of_le_of_ne hhigh hcarry, rfl, .inl rfl⟩

end Search

/-! ### The shortest decimals -/

section Shortest

variable {m : Nat} {e : Int}

lemma rounds_of_lt {x : ℚ} (hlower : (m - reach m e) * 2 ^ e < x) (hupper : x < (m + 1 / 2) * 2 ^ e) :
    Rounds m e x :=
  ⟨hlower.le, hupper.le, fun _ => ⟨hlower, hupper⟩⟩

/-- Decimals of seventeen digits are so dense that one of those around a number is rounded to it. -/
lemma rounds_of_seventeen (hm : 0 < m) (hmax : m < mantissaBound) {c : Nat} {u : ℚ}
    (hu : 10 ^ 16 * u ≤ m * 2 ^ e) (hbelow : c * u ≤ m * 2 ^ e)
    (habove : (m : ℚ) * 2 ^ e < (c + 1) * u) :
    Rounds m e (c * u) ∨ Rounds m e ((c + 1) * u) := by
  have hm' : (1 : ℚ) ≤ m := by exact_mod_cast hm
  have hmax' : (m : ℚ) < 2 ^ 53 := by
    rw [← mantissaBound_eq]
    exact_mod_cast hmax
  have hpow := two_zpow_pos e
  have hreach := mul_pos (reach_pos m e) hpow
  -- less than a unit of the last place, whatever the mantissa
  have hdense : 2 ^ 53 * 2 ^ e < (10 : ℚ) ^ 16 * 2 ^ e := mul_lt_mul_of_pos_right (by norm_num) hpow
  have hmpow : (m : ℚ) * 2 ^ e < 2 ^ 53 * 2 ^ e := mul_lt_mul_of_pos_right hmax' hpow
  by_cases hleast : m = mantissaBound / 2
  · right
    have hmeq : (m : ℚ) = 2 ^ 52 := by
      rw [hleast]
      norm_num [mantissaBound]
    rw [hmeq] at hu
    refine rounds_of_lt (by linarith) ?_
    norm_num at hu
    linarith
  · have hhalf : reach m e = 1 / 2 := if_neg fun h => hleast h.1
    rcases le_or_gt ((m : ℚ) * 2 ^ e - c * u) (u / 2) with hnear | hfar
    · left
      refine rounds_of_lt ?_ (by linarith)
      rw [hhalf]
      linarith
    · right
      exact rounds_of_lt (by linarith) (by linarith)

/-- The decimal of `n` digits below a number. -/
lemma units_bounds (hm : 0 < m) (h : Canonical m e) {n : Nat} (hn : 0 < n) :
    10 ^ (n - 1) ≤ (Interval.of m e).units ((Interval.of m e).point - n) ∧
      (Interval.of m e).units ((Interval.of m e).point - n) < 10 ^ n := by
  obtain ⟨hlow, hhigh, -, -⟩ := point_spec hm h
  generalize (Interval.of m e).point = point at hlow hhigh
  have hfirst : ((10 ^ (n - 1) : Nat) : ℚ) * 10 ^ (point - n) = 10 ^ (point - 1) := by
    rw [Nat.cast_pow, Nat.cast_ofNat, ← zpow_natCast, ← zpow_add₀ (by norm_num)]
    congr 1
    omega
  have hnext : ((10 ^ n : Nat) : ℚ) * 10 ^ (point - n) = 10 ^ point := by
    rw [Nat.cast_pow, Nat.cast_ofNat, ← zpow_natCast, ← zpow_add₀ (by norm_num)]
    congr 1
    omega
  have hd := den_of_pos m e
  rw [← not_le, Interval.le_units_iff hd, Interval.le_units_iff hd, hfirst, hnext, value_of]
  exact ⟨hlow, not_le.mpr hhigh⟩

lemma atLength?_seventeen (hm : 0 < m) (h : Canonical m e) :
    (Interval.of m e).atLength? (Interval.of m e).point 17 ≠ none := by
  obtain ⟨hlow, -, -, -⟩ := point_spec hm h
  generalize (Interval.of m e).point = point at hlow
  have hd := den_of_pos m e
  have hbelow := (Interval.le_units_iff hd _ (point - (17 : Nat))).mp le_rfl
  have habove := mt (Interval.le_units_iff hd _ (point - (17 : Nat))).mpr (Nat.not_succ_le_self _)
  rw [value_of] at hbelow habove
  rw [Nat.cast_succ, not_le] at habove
  have hu : (10 : ℚ) ^ 16 * 10 ^ (point - (17 : Nat)) ≤ m * 2 ^ e := by
    rw [← zpow_natCast, ← zpow_add₀ (by norm_num)]
    convert hlow using 2
    push_cast
    ring
  intro hnone
  rcases (Interval.of m e).atLength?_cases point 17 with ⟨c, -, -, hsome⟩ | ⟨hdown, hup, -⟩
  · rw [hnone] at hsome
    cases hsome
  · rw [← Bool.not_eq_true, holds_iff hm] at hdown hup
    rw [Nat.cast_succ] at hup
    exact (rounds_of_seventeen hm h.1 hu hbelow habove).elim hdown hup

/-- **The digits of a number are those of a decimal that is rounded to it.** -/
theorem shortest_spec (hm : 0 < m) (h : Canonical m e) :
    ∃ n : Nat, 0 < n ∧ 10 ^ (n - 1) ≤ (shortest m e).digits ∧ (shortest m e).digits < 10 ^ n ∧
      Rounds m e ((shortest m e).digits * 10 ^ ((shortest m e).point - n)) ∧
      -400 < (shortest m e).point ∧ (shortest m e).point ≤ 400 := by
  obtain ⟨-, -, hmin, hmax⟩ := point_spec hm h
  obtain ⟨n, hn, hsearch⟩ : ∃ n, 0 < n ∧
      (Interval.of m e).atLength? (Interval.of m e).point n = some (shortest m e) :=
    Interval.search_spec (atLength?_seventeen hm h) 17 (by decide) (by decide) rfl
  obtain ⟨hfirst, hnext⟩ := units_bounds hm h hn
  generalize (Interval.of m e).point = point at hmin hmax hsearch hfirst hnext
  rcases (Interval.of m e).atLength?_cases point n with ⟨c, hc, hholds, hsome⟩ | ⟨-, -, hnone⟩
  · rw [hsearch, Option.some.injEq] at hsome
    obtain ⟨hdigits, hdigits', hvalue, hcarry⟩ :=
      carried_spec (c := c) hn (by omega) (by omega) point
    rw [← hsome] at hdigits hdigits' hvalue hcarry
    refine ⟨n, hn, hdigits, hdigits', ?_, by omega, by omega⟩
    rw [hvalue]
    exact (holds_iff hm e c _).mp hholds
  · rw [hsearch] at hnone
    cases hnone

end Shortest

end Pseudocode.Number
