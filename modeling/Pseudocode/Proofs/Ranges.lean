/-
# Random integers and their range

A program asks for a random integer between two numbers.  The least and the greatest such integer are
exact, but the difference between them is rounded, and so are the offset that is drawn and the sum
that is the result.

The number of offsets is always one that can be drawn from, and the results are integers that are
not below the range.  They may be above it: where the difference is rounded up, there are more
offsets than integers in the range.

The main results are

* `RandomSource.below_lt`: what is drawn is below its bound;
* `Builtins.accepts_of_randomRange`: what is known of a range that is not refused;
* `Builtins.random_results`: what the results are;
* `Session.random_overshoots`: a result above the range.
-/
import Pseudocode.Host.Builtins
import Pseudocode.Proofs.Rounding
import Pseudocode.Proofs.Schedule

namespace Pseudocode

/-- What is drawn is below its bound. -/
lemma RandomSource.below_lt (r : RandomSource) {n : Nat} (hn : 0 < n) : (r.below n).1 < n := by
  fun_cases below r n with
  | case1 _ v _ _ => exact Nat.lt_of_le_of_lt Nat.and_le_right (Nat.sub_lt hn Nat.one_pos)
  | case2 _ _ v _ _ => exact Nat.mod_lt v hn

namespace Builtins

open Number

variable {a b lo : Number} {n k : Nat}

lemma widthLimit_eq : widthLimit = .finite false 4503599627370496 11 (by decide) := by
  decide +kernel

lemma proper_widthLimit : widthLimit.Proper ∧ widthLimit.toRat = 2 ^ 63 := by
  rw [widthLimit_eq]
  refine ⟨.finite _, ?_⟩
  rw [toRat_finite, signed_false]
  norm_num

lemma proper_of_finite (hnan : a.isNaN = false) (hinfinite : a.isInfinite = false) :
    a.Proper := by
  cases a with
  | nan => cases hnan
  | infinity s => cases hinfinite
  | finite s m e h => exact .finite h

/-- A range from `lo` up to `hi` with `n` offsets that is not refused. -/
structure Accepts (a b lo : Number) (n : Nat) : Prop where
  left : a.Proper
  right : b.Proper
  lowest : lo = a.ceil
  ordered : ⌈a.toRat⌉ ≤ ⌊b.toRat⌋
  /-- The difference is rounded to one less than the number of offsets. -/
  width : Nearest ((⌊b.toRat⌋ - ⌈a.toRat⌉ : Int) : ℚ) (b.floor.sub a.ceil)
  offsets : (b.floor.sub a.ceil).toRat = ((n - 1 : Int) : ℚ)
  least : 1 ≤ n
  most : (n : Int) ≤ maxInt64
  unwrapped : (n : Int) = (b.floor.sub a.ceil).toInt64 + 1

/-- A difference that is not too wide is finite. -/
lemma sub_lt_roundingLimit (ha : a.Proper) (hb : b.Proper)
    (hwide : widthLimit.le (b.sub a) = false) : b.toRat - a.toRat < roundingLimit := by
  by_contra hge
  have hsub : b.sub a = .infinity false := by
    refine add_of_limit_le hb ha.neg ?_
    rw [toRat_neg]
    linarith
  rw [hsub, widthLimit_eq] at hwide
  cases hwide

/-- The difference of integers is rounded to an integer, and `2 ^ 63 - 1` is none that it can be
rounded to. -/
lemma exists_width {i j : Int} (ha : a.Proper) (hb : b.Proper) (hi : a.toRat = i)
    (hj : b.toRat = j) (hij : i ≤ j) (hwide : widthLimit.le (b.sub a) = false) :
    Nearest ((j - i : Int) : ℚ) (b.sub a) ∧
      ∃ d : Int, (b.sub a).toRat = d ∧ 0 ≤ d ∧ d + 1 ≤ maxInt64 := by
  have hle : (i : ℚ) ≤ j := by exact_mod_cast hij
  have hdiff : b.toRat - a.toRat = ((j - i : Int) : ℚ) := by
    rw [hi, hj]
    push_cast
    rfl
  have hnear : Nearest ((j - i : Int) : ℚ) (b.sub a) := by
    rw [← hdiff]
    refine nearest_sub hb ha ?_
    rw [abs_of_nonneg (by rw [hi, hj]; linarith)]
    exact sub_lt_roundingLimit ha hb hwide
  obtain ⟨d, hd⟩ := hnear.exists_int
  have hnonneg := hnear.ge_of_ge (proper_zero false) (by
    rw [toRat_zero]
    push_cast
    linarith)
  obtain ⟨hlimit, hlimitValue⟩ := proper_widthLimit
  have hlt : (b.sub a).toRat < 2 ^ 63 := by
    rw [← not_le, ← hlimitValue, ← le_iff hlimit hnear.proper, hwide]
    decide
  refine ⟨hnear, d, hd, ?_, ?_⟩
  · rw [toRat_zero, hd] at hnonneg
    exact_mod_cast hnonneg
  · rw [hd] at hlt
    have hlt' : d < 2 ^ 63 := by exact_mod_cast hlt
    rcases lt_or_ge (d : ℚ) (2 ^ 53) with hsmall | hlarge
    · have hsmall' : d < 2 ^ 53 := by exact_mod_cast hsmall
      unfold maxInt64
      omega
    · rw [← hd] at hlarge
      obtain ⟨c, hc⟩ := exists_even_of_le hnear.proper hlarge
      rw [hd] at hc
      have hc' : d = 2 * c := by exact_mod_cast hc
      unfold maxInt64
      omega

theorem accepts_of_randomRange (h : randomRange a b = .ok (lo, n)) : Accepts a b lo n := by
  unfold randomRange at h
  split at h
  · cases h
  · rename_i hfinite
    simp only [Bool.or_eq_true, not_or, Bool.not_eq_true] at hfinite
    obtain ⟨⟨⟨hanan, hbnan⟩, hainf⟩, hbinf⟩ := hfinite
    have hleft := proper_of_finite hanan hainf
    have hright := proper_of_finite hbnan hbinf
    obtain ⟨hlo, hloValue⟩ := proper_ceil hleft
    obtain ⟨hhi, hhiValue⟩ := proper_floor hright
    dsimp only at h
    split at h
    · cases h
    · rename_i hordered
      split at h
      · cases h
      · rename_i hwide
        obtain ⟨rfl, rfl⟩ := Prod.mk.inj (Except.ok.inj h)
        have hle : ⌈a.toRat⌉ ≤ ⌊b.toRat⌋ := by
          rw [lt_iff hhi hlo, not_lt, hloValue, hhiValue] at hordered
          exact_mod_cast hordered
        obtain ⟨hnear, d, hd, hnonneg, hmost⟩ :=
          exists_width hlo hhi hloValue hhiValue hle (Bool.not_eq_true _ ▸ hwide)
        have hfits : fitsInt64 d = true := by
          rw [fitsInt64, Bool.and_eq_true, decide_eq_true_eq, decide_eq_true_eq, minInt64]
          omega
        have hint := toInt64_eq hnear.proper hd hfits
        have hn : (((b.floor.sub a.ceil).toInt64 + 1).toNat : Int) = d + 1 := by
          rw [hint]
          omega
        exact ⟨hleft, hright, rfl, hle, hnear, by rw [hn, hd]; push_cast; ring, by omega,
          by omega, by rw [hn, hint]⟩

lemma Accepts.offset_le (h : Accepts a b lo n) : ((n - 1 : Int) : ℚ) ≤ 2 ^ 63 := by
  have hmost := h.most
  have hle : (n - 1 : Int) ≤ 2 ^ 63 := by
    unfold maxInt64 at hmost
    omega
  exact_mod_cast hle

/-- The last offset is not changed by rounding, since the difference has been rounded to it. -/
lemma Accepts.toRat_last (h : Accepts a b lo n) :
    (ofNat (n - 1)).toRat = ((n - 1 : Int) : ℚ) := by
  have hn := h.offset_le
  have hcast : ((n - 1 : Nat) : ℚ) = ((n - 1 : Int) : ℚ) := by
    rw [Nat.cast_sub h.least]
    push_cast
    rfl
  have hnear := nearest_ofNat (n := n - 1) (lt_roundingLimit (by rw [hcast]; linarith))
  rw [hcast, ← h.offsets] at hnear
  rw [hnear.eq h.width.proper, h.offsets]

/-- The results for the offsets of a range. -/
lemma exists_result (h : Accepts a b lo n) (hk : k < n) :
    ∃ (offset : Int) (r : Int), (ofNat k).Proper ∧ (ofNat k).toRat = offset ∧ offset ≤ n - 1 ∧
      Nearest ((⌈a.toRat⌉ + offset : Int) : ℚ) (randomAt lo k) ∧
      (randomAt lo k).toRat = r ∧ ⌈a.toRat⌉ ≤ r := by
  obtain ⟨hlo, hloValue⟩ := proper_ceil h.left
  rw [← h.lowest] at hlo hloValue
  have hkn : (k : Int) ≤ n - 1 := by omega
  have hkn' : (k : ℚ) ≤ ((n - 1 : Int) : ℚ) := by exact_mod_cast hkn
  have hn := h.offset_le
  -- the offset is rounded, but not beyond the last one
  have hoffset := nearest_ofNat (n := k) (lt_roundingLimit (by linarith))
  have hle := hoffset.le_of_le h.width.proper (by rw [h.offsets]; exact hkn')
  rw [h.offsets] at hle
  have hnonneg := hoffset.ge_of_ge (proper_zero false) (by rw [toRat_zero]; positivity)
  rw [toRat_zero] at hnonneg
  rw [← Int.cast_natCast] at hoffset
  obtain ⟨offset, hvalue⟩ := hoffset.exists_int
  rw [hvalue] at hle hnonneg
  -- the sum is rounded, but not below the least integer of the range
  have hsum : lo.toRat + (ofNat k).toRat = ((⌈a.toRat⌉ + offset : Int) : ℚ) := by
    rw [hloValue, hvalue]
    push_cast
    rfl
  have hbound := abs_le.mp hlo.abs_toRat_le
  have hlarge : (2 : ℚ) ^ ((65 : Nat) : Int) ≤ 2 ^ maxExponent :=
    zpow_le_zpow_right₀ one_le_two (by decide)
  rw [zpow_natCast] at hlarge
  have hnear := nearest_add hlo hoffset.proper (by
    rw [hvalue, roundingLimit, abs_lt]
    constructor <;> linarith)
  rw [hsum] at hnear
  have hge := hnear.ge_of_ge hlo (by rw [← hsum, hvalue]; linarith)
  obtain ⟨r, hr⟩ := hnear.exists_int
  refine ⟨offset, r, hoffset.proper, hvalue, by exact_mod_cast hle, hnear, hr, ?_⟩
  rw [hr, hloValue] at hge
  exact_mod_cast hge

/-- A natural number is rounded to a number without a sign. -/
lemma eq_of_toRat_ofNat_eq {j : Nat} (hj : (ofNat j).Proper) (hk : (ofNat k).Proper)
    (heq : (ofNat j).toRat = (ofNat k).toRat) : ofNat j = ofNat k := by
  have hunsigned : ∀ i m e h, ofNat i ≠ .finite true m e h := by
    intro i m e h
    unfold ofNat ofRatio
    split
    · simp [zero]
    · dsimp only [pack]
      split <;> split <;> simp
  generalize hx : ofNat j = x at hj heq
  generalize hy : ofNat k = y at hk heq
  cases hj with
  | @finite s m e hc =>
      cases hk with
      | @finite s' m' e' hc' =>
          cases s with
          | true => exact absurd hx (hunsigned j m e hc)
          | false =>
              cases s' with
              | true => exact absurd hy (hunsigned k m' e' hc')
              | false =>
                  obtain ⟨rfl, rfl⟩ := hc.unique hc' (by simpa [toRat_finite, signed] using heq)
                  rfl

/-- No offset has a result above that of the last one. -/
lemma result_le_last (h : Accepts a b lo n) (hk : k < n) :
    (randomAt lo k).toRat ≤ (randomAt lo (n - 1)).toRat := by
  obtain ⟨offset, -, hproper, hvalue, hle, hnear, -, -⟩ := exists_result h hk
  obtain ⟨last, -, hproper', hvalue', -, hnear', -, -⟩ :=
    exists_result h (Nat.sub_lt h.least one_pos)
  obtain rfl : last = n - 1 := by
    rw [h.toRat_last] at hvalue'
    exact_mod_cast hvalue'.symm
  rcases hle.lt_or_eq with hlt | rfl
  · exact hnear.mono hnear' (by exact_mod_cast Int.add_lt_add_left hlt _)
  · rw [randomAt, randomAt, eq_of_toRat_ofNat_eq hproper hproper' (hvalue.trans hvalue'.symm)]

/-- A difference of at most 53 bits is not rounded. -/
lemma Accepts.eq_of_le (h : Accepts a b lo n) (hle : ⌊b.toRat⌋ - ⌈a.toRat⌉ ≤ 2 ^ 53) :
    (n : Int) - 1 = ⌊b.toRat⌋ - ⌈a.toRat⌉ := by
  obtain ⟨d, hd⟩ := Int.eq_ofNat_of_zero_le (Int.sub_nonneg_of_le h.ordered)
  have hnear := h.width
  rw [hd] at hnear hle ⊢
  obtain ⟨hproper, hvalue⟩ := proper_ofNat (n := d) (by unfold mantissaBound; omega)
  rw [Int.cast_natCast, ← hvalue] at hnear
  have heq := hnear.eq hproper
  rw [h.offsets, hvalue] at heq
  exact_mod_cast heq

/-- **What a random integer is.**  Take any two values that read as finite numbers `a` and `b` for
which a range is not refused.

* Its offsets are drawn from `n` ones; this is at least one and at most `2 ^ 63 - 1`, and it is one
  more than the difference, which fits into 64 bits.  What is drawn is below `n`.
* For whatever is drawn the result is a finite integer, and it is not below `a`.
* The last offset has the greatest result.  So all results are at most `b` if and only if this one
  is; and this is so if the difference between the greatest and the least integer of the range has
  not been rounded up.
* It is not rounded at all if it is at most `2 ^ 53`. -/
theorem random_results {v w : Value}
    (h : randomRange v.asNumber w.asNumber = .ok (lo, n)) :
    random [v, w] = .ask (.draw n) (fun k => .pure (.number (randomAt lo k))) ∧
    1 ≤ n ∧ (n : Int) ≤ maxInt64 ∧
    (n : Int) = (w.asNumber.floor.sub v.asNumber.ceil).toInt64 + 1 ∧
    (∀ source : RandomSource, (source.below n).1 < n) ∧
    (∀ k < n, (randomAt lo k).Proper ∧ ∃ r : Int, (randomAt lo k).toRat = r ∧
      ⌈v.asNumber.toRat⌉ ≤ r ∧ (randomAt lo k).toRat ≤ (randomAt lo (n - 1)).toRat) ∧
    ((∀ k < n, (randomAt lo k).toRat ≤ ⌊w.asNumber.toRat⌋) ↔
      (randomAt lo (n - 1)).toRat ≤ ⌊w.asNumber.toRat⌋) ∧
    ((n : Int) - 1 ≤ ⌊w.asNumber.toRat⌋ - ⌈v.asNumber.toRat⌉ →
      ∀ k < n, (randomAt lo k).toRat ≤ ⌊w.asNumber.toRat⌋) ∧
    (⌊w.asNumber.toRat⌋ - ⌈v.asNumber.toRat⌉ ≤ 2 ^ 53 →
      (n : Int) - 1 = ⌊w.asNumber.toRat⌋ - ⌈v.asNumber.toRat⌉) := by
  have ha := accepts_of_randomRange h
  have hlast : n - 1 < n := Nat.sub_lt ha.least one_pos
  refine ⟨by simp only [random, h]; rfl, ha.least, ha.most, ha.unwrapped,
    fun source => source.below_lt ha.least, fun k hk => ?_, ⟨fun hall => hall _ hlast, ?_⟩, ?_,
    ha.eq_of_le⟩
  · obtain ⟨_, r, -, -, -, hnear, hr, hle⟩ := exists_result ha hk
    exact ⟨hnear.proper, r, hr, hle, result_le_last ha hk⟩
  · exact fun hle k hk => (result_le_last ha hk).trans hle
  · intro hdiff k hk
    obtain ⟨offset, -, -, -, hle, hnear, -, -⟩ := exists_result ha hk
    obtain ⟨hhi, hhiValue⟩ := proper_floor ha.right
    rw [← hhiValue]
    refine hnear.le_of_le hhi ?_
    rw [hhiValue]
    exact_mod_cast (by omega : ⌈v.asNumber.toRat⌉ + offset ≤ ⌊w.asNumber.toRat⌋)

/-- A range from a number with a fraction up to a text that reads as a number. -/
theorem random_results_of_text :
    let v := Value.number (.finite true 5629499534213120 (-51) (by decide))
    let w := Value.text " 1e1 "
    let lo := Number.finite true 4503599627370496 (-51) (by decide)
    randomRange v.asNumber w.asNumber = .ok (lo, 13) ∧
    ∀ k < 13, (randomAt lo k).toRat ≤ ⌊w.asNumber.toRat⌋ := by
  intro v w lo
  have hnumber : w.asNumber = .finite false 5629499534213120 (-49) (by decide) := by
    decide +kernel
  have hrange : randomRange v.asNumber w.asNumber = .ok (lo, 13) := by decide +kernel
  obtain ⟨-, -, -, -, -, -, -, hwithin, -⟩ := random_results hrange
  refine ⟨hrange, hwithin ?_⟩
  have hleft : ⌈v.asNumber.toRat⌉ = -2 := by
    rw [Int.ceil_eq_iff]
    norm_num [v, Value.asNumber, toRat, signed]
  have hright : ⌊w.asNumber.toRat⌋ = 10 := by
    rw [hnumber, Int.floor_eq_iff]
    norm_num [toRat, signed]
  rw [hleft, hright]
  decide

end Builtins

namespace Session

/-- The integers from `-(2 ^ 53 + 2)` up to one are `2 ^ 53 + 4` many, and the difference between
the last and the first of them is one less, which is rounded up. -/
def overshooting : Program where
  statements := [
    .assignment .none (.identifier .none "x") (.call .none (some ⟨.none, "RANDOM"⟩)
      [.literal .none (.number (.ofInt (-9007199254740994))), .literal .none (.number 1)])]

/-- For one of the offsets the result is two, which is not in the range up to one; and it is the
result of a run. -/
theorem random_overshoots :
    Builtins.randomRange (.ofInt (-9007199254740994)) 1 =
      .ok (.ofInt (-9007199254740994), 9007199254740997) ∧
    Builtins.randomAt (.ofInt (-9007199254740994)) 9007199254740996 = 2 ∧
    (⌊(1 : Number).toRat⌋ : ℚ) < (2 : Number).toRat ∧
    let s := (begun overshooting
      { plugins := [Builtins.plugin]
        random := ⟨fun _ => ⟨9007199254740996, by decide⟩⟩ }).advance 25
    s.controller.phase = .completed ∧ s.machine.store.resolve? "x" = some (.number 2) := by
  have hone : (1 : Number) = .finite false 4503599627370496 (-52) (by decide) := by decide +kernel
  have htwo : (2 : Number) = .finite false 4503599627370496 (-51) (by decide) := by decide +kernel
  refine ⟨by decide +kernel, by decide +kernel, ?_, by decide +kernel, by decide +kernel⟩
  have hfloor : ⌊(1 : Number).toRat⌋ = 1 := by
    rw [hone, Int.floor_eq_iff]
    norm_num [Number.toRat, Number.signed]
  rw [hfloor, htwo]
  norm_num [Number.toRat, Number.signed]

end Session

end Pseudocode
