/-
# Numbers that are written and read

A number is written as a numeral: a row of digits with a point in it, and an exponent if the
magnitude is very large or very small.  A numeral stands for a rational, and reading it gives the
number that the rational is rounded to.  The digits that are written are those of a decimal that is
rounded to the number, wherever the point has been put.  So every number is read as it was written,
and what is written of different numbers differs.

The main results are

* `Number.Written.read?_eq`: reading a numeral is rounding what it stands for;
* `Number.written_magnitude`: a magnitude is written as a numeral for a decimal in its interval;
* `Number.read?_format`: a number is read as it was written;
* `Number.format_injective`: the texts of different numbers are different.
-/
import Mathlib.Data.List.DropRight
import Pseudocode.Number.Reading
import Pseudocode.Number.Writing
import Pseudocode.Proofs.Documents
import Pseudocode.Proofs.Shortest

namespace Pseudocode.Number

/-! ### Rows of digits -/

/-- All characters are decimal digits. -/
def Digits (cs : List Char) : Prop := ∀ c ∈ cs, c.isDigit = true

lemma digits_append {cs cs' : List Char} : Digits (cs ++ cs') ↔ Digits cs ∧ Digits cs' :=
  List.forall_mem_append

lemma digits_zeros (k : Nat) : Digits (List.replicate k '0') := by
  intro c hc
  rw [List.eq_of_mem_replicate hc]
  decide

lemma digits_zero : Digits ['0'] := digits_zeros 1

lemma digits_toDigits (n : Nat) : Digits (Nat.toDigits 10 n) := (numeral_toDigits n).isDigit

lemma digitsValue_toDigits (n : Nat) : digitsValue 10 (Nat.toDigits 10 n) = n :=
  (digitsValue_eq_ofDigitChars _ 0 (digits_toDigits n)).trans Nat.ofDigitChars_ten_toDigits

/-- Zeros in front do not count. -/
lemma digitsValue_zeros_append (radix k : Nat) (cs : List Char) :
    digitsValue radix (List.replicate k '0' ++ cs) = digitsValue radix cs := by
  have hzero : digitValue '0' = 0 := rfl
  induction k with
  | zero => rfl
  | succ k ih =>
      rw [List.replicate_succ, List.cons_append, digitsValue, List.foldl_cons, hzero, zero_mul]
      exact ih

/-- Each zero at the end multiplies by ten. -/
lemma digitsValue_append_zeros (cs : List Char) (k : Nat) :
    digitsValue 10 (cs ++ List.replicate k '0') = digitsValue 10 cs * 10 ^ k := by
  induction k with
  | zero => simp
  | succ k ih =>
      rw [List.replicate_succ', ← List.append_assoc, digitsValue, List.foldl_append, ← digitsValue,
        ih, pow_succ, ← mul_assoc]
      rfl

lemma length_toDigits {n k : Nat} (hn : 0 < n) (hlow : 10 ^ (n - 1) ≤ k) (hhigh : k < 10 ^ n) :
    (Nat.toDigits 10 k).length = n := by
  have hle := (Nat.length_toDigits_le_iff (b := 10) (by decide) hn).mpr hhigh
  have hpos := Nat.length_toDigits_pos (b := 10) (n := k)
  by_contra hne
  have hlt := (Nat.length_toDigits_le_iff (b := 10) (n := k) (k := n - 1) (by decide)
    (by omega)).mp (by omega)
  omega

/-- The characters of a decimal are its digits but for zeros at the end. -/
lemma exists_zeros (d : Decimal) :
    ∃ k, Nat.toDigits 10 d.digits = d.chars ++ List.replicate k '0' := by
  have hsplit : d.chars ++ (Nat.toDigits 10 d.digits).rtakeWhile (· == '0') =
      Nat.toDigits 10 d.digits := List.rdropWhile_append_rtakeWhile
  have hzeros : ∀ c ∈ (Nat.toDigits 10 d.digits).rtakeWhile (· == '0'), c = '0' := by
    intro c hc
    simpa using List.mem_rtakeWhile_imp hc
  rw [List.eq_replicate_of_mem hzeros] at hsplit
  exact ⟨_, hsplit.symm⟩

/-- The decimal is `0.d₁d₂…` times a power of ten with these characters as well. -/
lemma chars_spec {d : Decimal} {n : Nat} (hn : 0 < n) (hlow : 10 ^ (n - 1) ≤ d.digits)
    (hhigh : d.digits < 10 ^ n) :
    Digits d.chars ∧ d.chars ≠ [] ∧
      (d.digits : ℚ) * 10 ^ (d.point - n) =
        digitsValue 10 d.chars * 10 ^ (d.point - d.chars.length) := by
  obtain ⟨k, hzeros⟩ := exists_zeros d
  have hdigits := digits_toDigits d.digits
  have hvalue := digitsValue_toDigits d.digits
  have hlength := length_toDigits hn hlow hhigh
  rw [hzeros, digits_append] at hdigits
  rw [hzeros, digitsValue_append_zeros] at hvalue
  rw [hzeros, List.length_append, List.length_replicate] at hlength
  refine ⟨hdigits.1, fun hnil => ?_, ?_⟩
  · rw [hnil, digitsValue, List.foldl_nil, zero_mul] at hvalue
    have hpos : 0 < 10 ^ (n - 1) := Nat.pow_pos (by decide)
    omega
  · rw [← hvalue, ← hlength]
    have hpoint : d.point - d.chars.length = k + (d.point - (d.chars.length + k : Nat)) := by
      push_cast
      ring
    rw [hpoint, zpow_add₀ (by norm_num), zpow_natCast]
    push_cast
    ring

/-! ### Exponents -/

lemma le_foldl_digits (cs : List Char) (n : Nat) :
    n ≤ cs.foldl (fun n c => n * 10 + digitValue c) n := by
  induction cs generalizing n with
  | nil => exact le_rfl
  | cons c cs ih => exact le_trans (by omega) (ih (n * 10 + digitValue c))

/-- An exponent that is within every range is not cut off. -/
lemma exponentValue_eq {cs : List Char} (hcs : digitsValue 10 cs < 10000) :
    exponentValue cs = digitsValue 10 cs := by
  have hfold : ∀ n, cs.foldl (fun n c => n * 10 + digitValue c) n < 10000 →
      cs.foldl (fun e c => if e < 10000 then e * 10 + digitValue c else e) n =
        cs.foldl (fun n c => n * 10 + digitValue c) n := by
    clear hcs
    induction cs with
    | nil => exact fun _ _ => rfl
    | cons c cs ih =>
        intro n hn
        rw [List.foldl_cons] at hn
        have hle := le_foldl_digits cs (n * 10 + digitValue c)
        rw [List.foldl_cons, List.foldl_cons, if_pos (by omega)]
        exact ih _ hn
  exact hfold 0 hcs

lemma isDigitOf_of_isDigit {c : Char} (h : c.isDigit = true) : isDigitOf false c = true := by
  obtain ⟨h0, h9⟩ := isDigit_bounds h
  simp [isDigitOf, h0, h9]

lemma Digits.filter_eq {cs : List Char} (h : Digits cs) : cs.filter (· != '_') = cs := by
  refine List.filter_eq_self.mpr fun c hc => ?_
  rw [bne_iff_ne]
  rintro rfl
  exact absurd (h _ hc) (by decide)

/-- An exponent is a sign with digits after it. -/
lemma exponentText_spec (e : Int) :
    ∃ cs, exponentText e = (if e < 0 then '-' else '+') :: cs ∧ Digits cs ∧ cs ≠ [] ∧
      digitsValue 10 cs = e.natAbs := by
  have hdigits := digits_toDigits e.natAbs
  refine ⟨_, rfl, ?_, ?_, ?_⟩
  · split_ifs
    · exact List.forall_mem_cons.mpr ⟨by decide, hdigits⟩
    · exact hdigits
  · split_ifs
    · simp
    · exact Nat.toDigits_ne_nil
  · split_ifs
    · exact (digitsValue_zeros_append 10 1 _).trans (digitsValue_toDigits _)
    · exact digitsValue_toDigits _

/-- An exponent is read as it was written. -/
lemma readExponent?_exponentText {e : Int} (he : e.natAbs < 10000) :
    readExponent? (exponentText e) = some e := by
  obtain ⟨cs, htext, hdigits, hne, hvalue⟩ := exponentText_spec e
  obtain ⟨c, cs, rfl⟩ := List.exists_cons_of_ne_nil hne
  have hall : (c :: cs).all (fun c => isDigitOf false c || c == '_') = true :=
    List.all_eq_true.mpr fun c hc => by simp [isDigitOf_of_isDigit (hdigits c hc)]
  have hfirst := isDigitOf_of_isDigit (hdigits c List.mem_cons_self)
  -- The digits are read alike after either sign.
  have hread : ∀ negative,
      (if isDigitOf false c && (c :: cs).all (fun c => isDigitOf false c || c == '_')
        then some (signed negative (exponentValue ((c :: cs).filter (· != '_')))) else none) =
          some (signed negative e.natAbs) := by
    intro negative
    rw [hfirst, hall, hdigits.filter_eq, exponentValue_eq (by omega), hvalue]
    rfl
  rw [htext]
  by_cases hneg : e < 0
  · rw [if_pos hneg]
    refine (hread true).trans ?_
    rw [signed, if_pos rfl]
    congr 1
    omega
  · rw [if_neg hneg]
    refine (hread false).trans ?_
    rw [signed_false]
    congr 1
    omega

/-! ### Numerals -/

/-- A point with the digits after it, or neither. -/
inductive Fraction : (text fraction : List Char) → Prop where
  | none : Fraction [] []
  | some {cs : List Char} (h : Digits cs) : Fraction ('.' :: cs) cs

/-- An exponent within every range, or none, which is as good as zero. -/
inductive Exponent : (text : List Char) → Int → Prop where
  | none : Exponent [] 0
  | some {e : Int} (h : e.natAbs < 10000) : Exponent ('e' :: exponentText e) e

/-- The text is a numeral without a sign, and stands for the rational. -/
inductive Written : (text : List Char) → ℚ → Prop where
  | intro {whole point fraction tail : List Char} {e : Int} (hwhole : Digits whole)
      (hne : whole ≠ []) (hpoint : Fraction point fraction) (htail : Exponent tail e) :
      Written (whole ++ point ++ tail)
        (digitsValue 10 (whole ++ fraction) * 10 ^ (e - fraction.length))

lemma Digits.ne_point {cs : List Char} (h : Digits cs) : ∀ c ∈ cs, (c != '.') = true := by
  intro c hc
  rw [bne_iff_ne]
  rintro rfl
  exact absurd (h _ hc) (by decide)

/-- The parts of a numeral are found in it. -/
lemma split_numeral {whole point fraction : List Char} (hwhole : Digits whole)
    (hpoint : Fraction point fraction) :
    ((whole ++ point).takeWhile (· != '.')).filter (· != '_') = whole ∧
      (((whole ++ point).dropWhile (· != '.')).drop 1).filter (· != '_') = fraction ∧
      (whole ++ point).count '.' ≤ 1 := by
  have hnone := List.count_eq_zero.mpr fun hmem => bne_iff_ne.mp (hwhole.ne_point '.' hmem) rfl
  rw [List.takeWhile_append_of_pos hwhole.ne_point, List.dropWhile_append_of_pos hwhole.ne_point,
    List.count_append, hnone]
  cases hpoint with
  | none =>
      rw [List.takeWhile_nil, List.append_nil, hwhole.filter_eq]
      exact ⟨rfl, rfl, by simp⟩
  | @some cs hcs =>
      have hnone := List.count_eq_zero.mpr fun hmem => bne_iff_ne.mp (hcs.ne_point '.' hmem) rfl
      rw [List.takeWhile_cons_of_neg (by decide), List.append_nil, hwhole.filter_eq,
        List.dropWhile_cons_of_neg (by decide), List.drop_one, List.tail_cons, hcs.filter_eq,
        List.count_cons_self, hnone]
      exact ⟨rfl, rfl, by simp⟩

/-- What is read before the exponent is the digits and the point. -/
lemma takeWhile_numeral {whole point fraction tail : List Char} {e : Int} (hwhole : Digits whole)
    (hpoint : Fraction point fraction) (htail : Exponent tail e) :
    (whole ++ point ++ tail).takeWhile (fun c => isDigitOf false c || c == '_' || c == '.') =
      whole ++ point := by
  have hdigits : ∀ {cs : List Char}, Digits cs → ∀ c ∈ cs,
      (isDigitOf false c || c == '_' || c == '.') = true :=
    fun hcs c hc => by simp [isDigitOf_of_isDigit (hcs c hc)]
  have hin : ∀ c ∈ whole ++ point, (isDigitOf false c || c == '_' || c == '.') = true := by
    refine List.forall_mem_append.mpr ⟨hdigits hwhole, ?_⟩
    cases hpoint with
    | none => simp
    | some hcs => exact List.forall_mem_cons.mpr ⟨by decide, hdigits hcs⟩
  -- Unless it is empty the tail begins with an `e`, which is no digit.
  have hout : tail.takeWhile (fun c => isDigitOf false c || c == '_' || c == '.') = [] := by
    cases htail with
    | none => rfl
    | some _ => rfl
  rw [List.takeWhile_append_of_pos hin, hout, List.append_nil]

/-- Without its sign a numeral is read as what it stands for. -/
lemma Written.readNumeral?_eq {text : List Char} {x : ℚ} (h : Written text x) :
    ∃ (c : Nat) (q : Int), x = c * 10 ^ q ∧
      ∀ negative, readNumeral? negative false text = ofNumeral? negative c 10 q := by
  cases h with
  | @intro whole point fraction tail e hwhole hne hpoint htail =>
      refine ⟨_, _, rfl, fun negative => ?_⟩
      have hrun := takeWhile_numeral hwhole hpoint htail
      obtain ⟨hwhole', hfraction, hcount⟩ := split_numeral hwhole hpoint
      have hsome : (whole ++ fraction).isEmpty = false := by
        rw [List.isEmpty_eq_false_iff]
        exact List.append_ne_nil_of_left_ne_nil hne _
      unfold readNumeral?
      simp only [hrun, List.drop_left, hwhole', hfraction]
      rw [hsome, Bool.false_or, if_neg (by simpa using hcount)]
      cases htail with
      | none => simp
      | some he => simp [readExponent?_exponentText he]

/-- A numeral is rounded to the number in whose interval it is. -/
lemma ofNumeral?_of_rounds {s : Bool} {m : Nat} {e : Int} {c : Nat} {q : Int} (hm : 0 < m)
    (h : Canonical m e) (hx : Rounds m e (c * 10 ^ q)) :
    ofNumeral? s c 10 q = some (finite s m e h) := by
  have hvalue : (c : ℚ) * 10 ^ q =
      ((c * Nat.pow 10 q.toNat : Nat) : ℚ) / ((Nat.pow 10 (-q).toNat : Nat) : ℚ) := by
    rw [zpow_eq_div, ← mul_div_assoc, Nat.pow_eq, Nat.pow_eq]
    push_cast
    rfl
  have hd : 0 < Nat.pow 10 (-q).toNat := Nat.pow_pos (by decide)
  rw [hvalue] at hx
  rw [ofNumeral?, ofRatio_of_rounds hm h hd hx]

/-! ### Reading numerals -/

/-- The characters of numerals. -/
def IsNumeral (c : Char) : Prop := c.isDigit = true ∨ c ∈ ['.', 'e', '+', '-']

lemma Digits.isNumeral {cs : List Char} (h : Digits cs) : ∀ c ∈ cs, IsNumeral c :=
  fun c hc => .inl (h c hc)

lemma isNumeral_exponentText (e : Int) : ∀ c ∈ exponentText e, IsNumeral c := by
  have hdigits := digits_toDigits e.natAbs
  refine List.forall_mem_cons.mpr ⟨?_, ?_⟩
  · split_ifs <;> exact .inr (by decide)
  · split_ifs
    · exact List.forall_mem_cons.mpr ⟨.inl (by decide), hdigits.isNumeral⟩
    · exact hdigits.isNumeral

lemma Written.isNumeral {text : List Char} {x : ℚ} (h : Written text x) :
    ∀ c ∈ text, IsNumeral c := by
  cases h with
  | intro hwhole hne hpoint htail =>
      refine List.forall_mem_append.mpr ⟨List.forall_mem_append.mpr ⟨hwhole.isNumeral, ?_⟩, ?_⟩
      · cases hpoint with
        | none => simp
        | some hcs => exact List.forall_mem_cons.mpr ⟨.inr (by decide), hcs.isNumeral⟩
      · cases htail with
        | none => simp
        | some _ => exact List.forall_mem_cons.mpr ⟨.inr (by decide), isNumeral_exponentText _⟩

lemma Written.exists_cons {text : List Char} {x : ℚ} (h : Written text x) :
    ∃ c cs, text = c :: cs ∧ c.isDigit = true := by
  cases h with
  | @intro whole point _ tail _ hwhole hne _ _ =>
      obtain ⟨c, cs, rfl⟩ := List.exists_cons_of_ne_nil hne
      exact ⟨c, cs ++ point ++ tail, rfl, hwhole c List.mem_cons_self⟩

lemma toLower_of_isNumeral {c : Char} (h : IsNumeral c) : c.toLower = c := by
  rcases h with h | h
  · obtain ⟨-, h9⟩ := isDigit_bounds h
    refine dif_neg ?_
    rintro ⟨hA, -⟩
    exact absurd (UInt32.le_trans hA h9) (by decide)
  · simp only [List.mem_cons, List.not_mem_nil, or_false] at h
    rcases h with rfl | rfl | rfl | rfl <;> rfl

lemma toLower_ne {c l : Char} (h : IsNumeral c) (hl : ¬ IsNumeral l) : (c.toLower == l) = false := by
  rw [toLower_of_isNumeral h, beq_eq_false_iff_ne]
  rintro rfl
  exact hl h

instance (c : Char) : Decidable (IsNumeral c) := inferInstanceAs (Decidable (_ ∨ _))

/-- What begins with a digit and has the characters of numerals is read as a numeral: it is no word,
there are no underscores in it, and it is not hexadecimal. -/
lemma read?_eq {c : Char} {cs : List Char} (hfirst : c.isDigit = true)
    (hcs : ∀ x ∈ c :: cs, IsNumeral x) (s : Bool) :
    read? ((if s then ['-'] else []) ++ c :: cs) = readNumeral? s false (c :: cs) := by
  have hsign : splitSign ((if s then ['-'] else []) ++ c :: cs) = (s, c :: cs) := by
    cases s with
    | true => rfl
    | false =>
        unfold splitSign
        split
        · rename_i heq
          cases heq
          exact absurd hfirst (by decide)
        · rename_i heq
          cases heq
          exact absurd hfirst (by decide)
        · rfl
  have hc := hcs c List.mem_cons_self
  have hinf : ((c :: cs).map Char.toLower == "inf".toList ||
      (c :: cs).map Char.toLower == "infinity".toList) = false := by
    have hi := toLower_ne (l := 'i') hc (by decide)
    rw [List.map_cons, show "inf".toList = ['i', 'n', 'f'] from rfl,
      show "infinity".toList = 'i' :: "nfinity".toList from rfl, List.cons_beq_cons,
      List.cons_beq_cons, hi]
    rfl
  have hnan : (((if s then ['-'] else []) ++ c :: cs).map Char.toLower == "nan".toList) = false := by
    have hn := toLower_ne (l := 'n') hc (by decide)
    cases s with
    | true => rfl
    | false =>
        rw [if_neg (by decide), List.nil_append, List.map_cons,
          show "nan".toList = 'n' :: "an".toList from rfl, List.cons_beq_cons, hn]
        rfl
  have hunderscores : underscoresOk (c :: cs) = true := by
    have hnone : (c :: cs).contains '_' = false := by
      rw [List.contains_eq_mem, decide_eq_false_iff_not]
      exact fun hmem => absurd (hcs _ hmem) (by decide)
    unfold underscoresOk
    rw [hnone, Bool.not_false, Bool.true_or]
  unfold read?
  rw [hsign]
  dsimp only
  rw [hinf, hnan, hunderscores]
  simp only [Bool.not_true, Bool.false_eq_true, if_false]
  split
  · rename_i x d rest heq
    have hx := toLower_ne (l := 'x') (hcs x (by simp [heq])) (by decide)
    rw [hx, if_neg (by decide)]
  · rfl

/-- **Reading a numeral gives the number that it is rounded to.** -/
theorem Written.read?_eq {text : List Char} {s : Bool} {m : Nat} {e : Int} {x : ℚ}
    (h : Written text x) (hm : 0 < m) (hcanonical : Canonical m e) (hx : Rounds m e x) :
    read? ((if s then ['-'] else []) ++ text) = some (finite s m e hcanonical) := by
  obtain ⟨c, q, rfl, hread⟩ := h.readNumeral?_eq
  obtain ⟨d, cs, rfl, hfirst⟩ := h.exists_cons
  rw [Number.read?_eq hfirst h.isNumeral, hread, ofNumeral?_of_rounds hm hcanonical hx]

/-! ### The texts of numbers -/

section Writing

variable {cs : List Char}

lemma Digits.take (h : Digits cs) (k : Nat) : Digits (cs.take k) :=
  fun c hc => h c (List.mem_of_mem_take hc)

lemma Digits.drop (h : Digits cs) (k : Nat) : Digits (cs.drop k) :=
  fun c hc => h c (List.mem_of_mem_drop hc)

/-- Wherever the point is put, among the digits or among zeros, the numeral stands for the
decimal. -/
lemma written_positional (hcs : Digits cs) (hne : cs ≠ []) (point : Int) :
    Written (positional cs point) (digitsValue 10 cs * 10 ^ (point - cs.length)) := by
  unfold positional
  dsimp only
  split_ifs with hpoint hfraction
  · -- zeros stand between the point and the digits
    have hdigits := digits_append.mpr ⟨digits_zeros (-point).toNat, hcs⟩
    have hwritten := Written.intro digits_zero (List.cons_ne_nil _ _) (.some hdigits) .none
    rw [List.append_nil] at hwritten
    have hvalue : digitsValue 10 (['0'] ++ (List.replicate (-point).toNat '0' ++ cs)) =
        digitsValue 10 cs :=
      (digitsValue_zeros_append 10 1 _).trans (digitsValue_zeros_append 10 _ cs)
    have hexponent : 0 - ((List.replicate (-point).toNat '0' ++ cs).length : Int) =
        point - cs.length := by
      rw [List.length_append, List.length_replicate]
      omega
    rw [hvalue, hexponent] at hwritten
    exact hwritten
  · -- zeros stand after the digits
    have hlength : cs.length ≤ point.toNat := List.drop_eq_nil_iff.mp (List.isEmpty_iff.mp hfraction)
    rw [List.take_of_length_le hlength]
    have hdigits := digits_append.mpr ⟨hcs, digits_zeros (point.toNat - cs.length)⟩
    have hwritten := Written.intro hdigits (List.append_ne_nil_of_left_ne_nil hne _) .none .none
    have hexponent : point - cs.length = (point.toNat - cs.length : Nat) := by omega
    rw [List.append_nil, List.append_nil, digitsValue_append_zeros, List.length_nil] at hwritten
    rw [hexponent, zpow_natCast]
    simpa using hwritten
  · -- the point stands among the digits
    have hlength : point.toNat < cs.length := by
      rw [List.isEmpty_iff, List.drop_eq_nil_iff] at hfraction
      omega
    have htake : (cs.take point.toNat).length = point.toNat := List.length_take_of_le hlength.le
    have hsome : cs.take point.toNat ≠ [] := by
      rw [← List.length_pos_iff, htake]
      omega
    have hwritten := Written.intro (hcs.take point.toNat) hsome (.some (hcs.drop point.toNat)) .none
    have hexponent : 0 - ((cs.drop point.toNat).length : Int) = point - cs.length := by
      rw [List.length_drop]
      omega
    rw [List.append_nil, List.take_append_drop, hexponent] at hwritten
    rw [htake, Nat.sub_self, List.replicate_zero, List.append_nil]
    exact hwritten

/-- With an exponent there is one digit before the point. -/
lemma written_scientific (hcs : Digits cs) (hne : cs ≠ []) {point : Int}
    (hpoint : (point - 1).natAbs < 10000) :
    Written (scientific cs point) (digitsValue 10 cs * 10 ^ (point - cs.length)) := by
  have hlength := List.length_pos_iff.mpr hne
  have hfirst : cs.take 1 ≠ [] := by
    rw [← List.length_pos_iff, List.length_take]
    omega
  have hfraction : Fraction (if cs.length ≤ 1 then [] else '.' :: cs.drop 1) (cs.drop 1) := by
    split_ifs with hshort
    · rw [List.drop_eq_nil_of_le hshort]
      exact .none
    · exact .some (hcs.drop 1)
  have hwritten := Written.intro (hcs.take 1) hfirst hfraction (.some hpoint)
  have hexponent : point - 1 - ((cs.drop 1).length : Int) = point - cs.length := by
    rw [List.length_drop]
    omega
  rw [List.take_append_drop, hexponent] at hwritten
  exact hwritten

/-- **A magnitude is written as a numeral for a decimal that is rounded to it.** -/
theorem written_magnitude {m : Nat} {e : Int} (hm : 0 < m) (h : Canonical m e) :
    ∃ x, Written (magnitude m e) x ∧ Rounds m e x := by
  obtain ⟨n, hn, hlow, hhigh, hrounds, hmin, hmax⟩ := shortest_spec hm h
  obtain ⟨hdigits, hne, hvalue⟩ := chars_spec hn hlow hhigh
  rw [hvalue] at hrounds
  refine ⟨_, ?_, hrounds⟩
  unfold magnitude
  dsimp only
  rw [if_neg hm.ne']
  split_ifs
  · exact written_positional hdigits hne _
  · exact written_scientific hdigits hne (by omega)

end Writing

/-- Zero has one mantissa and one exponent. -/
lemma exponent_of_zero {e : Int} (h : Canonical 0 e) : e = minExponent :=
  h.normal.resolve_left (by decide)

lemma written_zero (e : Int) : Written (magnitude 0 e) 0 := by
  have hwritten := Written.intro digits_zero (List.cons_ne_nil _ _) .none .none
  have hvalue : digitsValue 10 (['0'] ++ []) = 0 := by decide
  rw [hvalue, Nat.cast_zero, zero_mul] at hwritten
  exact hwritten

lemma toList_format_finite (s : Bool) {m : Nat} {e : Int} (h : Canonical m e) :
    (finite s m e h).format.toList = (if s then ['-'] else []) ++ magnitude m e := by
  rw [format, String.toList_ofList]

/-- Only the characters of numerals are written for finite numbers. -/
lemma isNumeral_format (s : Bool) {m : Nat} {e : Int} (h : Canonical m e) :
    ∀ c ∈ (finite s m e h).format.toList, IsNumeral c := by
  rw [toList_format_finite]
  refine List.forall_mem_append.mpr ⟨?_, ?_⟩
  · intro c hc
    cases s with
    | true =>
        obtain rfl := List.mem_singleton.mp hc
        decide
    | false => cases hc
  · rcases Nat.eq_zero_or_pos m with rfl | hm
    · exact (written_zero e).isNumeral
    · obtain ⟨x, hwritten, -⟩ := written_magnitude hm h
      exact hwritten.isNumeral

/-- **A number is read as it was written.** -/
theorem read?_format (x : Number) : read? x.format.toList = some x := by
  cases x with
  | nan => decide
  | infinity s => cases s <;> decide
  | finite s m e h =>
      rw [toList_format_finite]
      rcases Nat.eq_zero_or_pos m with rfl | hm
      · obtain rfl := exponent_of_zero h
        have hzero : ∀ s, read? ((if s then ['-'] else []) ++ magnitude 0 minExponent) =
            some (zero s) := by decide
        exact hzero s
      · obtain ⟨x, hwritten, hrounds⟩ := written_magnitude hm h
        exact hwritten.read?_eq hm h hrounds

/-- The texts of different numbers are different. -/
theorem format_injective {x y : Number} (heq : x.format = y.format) : x = y := by
  have hread := read?_format x
  rw [heq, read?_format y, Option.some.injEq] at hread
  exact hread.symm

end Pseudocode.Number
