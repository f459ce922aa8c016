/-
# Documents of truth values and whole numbers

A plain document is a list of tables, each with a header and rows; a row is a key and a truth value
or a whole number.  Tables are kept apart by an empty line.  Such a document is read back as it was
written: the grammar makes a header and entries of it, and these make tables with the given names,
keys and values.

The grammar tries dates and floats before whole numbers.  A date goes on with a hyphen or a colon
after some digits and a float with a dot or an exponent, whereas after the digits of a row the line
ends.  So both fail on a row, however many digits it has.

The main results are

* `intInRadix_toString`: a whole number is read as it was printed;
* `statements_written`: the statements of a plain document;
* `Table.ofText_written`: its tables.
-/
import Pseudocode.Config.Basic
import Pseudocode.Number.Integer
import Pseudocode.Proofs.Parsing
import Pseudocode.Toml.Table

namespace Pseudocode

/-! ### Numerals -/

namespace Number

/-- The digits of a number as it is printed: a zero stands before no other digit. -/
inductive Numeral : List Char → Prop
  | digit {d : Char} (h : d.isDigit = true) : Numeral [d]
  | digits {d : Char} {ds : List Char} (hd : d.isDigit = true) (hne : d ≠ '0')
      (h : ∀ c ∈ ds, c.isDigit = true) (hds : ds ≠ []) : Numeral (d :: ds)

lemma Numeral.isDigit {ds : List Char} (h : Numeral ds) : ∀ c ∈ ds, c.isDigit = true := by
  cases h with
  | digit h => simpa using h
  | digits hd _ h _ => simpa using ⟨hd, h⟩

lemma Numeral.ne_nil {ds : List Char} (h : Numeral ds) : ds ≠ [] := by
  cases h <;> simp

lemma head_toDigits {n : Nat} (hn : 0 < n) : (Nat.toDigits 10 n).head? ≠ some '0' := by
  induction n using Nat.strongRecOn with
  | ind n ih =>
      rcases Nat.lt_or_ge n 10 with h | h
      · have hdigit : ∀ m < 10, 0 < m → [Nat.digitChar m].head? ≠ some '0' := by decide
        rw [Nat.toDigits_of_lt_base h]
        exact hdigit n h hn
      · rw [Nat.toDigits_of_base_le (by decide) h,
          List.head?_append_of_ne_nil _ Nat.toDigits_ne_nil]
        exact ih (n / 10) (by omega) (by omega)

lemma numeral_toDigits (n : Nat) : Numeral (Nat.toDigits 10 n) := by
  have hdigits : ∀ c ∈ Nat.toDigits 10 n, c.isDigit = true := fun _ hc =>
    Nat.isDigit_of_mem_toDigits (by decide) (by decide) hc
  rcases Nat.lt_or_ge n 10 with h | h
  · rw [Nat.toDigits_of_lt_base h] at hdigits ⊢
    exact .digit (hdigits _ (by simp))
  · have hhead := head_toDigits (n := n) (by omega)
    rw [Nat.toDigits_of_base_le (by decide) h] at hdigits hhead ⊢
    obtain ⟨d, ds, e⟩ := List.exists_cons_of_ne_nil (Nat.toDigits_ne_nil (n := n / 10) (b := 10))
    rw [e] at hdigits hhead ⊢
    exact .digits (hdigits d (by simp)) (by simpa using hhead)
      (fun c hc => hdigits c (List.mem_cons_of_mem _ hc)) (by simp)

/-- A whole number is printed as a numeral, after a hyphen if it is negative. -/
lemma toString_cases (i : Int) :
    (∃ n : Nat, i = n ∧ (toString i).toList = Nat.toDigits 10 n) ∨
      ∃ n : Nat, i = -n ∧ (toString i).toList = '-' :: Nat.toDigits 10 n := by
  show (∃ n : Nat, i = n ∧ i.repr.toList = _) ∨ ∃ n : Nat, i = -n ∧ i.repr.toList = _
  rw [Int.repr_eq_if]
  split
  · exact .inl ⟨i.toNat, by omega, by simp [Nat.repr_eq_ofList_toDigits]⟩
  · exact .inr ⟨(-i).toNat, by omega, by simp [Nat.repr_eq_ofList_toDigits]⟩

lemma isDigit_bounds {c : Char} (h : c.isDigit = true) : '0' ≤ c ∧ c ≤ '9' := by
  simpa [Char.isDigit, Char.le_def, ← UInt32.le_iff_toNat_le] using h

lemma digitValue_of_isDigit {c : Char} (h : c.isDigit = true) :
    digitValue c = c.toNat - '0'.toNat := by
  rw [digitValue, if_pos (isDigit_bounds h)]

lemma digitsValue_eq_ofDigitChars :
    ∀ (cs : List Char) (n : Nat), (∀ c ∈ cs, c.isDigit = true) →
      cs.foldl (fun n c => n * 10 + digitValue c) n = Nat.ofDigitChars 10 cs n := by
  intro cs
  induction cs with
  | nil => intro n _; rfl
  | cons c cs ih =>
      intro n h
      have e := ih (n * 10 + digitValue c) fun x hx => h x (List.mem_cons_of_mem _ hx)
      rw [List.foldl_cons, e, digitValue_of_isDigit (h c (by simp)), Nat.mul_comm]
      rfl

lemma isDigitIn_of_isDigit {c : Char} (h : c.isDigit = true) : isDigitIn 10 c = true := by
  obtain ⟨h0, h9⟩ := isDigit_bounds h
  have hval : digitValue c < 10 := by
    rw [digitValue_of_isDigit h]
    have : c.toNat ≤ '9'.toNat := h9
    have : '9'.toNat = 57 := rfl
    have : '0'.toNat = 48 := rfl
    omega
  simp [isDigitIn, isDigitOf, h0, h9, hval]

lemma natInRadix_toDigits (n : Nat) : natInRadix? 10 (Nat.toDigits 10 n) = some n := by
  have h := (numeral_toDigits n).isDigit
  have hall : (Nat.toDigits 10 n).all (isDigitIn 10) = true :=
    List.all_eq_true.2 fun c hc => isDigitIn_of_isDigit (h c hc)
  have hne : (Nat.toDigits 10 n).isEmpty = false := by simp [Nat.toDigits_ne_nil]
  have hval : digitsValue 10 (Nat.toDigits 10 n) = n :=
    (digitsValue_eq_ofDigitChars _ 0 h).trans Nat.ofDigitChars_ten_toDigits
  rw [natInRadix?, hne, hall, hval]
  rfl

/-- A whole number is read as it was printed. -/
theorem intInRadix_toString (i : Int) : intInRadix? 10 (toString i).toList = some i := by
  rcases toString_cases i with ⟨n, rfl, e⟩ | ⟨n, rfl, e⟩
  · have hsign : splitSign (Nat.toDigits 10 n) = (false, Nat.toDigits 10 n) := by
      have h := (numeral_toDigits n).isDigit
      unfold splitSign
      split
      · rename_i cs e; exact absurd (h '-' (by simp [e])) (by decide)
      · rename_i cs e; exact absurd (h '+' (by simp [e])) (by decide)
      · rfl
    rw [e, intInRadix?, hsign]
    simp [natInRadix_toDigits, signed]
  · rw [e]
    simp [intInRadix?, splitSign, natInRadix_toDigits, signed]

end Number

namespace Toml

open Number (Numeral)

/-! ### Plain documents -/

/-- A truth value or a whole number. -/
inductive Scalar where
  | flag (b : Bool)
  | whole (i : Int)
deriving DecidableEq, Repr, Inhabited

namespace Scalar

/-- How a scalar is written. -/
def text : Scalar → String
  | flag b => Config.boolText b
  | whole i => toString i

/-- What the grammar makes of it. -/
def value : Scalar → Value
  | flag b => .bool b
  | whole i => .integer (toString i)

end Scalar

/-- A key and its value. -/
abbrev Row := String × Scalar

/-- The name of a table and its rows. -/
abbrev Section := String × List Row

/-- The characters of a row with the line end before it. -/
def Row.chars (r : Row) : List Char :=
  '\n' :: (r.1.toList ++ ' ' :: '=' :: ' ' :: r.2.text.toList)

/-- The characters of a table, up to the end of its last row. -/
def Section.chars (s : Section) : List Char :=
  '[' :: (s.1.toList ++ ']' :: s.2.flatMap Row.chars)

/-- The characters of a document: tables with an empty line between two of them. -/
def written (first : Section) (others : List Section) : List Char :=
  first.chars ++ (others.flatMap fun s => '\n' :: '\n' :: s.chars) ++ ['\n']

/-- Whether a character may stand in a name without quotation marks. -/
def isBare (c : Char) : Bool := c.isAlphanum || c == '-' || c == '_'

/-- A name that needs no quotation marks. -/
def Bare (name : String) : Prop := name.toList ≠ [] ∧ ∀ c ∈ name.toList, isBare c = true

/-- The names of a table need no quotation marks. -/
def Section.Bare (s : Section) : Prop := Toml.Bare s.1 ∧ ∀ r ∈ s.2, Toml.Bare r.1

/-- The entry of a row, on whatever line it stands. -/
def IsRow (r : Row) (s : Statement) : Prop :=
  ∃ keyLine line, s = .entry (.of (some r.1) keyLine r.2.value line)

/-- The header of a table and the entries of its rows, on whatever lines they stand. -/
def IsSection (s : Section) (ss : List Statement) : Prop :=
  ∃ line rows, ss = .header false [some s.1] s.1 line :: rows ∧ List.Forall₂ IsRow s.2 rows

namespace Parser

variable {α β : Type} {p : Parser α} {f : α → Parser β} {cs rest tail : List Char}

/-! ### Blanks -/

lemma reads_blanks (hcs : ∀ c ∈ cs, isBlank c = true) (hend : rest.head?.any isBlank = false) :
    Reads blanks cs rest (fun _ => True) :=
  ((reads_many_satisfy hcs hend).bind_nil fun _ _ => reads_pure trivial).rule

lemma reads_no_blanks (hend : rest.head?.any isBlank = false) :
    Reads blanks [] rest (fun _ => True) := reads_blanks (by simp) hend

lemma reads_newline (hne : cs ≠ []) (hcs : ∀ c ∈ cs, isNewline c = true)
    (hend : rest.head?.any isNewline = false) : Reads newline cs rest (fun _ => True) :=
  ((reads_many1_satisfy hne hcs hend).bind_nil fun _ _ => reads_pure trivial).rule

lemma reads_blankLines (hcs : ∀ c ∈ cs, isNewline c = true)
    (hend : (rest.head?.any fun c => isBlank c || isNewline c) = false) :
    Reads blankLines cs rest (fun _ => True) := by
  have h := reads_many_chars (p := rule (satisfy fun c => isBlank c || isNewline c))
    (fun x _ hx => ((reads_satisfy (by simpa using .inr hx)).mono fun _ _ => trivial).rule) hcs
    (fails_satisfy hend).rule
  exact (h.bind_nil fun _ _ => reads_pure trivial).rule

lemma reads_no_comment (h : rest.head? ≠ some '#') :
    Reads (skip? comment) [] rest (fun _ => True) :=
  reads_skip (fails_char h).bind.rule

/-! ### Names -/

lemma not_blank_of_isBare {c : Char} (h : isBare c = true) :
    (isBlank c || isNewline c) = false := by
  by_contra hc
  have hcases : (c = ' ' ∨ c = '\t') ∨ c = '\n' ∨ c = '\r' := by
    simpa only [isBlank, isNewline, Bool.not_eq_false, Bool.or_eq_true, beq_iff_eq] using hc
  rcases hcases with (rfl | rfl) | rfl | rfl <;> exact absurd h (by decide)

lemma reads_key {name : String} (hname : Bare name) (hend : rest.head?.any isBare = false) :
    Reads key name.toList rest (· = some name) := by
  have hbare : Reads bareKey name.toList rest (· = some name) := by
    refine ((reads_many1_satisfy hname.1 hname.2 hend).bind_nil fun as has => ?_).rule
    exact reads_pure (by rw [has, String.ofList_toList])
  exact hbare.orElse.rule

lemma fails_key (hend : rest.head?.any isBare = false) (hquote : rest.head? ≠ some '"') :
    Fails key rest := by
  have hbare : Fails bareKey rest := (Fails.many1 (fails_satisfy hend)).bind.rule
  have hbasic : Fails basicString rest := (fails_char hquote).bind.rule
  exact (hbare.orElse hbasic).rule

/-! ### Whole numbers -/

lemma reads_digit {d : Char} (h : d.isDigit = true) : Reads digit [d] rest (fun _ => True) :=
  ((reads_satisfy h).bind_nil fun _ _ => reads_pure trivial).rule

lemma fails_digit (h : rest.head?.any Char.isDigit = false) : Fails digit rest :=
  (fails_satisfy h).bind.rule

lemma reads_furtherDigit {d : Char} (h : d.isDigit = true) :
    Reads furtherDigit [d] rest (fun _ => True) := (reads_digit h).orElse

lemma fails_furtherDigit : Fails furtherDigit ('\n' :: tail) :=
  (fails_digit rfl).orElse (fails_char (by simp)).bind

/-- The digits of a numeral are read as a whole number without a sign. -/
lemma reads_numeral (h : Numeral cs) :
    Reads (rule ((do
      let _ ← satisfy fun c => '1' ≤ c && c ≤ '9'
      let _ ← many1 furtherDigit) <|> digit)) cs ('\n' :: tail) (fun _ => True) := by
  cases h with
  | @digit d h =>
      -- a digit other than zero is taken for the first of several, of which there are no more
      refine (Fails.orElse_reads ?_ (reads_digit h)).rule
      cases hd : (decide ('1' ≤ d) && decide (d ≤ '9')) with
      | true =>
          exact (reads_satisfy hd).one_bind_fails fun _ _ =>
            (Fails.many1 fails_furtherDigit).bind
      | false => exact (fails_satisfy (by simpa using hd)).bind
  | @digits d ds hd hne h hds =>
      have hfirst : (decide ('1' ≤ d) && decide (d ≤ '9')) = true := by
        have hb := Number.isDigit_bounds hd
        have h0 : d.toNat ≠ '0'.toNat := fun e => hne (Char.toNat_inj.1 e)
        have h1 : '0'.toNat ≤ d.toNat := hb.1
        have h2 : ('1' : Char).toNat = '0'.toNat + 1 := rfl
        have h3 : '1' ≤ d := show ('1' : Char).toNat ≤ d.toNat by omega
        simp [h3, hb.2]
      have hend : Fails furtherDigit ('\n' :: tail) := fails_furtherDigit
      have hrest := reads_many1_chars (fun _ _ => reads_furtherDigit) hds h hend
      refine Reads.rule (Reads.orElse ?_)
      exact (reads_satisfy hfirst).one_bind fun _ _ =>
        (hrest.mono fun _ _ => trivial).bind_nil fun _ _ => reads_pure trivial

/-- A whole number is read up to the end of the line. -/
lemma reads_integer (i : Int) :
    Reads integer (toString i).toList ('\n' :: tail) (fun _ => True) := by
  rcases Number.toString_cases i with ⟨n, -, e⟩ | ⟨n, -, e⟩
  · have hn := Number.numeral_toDigits n
    obtain ⟨d, ds, hds⟩ := List.exists_cons_of_ne_nil hn.ne_nil
    have hsign : Reads sign [] (Nat.toDigits 10 n ++ '\n' :: tail) (fun _ => True) := by
      refine reads_skip (fails_satisfy ?_)
      have hd : d.isDigit = true := hn.isDigit d (by simp [hds])
      rw [hds]
      simp only [List.cons_append, List.head?_cons, Option.any_some, Bool.or_eq_false_iff,
        beq_eq_false_iff_ne]
      constructor <;> (rintro rfl; exact absurd hd (by decide))
    rw [e]
    exact (hsign.nil_bind fun _ _ => reads_numeral hn).rule
  · have hsign : Reads sign ['-'] (Nat.toDigits 10 n ++ '\n' :: tail) (fun _ => True) :=
      (reads_satisfy rfl).skip
    rw [e]
    exact (hsign.one_bind fun _ _ => reads_numeral (Number.numeral_toDigits n)).rule

/-! ### What digits are not -/

/-- Some digits, and then the line ends. -/
def DigitLine (cs : List Char) : Prop :=
  ∃ ds tail, (∀ d ∈ ds, d.isDigit = true) ∧ cs = ds ++ '\n' :: tail

lemma DigitLine.head_ne {cs : List Char} (h : DigitLine cs) {x : Char} (hx : x.isDigit = false)
    (hn : x ≠ '\n') : cs.head? ≠ some x := by
  obtain ⟨ds, tail, hds, rfl⟩ := h
  cases ds with
  | nil => simpa using hn.symm
  | cons d ds =>
      rintro e
      obtain rfl : d = x := by simpa using e
      exact absurd (hds d (by simp)) (by simp [hx])

/-- Of such a text the parser takes digits, if it takes anything. -/
def Strips (p : Parser Unit) : Prop :=
  ∀ cs, DigitLine cs → Fails p cs ∨
    ∃ pre rest, cs = pre ++ rest ∧ DigitLine rest ∧ Reads p pre rest (fun _ => True)

lemma strips_digit : Strips digit := by
  rintro cs ⟨ds, tail, hds, rfl⟩
  cases ds with
  | nil => exact .inl (fails_digit rfl)
  | cons d ds =>
      refine .inr ⟨[d], ds ++ '\n' :: tail, rfl, ⟨ds, tail, ?_, rfl⟩, reads_digit (hds d (by simp))⟩
      exact fun x hx => hds x (List.mem_cons_of_mem _ hx)

lemma Strips.twice {p : Parser Unit} (h : Strips p) : Strips (rule do p; p) := by
  intro cs hcs
  rcases h cs hcs with hfails | ⟨pre, rest, rfl, hrest, hfirst⟩
  · exact .inl hfails.bind.rule
  rcases h rest hrest with hfails | ⟨pre', rest', rfl, hrest', hsecond⟩
  · exact .inl (hfirst.bind_fails fun _ _ => hfails).rule
  · exact .inr ⟨pre ++ pre', rest', by simp, hrest', (hfirst.bind fun _ _ => hsecond).rule⟩

/-- After digits there comes no other character but the line end. -/
lemma Strips.fails_char {p : Parser Unit} {f : Char → Parser Unit} (h : Strips p) {x : Char}
    (hx : x.isDigit = false) (hn : x ≠ '\n') (hcs : DigitLine cs) :
    Fails (do p; let y ← char x; f y) cs := by
  rcases h cs hcs with hfails | ⟨pre, rest, rfl, hrest, hfirst⟩
  · exact hfails.bind
  · exact hfirst.bind_fails fun _ _ => (Parser.fails_char (hrest.head_ne hx hn)).bind

lemma fails_datetime_of_digits (h : DigitLine cs) : Fails datetime cs := by
  have htwo : Strips twoDigits := strips_digit.twice
  have hfour : Strips fourDigits := htwo.twice
  have hdate : Fails fullDate cs := (hfour.fails_char (by decide) (by decide) h).rule
  have htime : Fails timeOfDay cs := (htwo.fails_char (by decide) (by decide) h).rule
  exact (hdate.bind.orElse htime).rule

/-- No date begins with anything but a digit. -/
lemma fails_datetime (h : cs.head?.any Char.isDigit = false) : Fails datetime cs := by
  have htwo : Fails twoDigits cs := (fails_digit h).bind.rule
  have hdate : Fails fullDate cs := htwo.bind.rule.bind.rule
  exact (hdate.bind.orElse htwo.bind.rule).rule

lemma fails_datetime_integer (i : Int) : Fails datetime ((toString i).toList ++ '\n' :: tail) := by
  rcases Number.toString_cases i with ⟨n, -, e⟩ | ⟨n, -, e⟩
  · rw [e]
    exact fails_datetime_of_digits ⟨_, tail, (Number.numeral_toDigits n).isDigit, rfl⟩
  · rw [e]
    exact fails_datetime rfl

lemma fails_float_integer (i : Int) : Fails float ((toString i).toList ++ '\n' :: tail) := by
  have hfraction : Fails fraction ('\n' :: tail) := (fails_char (by simp)).bind.rule
  have hexponent : Fails exponent ('\n' :: tail) := (fails_satisfy rfl).bind.rule
  refine ((reads_integer i).bind_fails fun _ _ => ?_).rule
  exact hfraction.bind.orElse
    ((reads_skip hfraction).nil_bind_fails fun _ _ => hexponent)

/-! ### Values and rows -/

lemma fails_integer (hsign : (cs.head?.any fun c => c == '-' || c == '+') = false)
    (hdigit : cs.head?.any Char.isDigit = false) : Fails integer cs := by
  have hfirst : (cs.head?.any fun c => '1' ≤ c && c ≤ '9') = false := by
    cases cs with
    | nil => rfl
    | cons c cs =>
        by_contra hc
        have hb : '1' ≤ c ∧ c ≤ '9' := by simpa using hc
        have h0 : '0' ≤ c := Char.le_trans (by decide) hb.1
        have hdig : c.isDigit = true := by
          simpa [Char.isDigit, Char.le_def, ← UInt32.le_iff_toNat_le] using And.intro h0 hb.2
        simp [hdig] at hdigit
  exact ((reads_skip (fails_satisfy hsign)).nil_bind_fails fun _ _ =>
    ((fails_satisfy hfirst).bind.orElse (fails_digit hdigit)).rule).rule

lemma fails_stringText (hquote : cs.head? ≠ some quote) (hbasic : cs.head? ≠ some '"') :
    Fails stringText cs := by
  have hlongLiteral : Fails longLiteralString cs := (fails_char hquote).bind.bind.rule
  have hliteral : Fails literalString cs := (fails_char hquote).bind.rule
  have hlongBasic : Fails longBasicString cs := (fails_char hbasic).bind.bind.rule
  have hshort : Fails basicString cs := (fails_char hbasic).bind.rule
  exact (hlongLiteral.orElse (hliteral.orElse (hlongBasic.orElse hshort))).rule

lemma reads_boolean (b : Bool) :
    Reads boolean (Config.boolText b).toList rest (· = b) := by
  have hword (w : List Char) (b : Bool) :
      Reads (do exactly w; return b) w rest (· = b) :=
    (reads_exactly w).bind_nil fun _ _ => reads_pure rfl
  cases b with
  | true => exact (hword _ true).orElse.rule
  | false =>
      have hother : Fails (exactly "true".toList) ("false".toList ++ rest) := by
        rw [show "true".toList = ['t', 'r', 'u', 'e'] from rfl,
          show "false".toList = ['f', 'a', 'l', 's', 'e'] from rfl]
        exact (fails_char (by simp)).bind
      exact (Fails.orElse_reads hother.bind (hword _ false)).rule

lemma withoutUnderscores_toString (i : Int) : withoutUnderscores (toString i) = toString i := by
  have hall : ∀ c ∈ (toString i).toList, (c != '_') = true := by
    intro c hc
    have hdigit : ∀ n, c ∈ Nat.toDigits 10 n → (c != '_') = true := by
      intro n hn
      have h := (Number.numeral_toDigits n).isDigit c hn
      exact bne_iff_ne.2 fun e => absurd (e ▸ h) (by decide)
    rcases Number.toString_cases i with ⟨n, -, e⟩ | ⟨n, -, e⟩
    · exact hdigit n (e ▸ hc)
    · rw [e, List.mem_cons] at hc
      rcases hc with rfl | hc
      · rfl
      · exact hdigit n hc
  rw [withoutUnderscores, List.filter_eq_self.2 hall, String.ofList_toList]

/-- A whole number is neither a date nor a float, and the words for truth values are none of what
comes before them in the grammar. -/
lemma reads_value (v : Scalar) (fuel : Nat) :
    Reads (value (fuel + 1)) v.text.toList ('\n' :: tail) (· = v.value) := by
  rw [value]
  cases v with
  | whole i =>
      refine Reads.rule (Fails.orElse_reads (fails_datetime_integer i).withText.bind ?_)
      refine Fails.orElse_reads (fails_float_integer i).withText.bind (Reads.orElse ?_)
      refine (reads_integer i).withText.bind_nil fun r hr => reads_pure ?_
      rw [hr.2, String.ofList_toList, withoutUnderscores_toString]
      rfl
  | flag b =>
      obtain ⟨x, xs, hx, hletter⟩ : ∃ x xs, (Config.boolText b).toList = x :: xs ∧
          (x = 't' ∨ x = 'f') := by
        cases b with
        | true => exact ⟨'t', _, rfl, .inl rfl⟩
        | false => exact ⟨'f', _, rfl, .inr rfl⟩
      have hinteger : Fails integer ((Config.boolText b).toList ++ '\n' :: tail) := by
        rw [hx]
        rcases hletter with rfl | rfl <;> exact fails_integer rfl rfl
      have hdatetime : Fails datetime ((Config.boolText b).toList ++ '\n' :: tail) := by
        rw [hx]
        rcases hletter with rfl | rfl <;> exact fails_datetime rfl
      have htext : Fails stringText ((Config.boolText b).toList ++ '\n' :: tail) := by
        rw [hx]
        rcases hletter with rfl | rfl <;> exact fails_stringText (by simp [quote]) (by simp)
      refine Reads.rule (Fails.orElse_reads hdatetime.withText.bind ?_)
      refine Fails.orElse_reads hinteger.bind.rule.withText.bind ?_
      refine Fails.orElse_reads hinteger.withText.bind ?_
      refine Fails.orElse_reads htext.bind (Reads.orElse ?_)
      exact (reads_boolean b).bind_nil fun _ hb => reads_pure (by rw [hb]; rfl)

lemma head_text (v : Scalar) (rest : List Char) :
    (v.text.toList ++ rest).head?.any isBlank = false := by
  cases v with
  | flag b => cases b <;> rfl
  | whole i =>
      rcases Number.toString_cases i with ⟨n, -, e⟩ | ⟨n, -, e⟩
      · have hn := Number.numeral_toDigits n
        obtain ⟨d, ds, hds⟩ := List.exists_cons_of_ne_nil hn.ne_nil
        have hd : d.isDigit = true := hn.isDigit d (by simp [hds])
        rw [Scalar.text, e, hds]
        simp only [List.cons_append, List.head?_cons, Option.any_some, isBlank,
          Bool.or_eq_false_iff, beq_eq_false_iff_ne]
        constructor <;> (rintro rfl; exact absurd hd (by decide))
      · rw [Scalar.text, e]
        rfl

/-- The entry of a row. -/
lemma reads_keyValue {r : Row} (hr : Bare r.1) (fuel : Nat) :
    Reads (keyValue (fuel + 2)) (r.1.toList ++ ' ' :: '=' :: ' ' :: r.2.text.toList) ('\n' :: tail)
      (fun e => ∃ keyLine line, e = .of (some r.1) keyLine r.2.value line) := by
  rw [keyValue]
  refine ((reads_key hr rfl).bind fun k hk => ?_).rule
  refine reads_get.nil_bind fun c _ => ?_
  refine (reads_blanks (by simp [isBlank]) rfl).one_bind fun _ _ => ?_
  refine (reads_char '=').one_bind fun _ _ => ?_
  refine (reads_blanks (by simp [isBlank]) (head_text _ _)).one_bind fun _ _ => ?_
  refine (reads_value r.2 fuel).bind_nil fun v hv => ?_
  refine reads_get.bind_nil fun c' _ => reads_pure ⟨c.line, c'.line, by rw [hk, hv]⟩

/-! ### Tables -/

/-- What may come after the rows of a table: an empty line and a header, or the end. -/
def Closing (rest : List Char) : Prop :=
  ∃ gap tail, rest = '\n' :: gap ++ tail ∧ (∀ c ∈ gap, c = '\n') ∧
    (tail = [] ∨ ∃ tail', tail = '[' :: tail')

/-- No row begins with a bracket or the end of the text. -/
lemma Closing.fails_row {fuel : Nat} (h : Closing rest) :
    Fails (do
      blankLines
      let e ← keyValue (fuel + 2)
      blanks
      skip? comment
      return Statement.entry e) rest := by
  obtain ⟨gap, tail, rfl, hgap, htail⟩ := h
  have hkey : Fails (keyValue (fuel + 2)) tail := by
    rw [keyValue]
    refine (fails_key ?_ ?_).bind.rule <;> (rcases htail with rfl | ⟨tail', rfl⟩ <;> simp [isBare])
  have hlines : Reads blankLines ('\n' :: gap) tail (fun _ => True) := by
    refine reads_blankLines (fun c hc => ?_) ?_
    · rcases List.mem_cons.1 hc with rfl | hc
      · rfl
      · rw [hgap c hc]; rfl
    · rcases htail with rfl | ⟨tail', rfl⟩ <;> rfl
  exact hlines.bind_fails fun _ _ => hkey.bind

/-- The rows of a table are its entries. -/
lemma reads_rows {rows : List Row} (hrows : ∀ r ∈ rows, Bare r.1) (fuel : Nat)
    (hrest : Closing rest) :
    Reads (many do
      blankLines
      let e ← keyValue (fuel + 2)
      blanks
      skip? comment
      return Statement.entry e) (rows.flatMap Row.chars) rest (List.Forall₂ IsRow rows) := by
  refine reads_many (fun pre r post e => ?_) (fun r _ => by simp [Row.chars]) hrest.fails_row
  have hr : Bare r.1 := hrows r (by simp [e])
  -- the next row, or what comes after the last one, begins with a line end
  obtain ⟨tail, htail⟩ : ∃ tail, post.flatMap Row.chars ++ rest = '\n' :: tail := by
    cases post with
    | nil =>
        obtain ⟨gap, tail, rfl, -⟩ := hrest
        exact ⟨gap ++ tail, rfl⟩
    | cons r' post => exact ⟨_, rfl⟩
  obtain ⟨c, name, hname⟩ := List.exists_cons_of_ne_nil hr.1
  have hlines : Reads blankLines ['\n']
      (r.1.toList ++ ' ' :: '=' :: ' ' :: r.2.text.toList ++ '\n' :: tail) (fun _ => True) := by
    refine reads_blankLines (by simp [isNewline]) ?_
    rw [hname]
    exact not_blank_of_isBare (hr.2 c (by simp [hname]))
  rw [htail]
  refine hlines.one_bind fun _ _ => (reads_keyValue hr fuel).bind_nil fun e he => ?_
  refine (reads_no_blanks rfl).nil_bind fun _ _ => ?_
  refine (reads_no_comment (by simp)).bind_nil fun _ _ => ?_
  obtain ⟨keyLine, line, rfl⟩ := he
  exact reads_pure ⟨keyLine, line, rfl⟩

lemma isBlank_of_isBare {c : Char} (h : isBare c = true) : isBlank c = false :=
  (Bool.or_eq_false_iff.1 (not_blank_of_isBare h)).1

/-- A header. -/
lemma reads_header {name : String} (hname : Bare name) :
    Reads header ('[' :: (name.toList ++ [']'])) rest
      (fun s => ∃ line, s = .header false [some name] name line) := by
  have hkeys : Reads tableKeys name.toList (']' :: rest) (· = [some name]) := by
    have hdot : Fails (do
        rule do
          blanks
          let _ ← char '.'
          blanks
        rule key) (']' :: rest) :=
      ((reads_no_blanks rfl).nil_bind_fails fun _ _ =>
        (fails_char (by simp)).bind).rule.bind
    refine ((reads_key hname rfl).rule.bind_nil fun k hk => ?_).rule
    exact (reads_many_nil hdot).bind_nil fun ks hks => reads_pure (by rw [hk, hks])
  obtain ⟨c, cs, hc⟩ := List.exists_cons_of_ne_nil hname.1
  have hblank : (name.toList ++ ']' :: rest).head?.any isBlank = false := by
    rw [hc]
    exact isBlank_of_isBare (hname.2 c (by simp [hc]))
  refine Reads.rule (Reads.orElse (Reads.rule ?_))
  refine (reads_exactly ['[']).one_bind fun _ _ => ?_
  refine (reads_no_blanks (by simpa using hblank)).nil_bind fun _ _ => ?_
  refine hkeys.withText.bind fun r hr => ?_
  refine (reads_no_blanks rfl).nil_bind fun _ _ => (reads_exactly [']']).bind_nil fun _ _ => ?_
  refine reads_get.bind_nil fun c _ => reads_pure ⟨c.line, ?_⟩
  rw [hr.1, hr.2, String.ofList_toList]

/-- A table is read as its header and the entries of its rows. -/
lemma reads_section {s : Section} (hs : s.Bare) (fuel : Nat) (hrest : Closing rest) :
    Reads (expression (fuel + 2)) s.chars rest (IsSection s) := by
  have hheader : Reads header _ (s.2.flatMap Row.chars ++ rest) _ := reads_header hs.1
  obtain ⟨tail, htail⟩ : ∃ tail, s.2.flatMap Row.chars ++ rest = '\n' :: tail := by
    obtain ⟨gap, tail, rfl, -⟩ := hrest
    cases s.2 with
    | nil => exact ⟨gap ++ tail, rfl⟩
    | cons r rows => exact ⟨_, rfl⟩
  have hchars : s.chars = '[' :: (s.1.toList ++ [']']) ++ s.2.flatMap Row.chars := by
    simp [Section.chars]
  rw [hchars]
  refine Reads.rule (Reads.orElse (Reads.rule ?_))
  refine (reads_no_blanks rfl).nil_bind fun _ _ => hheader.bind fun h hh => ?_
  refine (reads_no_blanks (by rw [htail]; rfl)).nil_bind fun _ _ => ?_
  refine (reads_no_comment (by rw [htail]; simp)).nil_bind fun _ _ => ?_
  refine (reads_rows hs.2 fuel hrest).bind_nil fun rows hrows => ?_
  obtain ⟨line, rfl⟩ := hh
  exact reads_pure ⟨line, rows, rfl, hrows⟩

/-- At the end of a document there is one more expression, an empty one. -/
lemma reads_empty_expression (fuel : Nat) : Reads (expression (fuel + 2)) [] [] (· = []) := by
  have hheader : Fails header [] :=
    ((fails_char (by simp)).bind.bind.rule.orElse (fails_char (by simp)).bind.bind.rule).rule
  have hentry : Fails (keyValue (fuel + 2)) [] := by
    rw [keyValue]
    exact (fails_key rfl (by simp)).bind.rule
  have hblanks : Reads blanks [] [] (fun _ => True) := reads_no_blanks rfl
  refine Reads.rule (Fails.orElse_reads (hblanks.bind_fails fun _ _ => hheader.bind).rule ?_)
  refine Fails.orElse_reads (hblanks.bind_fails fun _ _ => hentry.bind) ?_
  exact hblanks.nil_bind fun _ _ => (reads_no_comment (by simp)).nil_bind fun _ _ => reads_pure rfl

/-- The characters of an expression after the first one: a table, or nothing at the end of the
document. -/
def furtherChars (s? : Option Section) : List Char :=
  s?.elim ['\n'] fun s => '\n' :: '\n' :: s.chars

/-- What comes after an expression but the last one. -/
lemma closing_furtherChars (post : List (Option Section)) (hpost : post ≠ [])
    (hlast : ∀ pre post', post = pre ++ none :: post' → post' = []) :
    Closing (post.flatMap furtherChars) := by
  cases post with
  | nil => exact absurd rfl hpost
  | cons s? post =>
      cases s? with
      | none =>
          obtain rfl := hlast [] post rfl
          exact ⟨[], [], rfl, by simp, .inl rfl⟩
      | some s => exact ⟨['\n'], _, rfl, by simp, .inr ⟨_, rfl⟩⟩

lemma forall₂_concat {R : α → β → Prop} {x : α} :
    ∀ {xs : List α} {l : List β}, List.Forall₂ R (xs ++ [x]) l →
      ∃ l' y, l = l' ++ [y] ∧ List.Forall₂ R xs l' ∧ R x y := by
  intro xs
  induction xs with
  | nil =>
      intro l h
      obtain ⟨y, l', hy, hl', rfl⟩ := List.forall₂_cons_left_iff.1 h
      obtain rfl := List.forall₂_nil_left_iff.1 hl'
      exact ⟨[], y, rfl, .nil, hy⟩
  | cons x' xs ih =>
      intro l h
      obtain ⟨y, l', hy, hl', rfl⟩ := List.forall₂_cons_left_iff.1 h
      obtain ⟨l'', y', rfl, hxs, hy'⟩ := ih hl'
      exact ⟨y :: l'', y', rfl, .cons hy hxs, hy'⟩

/-- The tables of a document after the first one, and the empty expression at its end. -/
lemma reads_others {others : List Section} (hothers : ∀ s ∈ others, s.Bare) (fuel : Nat) :
    Reads (many do
      newline
      expression (fuel + 2))
      ((others.flatMap fun s => '\n' :: '\n' :: s.chars) ++ ['\n']) []
      (fun sss => ∃ sss', sss = sss' ++ [[]] ∧ List.Forall₂ IsSection others sss') := by
  -- the end comes only once
  have hend (pre post) (e : others.map some ++ [none] = pre ++ none :: post) : post = [] := by
    by_contra hpost
    have h := congrArg List.dropLast e
    rw [List.dropLast_concat, List.dropLast_append_of_ne_nil (by simp),
      List.dropLast_cons_of_ne_nil hpost] at h
    have hmem : none ∈ others.map some := by simp [h]
    simp at hmem
  have hlast {pre s post} (e : others.map some ++ [none] = pre ++ some s :: post) : post ≠ [] := by
    rintro rfl
    simpa using congrArg List.getLast? e
  have h : Reads (many do newline; expression (fuel + 2))
      ((others.map some ++ [none]).flatMap furtherChars) []
      (List.Forall₂ (fun s? ss => s?.elim (ss = []) (IsSection · ss))
        (others.map some ++ [none])) :=
    reads_many (fun pre s? post e => ?_) ?_ ?_
  · have hchars : (others.map some ++ [none]).flatMap furtherChars
        = (others.flatMap fun s => '\n' :: '\n' :: s.chars) ++ ['\n'] := by
      rw [List.flatMap_append, List.flatMap_map]
      rfl
    rw [← hchars]
    refine h.mono fun sss hsss => ?_
    obtain ⟨sss', ss, rfl, hsss', rfl⟩ := forall₂_concat hsss
    exact ⟨sss', rfl, (List.forall₂_map_left_iff (f := some)).1 hsss'⟩
  · rw [List.append_nil]
    cases s? with
    | none =>
        obtain rfl := hend pre post e
        have hline : Reads newline ['\n'] [] (fun _ => True) := reads_newline (by simp)
          (by simp [isNewline]) rfl
        exact hline.bind_nil fun _ _ => reads_empty_expression fuel
    | some s =>
        have hs : s.Bare := by
          have hmem : some s ∈ others.map some ++ [none] := by simp [e]
          simpa using hothers s (by simpa using hmem)
        have hline : Reads newline ['\n', '\n'] (s.chars ++ post.flatMap furtherChars)
          (fun _ => True) := reads_newline (by simp) (by simp [isNewline]) rfl
        refine Reads.bind (f := fun _ => expression (fuel + 2)) hline fun _ _ => ?_
        refine reads_section hs fuel ?_
        refine closing_furtherChars post (hlast e) fun pre' post' e' => ?_
        exact hend (pre ++ some s :: pre') post' (by rw [e, e']; simp)
  · intro s? _
    cases s? <;> simp [furtherChars]
  · exact (fails_satisfy rfl).bind.bind.rule.bind

/-- What the grammar makes of a whole text. -/
lemma statements_of_reads {P : List Statement → Prop}
    (h : Reads (document (3 * cs.length + 8)) cs [] P) :
    ∃ list, P list ∧ statements (String.ofList cs) = .ok list := by
  obtain ⟨list, line, furthest, hlist, e⟩ := h 0 1 0
  refine ⟨list, hlist, ?_⟩
  rw [outcome, List.append_nil] at e
  rw [statements, String.toList_ofList]
  simp only [e]

/-- A plain document is read as the tables that it has. -/
lemma reads_document {first : Section} {others : List Section} (hfirst : first.Bare)
    (hothers : ∀ s ∈ others, s.Bare) (fuel : Nat) :
    Reads (document (fuel + 2)) (written first others) [] (fun list =>
      ∃ ss sss, list = ss ++ sss.flatten ∧ IsSection first ss ∧
        List.Forall₂ IsSection others sss) := by
  have hclosing : Closing ((others.flatMap fun s => '\n' :: '\n' :: s.chars) ++ ['\n']) := by
    cases others with
    | nil => exact ⟨[], [], rfl, by simp, .inl rfl⟩
    | cons s others => exact ⟨['\n'], _, rfl, by simp, .inr ⟨_, rfl⟩⟩
  have hchars : written first others
      = first.chars ++ ((others.flatMap fun s => '\n' :: '\n' :: s.chars) ++ ['\n']) := by
    simp [written]
  rw [hchars]
  refine Reads.rule ((reads_section hfirst fuel (by simpa using hclosing)).bind fun ss hss => ?_)
  refine (reads_others hothers fuel).bind_nil fun sss hsss => ?_
  obtain ⟨sss', rfl, hsss'⟩ := hsss
  refine (reads_skip (fails_satisfy rfl).bind.bind.rule).nil_bind fun _ _ => ?_
  exact reads_atEnd.nil_bind fun _ _ => reads_pure ⟨ss, sss', by simp, hss, hsss'⟩

end Parser

/-- The statements of a plain document are the headers of its tables, each with the entries of its
rows after it. -/
theorem statements_written {first : Section} {others : List Section} (hfirst : first.Bare)
    (hothers : ∀ s ∈ others, s.Bare) :
    ∃ ss sss, statements (String.ofList (written first others)) = .ok (ss ++ sss.flatten) ∧
      IsSection first ss ∧ List.Forall₂ IsSection others sss := by
  obtain ⟨list, ⟨ss, sss, rfl, hss, hsss⟩, e⟩ :=
    Parser.statements_of_reads (Parser.reads_document hfirst hothers _)
  exact ⟨ss, sss, e, hss, hsss⟩

/-! ### The tables of the statements -/

namespace Table

variable {t u root : Table} {name : String} {f g : Field} {done : List (String × Field)}

lemma get?_eq_none_iff : t.get? name = none ↔ ∀ e ∈ t.fields, e.1 ≠ name := by
  rw [get?, List.lookup_eq_none_iff]
  constructor
  · exact fun h e he hn => by simpa [hn] using h e he
  · exact fun h e he => by simpa using (h e he).symm

lemma fields_insert_new (h : t.get? name = none) :
    (t.insert name f).fields = t.fields ++ [(name, f)] := by
  rw [insert, h]
  rfl

/-- The field that was set last. -/
lemma get?_last (hdone : ∀ e ∈ done, e.1 ≠ name) (h : t.fields = done ++ [(name, f)]) :
    t.get? name = some f := by
  have hnone : done.lookup name = none :=
    List.lookup_eq_none_iff.2 fun e he => by simpa using (hdone e he).symm
  rw [get?, h, List.lookup_append, hnone]
  simp

lemma fields_insert_last (hdone : ∀ e ∈ done, e.1 ≠ name)
    (h : t.fields = done ++ [(name, f)]) :
    (t.insert name g).fields = done ++ [(name, g)] := by
  have hmap : (done.map fun e => if e.1 == name then (name, g) else e) = done := by
    refine List.map_congr_left (g := id) (fun e he => ?_) |>.trans (List.map_id _)
    simp [hdone e he]
  rw [insert, get?_last hdone h, Option.isSome_some, if_pos rfl]
  show t.fields.map _ = _
  rw [h, List.map_append, hmap]
  simp

/-- A table has the rows as its fields, on whatever lines they were given. -/
def HasRows (t : Table) (rows : List Row) : Prop :=
  List.Forall₂ (fun r e => ∃ line, e = (r.1, .value r.2.value line)) rows t.fields

/-- A field is a table with a name and rows. -/
def IsField (s : Section) (e : String × Field) : Prop :=
  ∃ t : Table, e = (s.1, .table t) ∧ t.HasRows s.2

lemma HasRows.map_fst {rows : List Row} (h : t.HasRows rows) :
    t.fields.map Prod.fst = rows.map Prod.fst := by
  rw [HasRows] at h
  generalize t.fields = fields at h
  induction h with
  | nil => rfl
  | cons he _ ih =>
      obtain ⟨line, rfl⟩ := he
      rw [List.map_cons, List.map_cons, ih]

/-- The fields of a table that has rows, by the lines where they were given. -/
lemma HasRows.exists_lines {rows : List Row} (h : t.HasRows rows) :
    ∃ lineOf : Nat → Nat,
      t.fields = rows.mapIdx fun i r => (r.1, .value r.2.value (lineOf i)) := by
  rw [HasRows] at h
  generalize t.fields = fields at h
  induction h with
  | nil => exact ⟨fun _ => 0, rfl⟩
  | cons he _ ih =>
      obtain ⟨line, rfl⟩ := he
      obtain ⟨lineOf, rfl⟩ := ih
      exact ⟨fun i => i.casesOn line lineOf, by rw [List.mapIdx_cons]; rfl⟩

/-- A row sets its key in the open table. -/
lemma build_row (key : String) (v : Scalar) (keyLine line : Nat) (root : Table) :
    Entry.build (.of (some key) keyLine v.value line) false [name] root
      = root.updateAt line (setValue key v.value line) [name] := by
  cases v <;> simp [Entry.build, Scalar.value, Value.build, Value.holdsTable]

/-- The rows of a table are set one after the other. -/
lemma runStatements_rows {rows : List Row} {ss : List Statement}
    (hss : List.Forall₂ IsRow rows ss) (more : List Statement)
    (hdone : ∀ e ∈ done, e.1 ≠ name) :
    ∀ {root u : Table} {before : List Row}, root.fields = done ++ [(name, Field.table u)] →
      u.HasRows before → ((before ++ rows).map Prod.fst).Nodup →
      ∃ root' u', runStatements (ss ++ more) [name] root = runStatements more [name] root' ∧
        root'.fields = done ++ [(name, Field.table u')] ∧ u'.HasRows (before ++ rows) := by
  induction hss with
  | nil => exact fun {root u before} hroot hu _ => ⟨root, u, rfl, hroot, by simpa using hu⟩
  | @cons r s rows ss hr hss ih =>
      intro root u before hroot hu hkeys
      obtain ⟨keyLine, line, rfl⟩ := hr
      have hnew : u.get? r.1 = none := by
        have hnames : u.fields.map Prod.fst = before.map Prod.fst := hu.map_fst
        have hfresh : r.1 ∉ before.map Prod.fst := by
          rw [List.map_append, List.map_cons] at hkeys
          exact fun h => (List.nodup_append.1 hkeys).2.2 _ h _ (by simp) rfl
        rw [← hnames] at hfresh
        exact get?_eq_none_iff.2 fun e he h => hfresh (h ▸ List.mem_map_of_mem he)
      have hset : Table.setValue r.1 r.2.value line u
          = .ok (u.insert r.1 (.value r.2.value line)) := by
        rw [setValue, hnew]
        rfl
      have hstep : Entry.build (.of (some r.1) keyLine r.2.value line) false [name] root
          = .ok (root.insert name (.table (u.insert r.1 (.value r.2.value line)))) := by
        rw [build_row, updateAt, get?_last hdone hroot]
        simp only [updateAt, hset]
        rfl
      have hu' : (u.insert r.1 (.value r.2.value line)).HasRows (before ++ [r]) := by
        rw [HasRows, fields_insert_new hnew]
        exact List.rel_append hu (.cons ⟨line, rfl⟩ .nil)
      obtain ⟨root', u', e, hroot', hrows⟩ := ih (fields_insert_last hdone hroot) hu'
        (by simpa using hkeys)
      refine ⟨root', u', ?_, hroot', by simpa using hrows⟩
      rw [List.cons_append, runStatements, hstep]
      exact e

/-- A header opens a new table, and the rows after it are set there. -/
lemma runStatements_section {s : Section} {ss : List Statement} (hss : IsSection s ss)
    (more : List Statement) (hkeys : (s.2.map Prod.fst).Nodup) (path : List String)
    (hnew : root.get? s.1 = none) :
    ∃ root' e, runStatements (ss ++ more) path root = runStatements more [s.1] root' ∧
      root'.fields = root.fields ++ [e] ∧ IsField s e := by
  obtain ⟨line, rows, rfl, hrows⟩ := hss
  have hopen : root.updateAt line (openTable true s.1 s.1 line) []
      = .ok (root.insert s.1 (.table (of line true []))) := by
    rw [updateAt, openTable, hnew]
    rfl
  obtain ⟨root', u', e, hroot', hu'⟩ := runStatements_rows hrows more
    (get?_eq_none_iff.1 hnew) (fields_insert_new (f := .table (of line true [])) hnew)
    (List.Forall₂.nil : (of line true []).HasRows []) hkeys
  refine ⟨root', _, ?_, hroot', u', rfl, hu'⟩
  calc runStatements (.header false [some s.1] s.1 line :: rows ++ more) path root
      = (root.updateAt line (openTable true s.1 s.1 line) []).bind
          fun root => runStatements (rows ++ more) [s.1] root := rfl
    _ = runStatements more [s.1] root' := by rw [hopen]; exact e

lemma map_fst_of_isField {sections : List Section} {fields : List (String × Field)}
    (h : List.Forall₂ IsField sections fields) : fields.map Prod.fst = sections.map Prod.fst := by
  induction h with
  | nil => rfl
  | cons he _ ih =>
      obtain ⟨t, rfl, -⟩ := he
      rw [List.map_cons, List.map_cons, ih]

/-- The tables of a document are opened one after the other. -/
lemma runStatements_sections {sections : List Section} {sss : List (List Statement)}
    (hsss : List.Forall₂ IsSection sections sss) :
    ∀ {root : Table} {before : List Section} (path : List String),
      List.Forall₂ IsField before root.fields → ((before ++ sections).map Prod.fst).Nodup →
      (∀ s ∈ sections, (s.2.map Prod.fst).Nodup) →
      ∃ root', runStatements sss.flatten path root = .ok root' ∧
        List.Forall₂ IsField (before ++ sections) root'.fields := by
  induction hsss with
  | nil => exact fun {root before} path hroot _ _ => ⟨root, rfl, by simpa using hroot⟩
  | @cons s ss sections sss hss _ ih =>
      intro root before path hroot hnames hkeys
      have hnew : root.get? s.1 = none := by
        have hfresh : s.1 ∉ before.map Prod.fst := by
          rw [List.map_append, List.map_cons] at hnames
          exact fun h => (List.nodup_append.1 hnames).2.2 _ h _ (by simp) rfl
        rw [← map_fst_of_isField hroot] at hfresh
        exact get?_eq_none_iff.2 fun e he h => hfresh (h ▸ List.mem_map_of_mem he)
      obtain ⟨root₁, f, e₁, hroot₁, hf⟩ :=
        runStatements_section hss sss.flatten (hkeys s (by simp)) path hnew
      have hfields : List.Forall₂ IsField (before ++ [s]) root₁.fields := by
        rw [hroot₁]
        exact List.rel_append hroot (.cons hf .nil)
      obtain ⟨root', e, h⟩ := ih [s.1] hfields (by simpa using hnames)
        fun x hx => hkeys x (List.mem_cons_of_mem _ hx)
      refine ⟨root', ?_, by simpa using h⟩
      rw [List.flatten_cons, e₁, e]

end Table

/-- A plain document of which the names are distinct is read as the tables that it has. -/
theorem Table.ofText_written {first : Section} {others : List Section}
    (hbare : ∀ s ∈ first :: others, s.Bare)
    (hnames : ((first :: others).map Prod.fst).Nodup)
    (hkeys : ∀ s ∈ first :: others, (s.2.map Prod.fst).Nodup) :
    ∃ t, Table.ofText (String.ofList (written first others)) = .ok t ∧
      List.Forall₂ IsField (first :: others) t.fields := by
  obtain ⟨ss, sss, e, hss, hsss⟩ := statements_written (hbare first (by simp))
    fun s hs => hbare s (List.mem_cons_of_mem _ hs)
  obtain ⟨t, et, ht⟩ :=
    @runStatements_sections _ _ (.cons hss hsss) default [] [] .nil hnames hkeys
  refine ⟨t, ?_, ht⟩
  rw [ofText, e]
  exact et

end Toml

end Pseudocode
