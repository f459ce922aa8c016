/-
# Quoted texts

A text is quoted glyph by glyph.  From what a glyph is quoted as it can be seen where it ends and
what the glyph is: an escape tells by its letter how many digits follow, and everything else is a
character that stands for itself.  No glyph begins with a quotation mark.  So it is seen where a
quoted text ends, whatever comes after it and whatever there is in the text, and the glyphs can be
read back.  The bytes of the text are those of its glyphs.

The main results are

* `ByteString.bytes_glyphs`: the glyphs of a text have its bytes;
* `Text.unquote_quoteGlyph`: a glyph is read back from what it is quoted as;
* `Text.quoteBytes_append`: from a quoted text and what comes after it both can be told.
-/
import Pseudocode.Text.Quoted
import Pseudocode.Proofs.Readback

namespace Pseudocode

namespace Text

/-! ### The bytes of glyphs -/

/-- The bytes that a glyph is made of. -/
def Glyph.bytes : Glyph → List UInt8
  | char c => String.utf8EncodeChar c
  | stray b => [b]

lemma trailing?_succ {count value w : Nat} {bytes : List UInt8}
    (h : trailing? (count + 1) value bytes = some w) :
    ∃ b rest, bytes = b :: rest ∧ b.toNat / 64 = 2 ∧
      trailing? count (value * 64 + b.toNat % 64) rest = some w := by
  cases bytes with
  | nil => cases h
  | cons b rest =>
      rw [trailing?] at h
      split_ifs at h with hb
      exact ⟨b, rest, rfl, beq_iff_eq.mp hb, h⟩

lemma ofNat_eq {n : Nat} {b : UInt8} (h : n = b.toNat) : UInt8.ofNat n = b := by
  rw [h, UInt8.ofNat_toNat]

/-- The bytes of a character are found from its value. -/
lemma utf8EncodeChar_ofNat {v : Nat} (hv : v.isValidChar) :
    String.utf8EncodeChar (Char.ofNat v) =
      if v ≤ 127 then [UInt8.ofNat v]
      else if v ≤ 2047 then [UInt8.ofNat (v / 64 % 32 + 192), UInt8.ofNat (v % 64 + 128)]
      else if v ≤ 65535 then
        [UInt8.ofNat (v / 4096 % 16 + 224), UInt8.ofNat (v / 64 % 64 + 128),
          UInt8.ofNat (v % 64 + 128)]
      else
        [UInt8.ofNat (v / 262144 % 8 + 240), UInt8.ofNat (v / 4096 % 64 + 128),
          UInt8.ofNat (v / 64 % 64 + 128), UInt8.ofNat (v % 64 + 128)] := by
  have hval : (Char.ofNat v).val.toNat = v := by rw [Char.ofNat, dif_pos hv]; rfl
  simp only [String.utf8EncodeChar, hval]

/-- A character has the bytes that it was read from. -/
lemma utf8EncodeChar_of_leading? {b : UInt8} {rest : List UInt8} {c : Char} {count : Nat}
    (h : leading? b rest = some (c, count)) : String.utf8EncodeChar c = b :: rest.take count := by
  have hb := b.toNat_lt
  -- what follows from a longer character
  have hwide : ∀ {k bits least : Nat}, (do
      let value ← trailing? k bits rest
      if value < least || !(decide value.isValidChar) then none
      else some (Char.ofNat value, k)) = some (c, count) →
      k = count ∧ ∃ v, trailing? k bits rest = some v ∧ least ≤ v ∧ v.isValidChar ∧
        c = Char.ofNat v := by
    intro k bits least h
    obtain ⟨v, hv, h⟩ := Option.bind_eq_some_iff.mp h
    split_ifs at h with hbad
    rw [Bool.or_eq_true, decide_eq_true_iff, Bool.not_eq_true', decide_eq_false_iff_not, not_or,
      not_not] at hbad
    rw [Option.some.injEq, Prod.mk.injEq] at h
    exact ⟨h.2, v, hv, not_lt.mp hbad.1, hbad.2, h.1.symm⟩
  unfold leading? at h
  dsimp only at h
  split_ifs at h with h1 h2 h3 h4
  · cases h
    rw [utf8EncodeChar_ofNat (.inl (by omega)), if_pos (by omega), ofNat_eq rfl, List.take_zero]
  · obtain ⟨rfl, v, htrailing, hleast, hvalid, rfl⟩ := hwide h
    obtain ⟨b₁, rest, rfl, hb₁, htrailing⟩ := trailing?_succ htrailing
    rw [trailing?, Option.some.injEq] at htrailing
    rw [beq_iff_eq] at h2
    rw [utf8EncodeChar_ofNat hvalid, if_neg (by omega), if_pos (by omega),
      ofNat_eq (b := b) (by omega), ofNat_eq (b := b₁) (by omega)]
    rfl
  · obtain ⟨rfl, v, htrailing, hleast, hvalid, rfl⟩ := hwide h
    obtain ⟨b₁, rest, rfl, hb₁, htrailing⟩ := trailing?_succ htrailing
    obtain ⟨b₂, rest, rfl, hb₂, htrailing⟩ := trailing?_succ htrailing
    rw [trailing?, Option.some.injEq] at htrailing
    rw [beq_iff_eq] at h3
    rw [utf8EncodeChar_ofNat hvalid, if_neg (by omega), if_neg (by omega), if_pos (by omega),
      ofNat_eq (b := b) (by omega), ofNat_eq (b := b₁) (by omega), ofNat_eq (b := b₂) (by omega)]
    rfl
  · obtain ⟨rfl, v, htrailing, hleast, hvalid, rfl⟩ := hwide h
    obtain ⟨b₁, rest, rfl, hb₁, htrailing⟩ := trailing?_succ htrailing
    obtain ⟨b₂, rest, rfl, hb₂, htrailing⟩ := trailing?_succ htrailing
    obtain ⟨b₃, rest, rfl, hb₃, htrailing⟩ := trailing?_succ htrailing
    rw [trailing?, Option.some.injEq] at htrailing
    rw [beq_iff_eq] at h4
    rw [utf8EncodeChar_ofNat hvalid, if_neg (by omega), if_neg (by omega), if_neg (by omega),
      ofNat_eq (b := b) (by omega), ofNat_eq (b := b₁) (by omega), ofNat_eq (b := b₂) (by omega),
      ofNat_eq (b := b₃) (by omega)]
    rfl

/-- The glyphs have the bytes that they were made of. -/
lemma flatMap_bytes_glyphsFrom (passed : Nat) (bytes : List UInt8) :
    (glyphsFrom passed bytes).flatMap Glyph.bytes = bytes.drop passed := by
  induction bytes generalizing passed with
  | nil => simp [glyphsFrom]
  | cons b rest ih =>
      cases passed with
      | succ passed => rw [glyphsFrom, ih, List.drop_succ_cons]
      | zero =>
          rw [glyphsFrom]
          cases h : leading? b rest with
          | none => rw [List.flatMap_cons, ih, Glyph.bytes, List.drop_zero]; rfl
          | some p =>
              obtain ⟨c, count⟩ := p
              dsimp only
              rw [List.flatMap_cons, ih, Glyph.bytes, utf8EncodeChar_of_leading? h, List.cons_append,
                List.take_append_drop, List.drop_zero]

/-- A byte below `80` is a character. -/
lemma le_of_stray_mem {passed : Nat} {bytes : List UInt8} {b : UInt8}
    (hb : Glyph.stray b ∈ glyphsFrom passed bytes) : 0x80 ≤ b.toNat := by
  induction bytes generalizing passed with
  | nil => simp [glyphsFrom] at hb
  | cons x rest ih =>
      cases passed with
      | succ passed => exact ih hb
      | zero =>
          rw [glyphsFrom] at hb
          cases h : leading? x rest with
          | none =>
              rw [h] at hb
              rcases List.mem_cons.mp hb with heq | hmem
              · cases heq
                by_contra hlt
                unfold leading? at h
                dsimp only at h
                rw [if_pos (not_le.mp hlt)] at h
                cases h
              · exact ih hmem
          | some p =>
              obtain ⟨c, count⟩ := p
              rw [h] at hb
              rcases List.mem_cons.mp hb with heq | hmem
              · cases heq
              · exact ih hmem

/-! ### Hexadecimal numerals -/

lemma digitsValue_toDigits_sixteen (n : Nat) : Number.digitsValue 16 (Nat.toDigits 16 n) = n := by
  have hdigit : ∀ d < 16, Number.digitValue (Nat.digitChar d) = d := by decide
  induction n using Nat.strongRecOn with
  | ind n ih =>
      rcases Nat.lt_or_ge n 16 with h | h
      · rw [Nat.toDigits_of_lt_base h, Number.digitsValue, List.foldl_cons, List.foldl_nil, hdigit n h]
        omega
      · rw [Nat.toDigits_of_base_le (by decide) h, Number.digitsValue, List.foldl_append,
          ← Number.digitsValue, ih (n / 16) (by omega), List.foldl_cons, List.foldl_nil,
          hdigit _ (Nat.mod_lt n (by decide))]
        omega

/-- A numeral of a fixed width is read back. -/
lemma hex_spec (width n : Nat) (hwidth : 0 < width) (hn : n < 16 ^ width) :
    (hex width n).length = width ∧ Number.digitsValue 16 (hex width n) = n := by
  have hlength := (Nat.length_toDigits_le_iff (b := 16) (by decide) hwidth).mpr hn
  unfold hex
  dsimp only
  rw [List.length_append, List.length_replicate, Number.digitsValue_zeros_append]
  exact ⟨by omega, digitsValue_toDigits_sixteen n⟩

/-! ### Reading back -/

/-- The character for the letter of a two-character escape. -/
def unescape (letter : Char) : Char :=
  match letter with
  | 'a' => Char.ofNat 7
  | 'b' => Char.ofNat 8
  | 't' => Char.ofNat 9
  | 'n' => Char.ofNat 10
  | 'v' => Char.ofNat 11
  | 'f' => Char.ofNat 12
  | 'r' => Char.ofNat 13
  | c => c

/-- The glyph that quoted text begins with, and what comes after it. -/
def unquote : List Char → Glyph × List Char
  | '\\' :: 'x' :: rest =>
      let n := Number.digitsValue 16 (rest.take 2)
      (if n < 0x80 then .char (Char.ofNat n) else .stray (UInt8.ofNat n), rest.drop 2)
  | '\\' :: 'u' :: rest => (.char (Char.ofNat (Number.digitsValue 16 (rest.take 4))), rest.drop 4)
  | '\\' :: 'U' :: rest => (.char (Char.ofNat (Number.digitsValue 16 (rest.take 8))), rest.drop 8)
  | '\\' :: letter :: rest => (.char (unescape letter), rest)
  | c :: rest => (.char c, rest)
  | [] => (.char replacement, [])

/-- The letters of the two-character escapes tell the characters apart, and none of them begins a
longer escape. -/
lemma shortEscape?_spec {c letter : Char} (h : shortEscape? c = some letter) :
    unescape letter = c ∧ letter ≠ 'x' ∧ letter ≠ 'u' ∧ letter ≠ 'U' := by
  have hspec : ∀ n < 93, (shortEscape? (Char.ofNat n)).all fun letter => decide
      (unescape letter = Char.ofNat n ∧ letter ≠ 'x' ∧ letter ≠ 'u' ∧ letter ≠ 'U') := by decide
  have hlt : c.toNat < 93 := by
    unfold shortEscape? at h
    split at h <;> first | omega | cases h
  have hletter := hspec c.toNat hlt
  rw [Char.ofNat_toNat, h] at hletter
  exact of_decide_eq_true hletter

/-- **A glyph is read back from what it is quoted as.** -/
theorem unquote_quoteGlyph {g : Glyph} (hg : ∀ b, g = .stray b → 0x80 ≤ b.toNat) (rest : List Char) :
    unquote (quoteGlyph g ++ rest) = (g, rest) := by
  cases g with
  | stray b =>
      obtain ⟨hlength, hvalue⟩ := hex_spec 2 b.toNat (by decide) b.toNat_lt
      have hlow := hg b rfl
      rw [quoteGlyph, List.cons_append, List.cons_append, unquote, List.take_left' hlength,
        List.drop_left' hlength, hvalue, if_neg (by omega), UInt8.ofNat_toNat]
  | char c =>
      rw [quoteGlyph, quoteChar]
      cases hescape : shortEscape? c with
      | some letter =>
          obtain ⟨hletter, hx, hu, hU⟩ := shortEscape?_spec hescape
          dsimp only
          rw [List.cons_append, List.cons_append, List.nil_append, unquote, hletter]
          all_goals simpa using ‹_›
      | none =>
          dsimp only
          have hbackslash : c ≠ '\\' := by
            rintro rfl
            exact absurd hescape (by decide)
          have hmax : c.toNat < 16 ^ 8 := by
            have hvalid := c.valid
            unfold UInt32.isValidChar Nat.isValidChar at hvalid
            unfold Char.toNat
            omega
          split_ifs with hprintable hascii hshort
          · rw [List.singleton_append, unquote]
            all_goals simp [hbackslash]
          · obtain ⟨hlength, hvalue⟩ := hex_spec 2 c.toNat (by decide) (by omega)
            rw [List.cons_append, List.cons_append, unquote, List.take_left' hlength,
              List.drop_left' hlength, hvalue, if_pos hascii, Char.ofNat_toNat]
          · obtain ⟨hlength, hvalue⟩ := hex_spec 4 c.toNat (by decide) hshort
            rw [List.cons_append, List.cons_append, unquote, List.take_left' hlength,
              List.drop_left' hlength, hvalue, Char.ofNat_toNat]
          · obtain ⟨hlength, hvalue⟩ := hex_spec 8 c.toNat (by decide) hmax
            rw [List.cons_append, List.cons_append, unquote, List.take_left' hlength,
              List.drop_left' hlength, hvalue, Char.ofNat_toNat]

/-- No glyph begins with a quotation mark. -/
lemma exists_cons_quoteGlyph (g : Glyph) : ∃ c cs, quoteGlyph g = c :: cs ∧ c ≠ '"' := by
  cases g with
  | stray b => exact ⟨_, _, rfl, by decide⟩
  | char c =>
      rw [quoteGlyph, quoteChar]
      cases hescape : shortEscape? c with
      | some letter => exact ⟨_, _, rfl, by decide⟩
      | none =>
          dsimp only
          split_ifs
          · refine ⟨_, _, rfl, ?_⟩
            rintro rfl
            exact absurd hescape (by decide)
          all_goals exact ⟨_, _, rfl, by decide⟩

/-- A row of glyphs ends at the first quotation mark at which a glyph could begin. -/
lemma flatMap_quoteGlyph_append {gs gs' : List Glyph} {rest rest' : List Char}
    (hgs : ∀ b, Glyph.stray b ∈ gs → 0x80 ≤ b.toNat)
    (hgs' : ∀ b, Glyph.stray b ∈ gs' → 0x80 ≤ b.toNat)
    (heq : gs.flatMap quoteGlyph ++ '"' :: rest = gs'.flatMap quoteGlyph ++ '"' :: rest') :
    gs = gs' ∧ rest = rest' := by
  induction gs generalizing gs' with
  | nil =>
      cases gs' with
      | nil => exact ⟨rfl, (List.cons.inj heq).2⟩
      | cons g' gs' =>
          obtain ⟨c, cs, hg, hc⟩ := exists_cons_quoteGlyph g'
          rw [List.flatMap_cons, hg] at heq
          exact absurd (List.cons.inj heq).1.symm hc
  | cons g gs ih =>
      cases gs' with
      | nil =>
          obtain ⟨c, cs, hg, hc⟩ := exists_cons_quoteGlyph g
          rw [List.flatMap_cons, hg] at heq
          exact absurd (List.cons.inj heq).1 hc
      | cons g' gs' =>
          have hread := congrArg unquote heq
          rw [List.flatMap_cons, List.flatMap_cons, List.append_assoc, List.append_assoc,
            unquote_quoteGlyph fun b hb => hgs b (hb ▸ List.mem_cons_self),
            unquote_quoteGlyph fun b hb => hgs' b (hb ▸ List.mem_cons_self), Prod.mk.injEq] at hread
          obtain ⟨rfl, hrest⟩ := hread
          obtain ⟨hsame, hend⟩ := ih (fun b hb => hgs b (List.mem_cons_of_mem _ hb))
            (fun b hb => hgs' b (List.mem_cons_of_mem _ hb)) hrest
          exact ⟨congrArg (g :: ·) hsame, hend⟩

end Text

namespace ByteString

lemma toList_injective {s s' : ByteString} (h : s.toList = s'.toList) : s = s' := by
  obtain ⟨⟨data⟩⟩ := s
  obtain ⟨⟨data'⟩⟩ := s'
  obtain rfl : data = data' := Array.toList_inj.mp h
  rfl

/-- **The glyphs of a text have its bytes.** -/
theorem bytes_glyphs (s : ByteString) : s.glyphs.flatMap Text.Glyph.bytes = s.toList :=
  Text.flatMap_bytes_glyphsFrom 0 s.toList

lemma glyphs_injective {s s' : ByteString} (h : s.glyphs = s'.glyphs) : s = s' := by
  refine toList_injective ?_
  rw [← s.bytes_glyphs, h, s'.bytes_glyphs]

end ByteString

namespace Text

lemma toList_quoteBytes (s : ByteString) :
    (quoteBytes s).toList = '"' :: s.glyphs.flatMap quoteGlyph ++ ['"'] := by
  rw [quoteBytes, String.toList_ofList]

/-- **Whatever comes after a quoted text, it can be told where it ends and what it is.** -/
theorem quoteBytes_append {s s' : ByteString} {rest rest' : List Char}
    (heq : (quoteBytes s).toList ++ rest = (quoteBytes s').toList ++ rest') :
    s = s' ∧ rest = rest' := by
  rw [toList_quoteBytes, toList_quoteBytes, List.cons_append, List.cons_append, List.append_assoc,
    List.append_assoc] at heq
  obtain ⟨hglyphs, hrest⟩ := flatMap_quoteGlyph_append (fun _ => le_of_stray_mem)
    (fun _ => le_of_stray_mem) (List.cons.inj heq).2
  exact ⟨ByteString.glyphs_injective hglyphs, hrest⟩

end Text

end Pseudocode
