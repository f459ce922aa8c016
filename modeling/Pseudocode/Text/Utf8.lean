/-
# Texts as bytes

A character is written in one to four bytes: the first says how many follow, and each of those
carries six bits.  A sequence of bytes need not come from a text: it is a sequence of glyphs, each
of them a character or a stray byte at which no character begins.  Where only characters can be
shown, a stray byte is shown as the replacement character.
-/

namespace Pseudocode.Text

/-- The character that stands for a byte that belongs to no character. -/
def replacement : Char := Char.ofNat 0xFFFD

/-- The bytes of a text. -/
def encode (text : List Char) : List UInt8 := text.flatMap String.utf8EncodeChar

/-- Appends the six bits of each of the next bytes to a value. -/
def trailing? : (count value : Nat) → List UInt8 → Option Nat
  | 0, value, _ => some value
  | _ + 1, _, [] => none
  | count + 1, value, b :: rest =>
      if b.toNat / 64 == 2 then trailing? count (value * 64 + b.toNat % 64) rest else none

/-- The character that begins with a byte, given the bytes after it, and how many of those belong
to it.  A value that needs fewer bytes, half of a surrogate pair or a value beyond the last
character is refused. -/
def leading? (first : UInt8) (rest : List UInt8) : Option (Char × Nat) :=
  let b := first.toNat
  let wide (count bits least : Nat) : Option (Char × Nat) := do
    let value ← trailing? count bits rest
    if value < least || !(decide value.isValidChar) then none
    else some (Char.ofNat value, count)
  if b < 0x80 then some (Char.ofNat b, 0)
  else if b / 32 == 6 then wide 1 (b % 32) 0x80
  else if b / 16 == 14 then wide 2 (b % 16) 0x800
  else if b / 8 == 30 then wide 3 (b % 8) 0x10000
  else none

/-- What a sequence of bytes is made of. -/
inductive Glyph where
  | char (c : Char)
  /-- A byte that belongs to no character. -/
  | stray (b : UInt8)
deriving DecidableEq, Repr, Inhabited

/-- The character that a glyph is shown as. -/
def Glyph.shown : Glyph → Char
  | char c => c
  | stray _ => replacement

/-- The glyphs of a sequence of bytes, after some bytes that are passed over. -/
def glyphsFrom : (passed : Nat) → List UInt8 → List Glyph
  | _, [] => []
  | passed + 1, _ :: rest => glyphsFrom passed rest
  | 0, b :: rest =>
      match leading? b rest with
      | some (c, count) => .char c :: glyphsFrom count rest
      | none => .stray b :: glyphsFrom 0 rest

/-- The text that a sequence of bytes is shown as. -/
def decode (bytes : List UInt8) : List Char := (glyphsFrom 0 bytes).map Glyph.shown

end Pseudocode.Text
