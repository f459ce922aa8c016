/-
# Quoted text

Text is shown between double quotes.  Quotes, backslashes and the common control characters
have a two-character escape, other control characters below `U+0080` and stray bytes a hexadecimal
one, and characters that cannot be printed a longer hexadecimal one.
-/
import Pseudocode.Text.ByteString
import Pseudocode.Text.Printable

namespace Pseudocode.Text

/-- A hexadecimal numeral of at least the given width. -/
def hex (width n : Nat) : List Char :=
  let digits := Nat.toDigits 16 n
  List.replicate (width - digits.length) '0' ++ digits

/-- The letter of the two-character escape of a character, if it has one. -/
def shortEscape? (c : Char) : Option Char :=
  match c.toNat with
  | 7 => some 'a'
  | 8 => some 'b'
  | 9 => some 't'
  | 10 => some 'n'
  | 11 => some 'v'
  | 12 => some 'f'
  | 13 => some 'r'
  | 34 => some '"'
  | 92 => some '\\'
  | _ => none

/-- A character as it stands between the quotes. -/
def quoteChar (c : Char) : List Char :=
  match shortEscape? c with
  | some e => ['\\', e]
  | none =>
      if isPrintable c then [c]
      else if c.toNat < 0x80 then '\\' :: 'x' :: hex 2 c.toNat
      else if c.toNat < 0x10000 then '\\' :: 'u' :: hex 4 c.toNat
      else '\\' :: 'U' :: hex 8 c.toNat

/-- A text between quotes. -/
def quote (s : String) : String :=
  String.ofList ('"' :: s.toList.flatMap quoteChar ++ ['"'])

/-- A glyph as it stands between the quotes.  A stray byte is never below `80`, so its escape is
not that of a control character. -/
def quoteGlyph : Glyph → List Char
  | .char c => quoteChar c
  | .stray b => '\\' :: 'x' :: hex 2 b.toNat

/-- A byte string between quotes. -/
def quoteBytes (s : ByteString) : String :=
  String.ofList ('"' :: s.glyphs.flatMap quoteGlyph ++ ['"'])

end Pseudocode.Text
