/-
# Byte strings

The texts that programs handle are sequences of bytes.  Nearly all of them are the bytes of a
string, but binary data need not be, and a line that is too long may be cut inside a character.
Joining two byte strings can make a character of a piece from each.
-/
import Pseudocode.Text.Utf8

namespace Pseudocode

/-- A text as programs handle it. -/
structure ByteString where
  bytes : ByteArray
deriving Inhabited

namespace ByteString

instance : DecidableEq ByteString := fun a b =>
  match a.bytes.decEq b.bytes with
  | isTrue h => isTrue (by cases a; cases b; cases h; rfl)
  | isFalse h => isFalse fun e => h (by rw [e])

/-- The bytes of a string. -/
def ofString (s : String) : ByteString := ⟨s.toByteArray⟩

instance : Coe String ByteString := ⟨ofString⟩

def ofList (bytes : List UInt8) : ByteString := ⟨⟨bytes.toArray⟩⟩

def toList (s : ByteString) : List UInt8 := s.bytes.data.toList

instance : Repr ByteString := ⟨fun s => reprPrec s.toList⟩

instance : Append ByteString := ⟨fun a b => ⟨a.bytes ++ b.bytes⟩⟩

/-- The number of bytes. -/
def size (s : ByteString) : Nat := s.bytes.size

def isEmpty (s : ByteString) : Bool := s.size == 0

/-- The characters and stray bytes. -/
def glyphs (s : ByteString) : List Text.Glyph := Text.glyphsFrom 0 s.toList

/-- The characters, with the replacement character for each stray byte. -/
def chars (s : ByteString) : List Char := Text.decode s.toList

/-- The string that is shown of a byte string. -/
def shown (s : ByteString) : String := String.ofList s.chars

/-- The dictionary order of the bytes, which for strings is that of their characters. -/
instance : Ord ByteString := ⟨fun a b => compare a.toList b.toList⟩

end ByteString

end Pseudocode
