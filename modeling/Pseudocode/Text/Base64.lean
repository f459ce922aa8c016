/-
# Binary data written as text

Each character of the alphabet stands for six bits; four of them give three bytes.  The last
group may be filled up with equals signs.  Line breaks are ignored.
-/
import Pseudocode.Text.ByteString

namespace Pseudocode.Text

/-- The six bits that a character stands for. -/
def base64Value? (c : Char) : Option Nat :=
  if 'A' ≤ c ∧ c ≤ 'Z' then some (c.toNat - 65)
  else if 'a' ≤ c ∧ c ≤ 'z' then some (c.toNat - 97 + 26)
  else if '0' ≤ c ∧ c ≤ '9' then some (c.toNat - 48 + 52)
  else if c == '+' then some 62
  else if c == '/' then some 63
  else none

/-- The bytes that groups of four characters stand for. -/
def base64Groups? : List Char → Option (List UInt8)
  | [] => some []
  | [a, b, '=', '='] => do
      let n := (← base64Value? a) * 64 + (← base64Value? b)
      return [(n / 16).toUInt8]
  | [a, b, c, '='] => do
      let n := ((← base64Value? a) * 64 + (← base64Value? b)) * 64 + (← base64Value? c)
      return [(n / 1024).toUInt8, (n / 4).toUInt8]
  | a :: b :: c :: d :: rest => do
      let n := (((← base64Value? a) * 64 + (← base64Value? b)) * 64 + (← base64Value? c)) * 64
        + (← base64Value? d)
      return (n / 65536).toUInt8 :: (n / 256).toUInt8 :: n.toUInt8 :: (← base64Groups? rest)
  | _ => none

/-- The data that a text stands for. -/
def base64? (text : String) : Option ByteString :=
  (base64Groups? (text.toList.filter fun c => c != '\n' && c != '\r')).map ByteString.ofList

end Pseudocode.Text
