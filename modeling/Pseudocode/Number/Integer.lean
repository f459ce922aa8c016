/-
# Reading a whole number

A whole number is a sign and digits.  Without a fixed radix a mark tells it: `0x` sixteen,
`0o` or a leading zero eight, `0b` two, and ten otherwise; then underscores may separate the
digits.
-/
import Pseudocode.Number.Reading

namespace Pseudocode.Number

/-- Whether a character is a digit of a radix up to sixteen. -/
def isDigitIn (radix : Nat) (c : Char) : Bool := isDigitOf true c && digitValue c < radix

/-- The number that digits of a fixed radix stand for. -/
def natInRadix? (radix : Nat) (cs : List Char) : Option Nat :=
  if !cs.isEmpty && cs.all (isDigitIn radix) then some (digitsValue radix cs) else none

/-- The radix that a numeral without a sign tells, and its digits. -/
def splitRadix : List Char → Nat × List Char
  | '0' :: c :: d :: rest =>
      if c.toLower == 'x' then (16, d :: rest)
      else if c.toLower == 'o' then (8, d :: rest)
      else if c.toLower == 'b' then (2, d :: rest)
      else (8, '0' :: c :: d :: rest)
  | '0' :: rest => (8, '0' :: rest)
  | cs => (10, cs)

/-- The number that a numeral without a sign stands for, its radix told by a mark. -/
def readNat? (cs : List Char) : Option Nat :=
  let (radix, digits) := splitRadix cs
  if digits.isEmpty || !underscoresOk cs then none
  else
    let digits := digits.filter (· != '_')
    if digits.all (isDigitIn radix) then some (digitsValue radix digits) else none

/-- The whole number that a text stands for, its radix told by a mark. -/
def readInt? (text : List Char) : Option Int :=
  let (negative, cs) := splitSign text
  (readNat? cs).map (signed negative)

/-- The whole number that a text stands for in a fixed radix. -/
def intInRadix? (radix : Nat) (text : List Char) : Option Int :=
  let (negative, cs) := splitSign text
  (natInRadix? radix cs).map (signed negative)

end Pseudocode.Number
