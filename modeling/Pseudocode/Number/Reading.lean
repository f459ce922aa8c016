/-
# Reading a number

The numeric texts are decimal numerals with an optional fraction and exponent, hexadecimal
ones with a mandatory binary exponent, and the words for infinity and not-a-number in any
case.  Underscores may stand between digits, and after the hexadecimal mark.  A numeral too
large for a finite number is refused; one too small becomes zero.
-/
import Pseudocode.Number.Basic

namespace Pseudocode.Number

/-- The value of a hexadecimal digit. -/
def digitValue (c : Char) : Nat :=
  if '0' ≤ c ∧ c ≤ '9' then c.toNat - '0'.toNat
  else if 'a' ≤ c ∧ c ≤ 'f' then c.toNat - 'a'.toNat + 10
  else c.toNat - 'A'.toNat + 10

/-- Whether a character is a digit of the radix, which is ten or sixteen. -/
def isDigitOf (hex : Bool) (c : Char) : Bool :=
  ('0' ≤ c ∧ c ≤ '9') || (hex && (('a' ≤ c ∧ c ≤ 'f') || ('A' ≤ c ∧ c ≤ 'F')))

/-- The natural number that digits stand for in a radix. -/
def digitsValue (radix : Nat) (cs : List Char) : Nat :=
  cs.foldl (fun n c => n * radix + digitValue c) 0

/-- Splits off a sign; the flag tells whether it is a minus. -/
def splitSign : List Char → Bool × List Char
  | '-' :: cs => (true, cs)
  | '+' :: cs => (false, cs)
  | cs => (false, cs)

/-- Whether each underscore follows a digit and is followed by one; `digit` and `underscore`
tell what the character before was. -/
def separates (hex : Bool) : (digit underscore : Bool) → List Char → Bool
  | _, underscore, [] => !underscore
  | digit, underscore, c :: cs =>
      if isDigitOf hex c then separates hex true false cs
      else if c == '_' then digit && separates hex false true cs
      else !underscore && separates hex false false cs

/-- The magnitude of an exponent.  Digits after the fifth no longer count: such exponents are
out of every range. -/
def exponentValue (cs : List Char) : Nat :=
  cs.foldl (fun e c => if e < 10000 then e * 10 + digitValue c else e) 0

/-- The exponent after its mark: a sign, then digits and underscores, a digit first. -/
def readExponent? (cs : List Char) : Option Int :=
  let (negative, cs) := splitSign cs
  match cs with
  | [] => none
  | c :: _ =>
      if isDigitOf false c && cs.all (fun c => isDigitOf false c || c == '_') then
        some (signed negative (exponentValue (cs.filter (· != '_'))))
      else none

/-- The number nearest to `± digits * radix ^ exponent`, the radix of the exponent being two
or ten; `none` if that is not finite. -/
def ofNumeral? (negative : Bool) (digits radix : Nat) (exponent : Int) : Option Number :=
  let num := digits * Nat.pow radix exponent.toNat
  let den := Nat.pow radix (-exponent).toNat
  match ofRatio negative num den with
  | .finite s m e h => some (.finite s m e h)
  | _ => none

/-- A numeral without its sign and radix mark. -/
def readNumeral? (negative hex : Bool) (cs : List Char) : Option Number :=
  let run := cs.takeWhile fun c => isDigitOf hex c || c == '_' || c == '.'
  let rest := cs.drop run.length
  let whole := (run.takeWhile (· != '.')).filter (· != '_')
  let fraction := ((run.dropWhile (· != '.')).drop 1).filter (· != '_')
  let digits := whole ++ fraction
  if digits.isEmpty || 1 < run.count '.' then none
  else
    let value := digitsValue (if hex then 16 else 10) digits
    let places : Int := if hex then 4 * fraction.length else fraction.length
    let radix := if hex then 2 else 10
    match rest with
    | [] => if hex then none else ofNumeral? negative value radix (-places)
    | c :: rest =>
        if c.toLower == (if hex then 'p' else 'e') then
          (readExponent? rest).bind fun e => ofNumeral? negative value radix (e - places)
        else none

/-- Whether the underscores of a text without its sign are well placed. -/
def underscoresOk (cs : List Char) : Bool :=
  !cs.contains '_' ||
    match cs with
    | '0' :: c :: rest =>
        if c.toLower == 'x' then separates true true false rest
        else if c.toLower == 'o' || c.toLower == 'b' then separates false true false rest
        else separates false false false cs
    | _ => separates false false false cs

/-- Reads a whole text as a number. -/
def read? (text : List Char) : Option Number :=
  let (negative, cs) := splitSign text
  let word := cs.map Char.toLower
  if word == "inf".toList || word == "infinity".toList then some (.infinity negative)
  else if text.map Char.toLower == "nan".toList then some .nan
  else if !underscoresOk cs then none
  else
    match cs with
    | '0' :: x :: c :: rest =>
        if x.toLower == 'x' then readNumeral? negative true (c :: rest)
        else readNumeral? negative false cs
    | _ => readNumeral? negative false cs

end Pseudocode.Number
