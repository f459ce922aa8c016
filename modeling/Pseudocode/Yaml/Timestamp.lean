/-
# Dates and times

A plain scalar is a date if it is a year of four digits, a month and a day, alone or with a time
of day: after a letter T with a zone, or after spaces without one.
-/

namespace Pseudocode.Yaml.Timestamp

/-- One or two digits, and what follows them. -/
def shortNumber? : List Char → Option (Nat × List Char)
  | a :: b :: rest =>
      if !a.isDigit then none
      else if b.isDigit then some ((a.toNat - 48) * 10 + (b.toNat - 48), rest)
      else some (a.toNat - 48, b :: rest)
  | [a] => if a.isDigit then some (a.toNat - 48, []) else none
  | [] => none

/-- One or two digits for a number that satisfies `p`. -/
def field? (p : Nat → Bool) (cs : List Char) : Option (Nat × List Char) :=
  (shortNumber? cs).filter fun r => p r.1

/-- What follows a character. -/
def after? (c : Char) : List Char → Option (List Char)
  | d :: rest => if d == c then some rest else none
  | [] => none

/-- The number of days of a month. -/
def daysIn (year month : Nat) : Nat :=
  if month == 2 then
    (if year % 4 == 0 && (year % 100 != 0 || year % 400 == 0) then 29 else 28)
  else if month == 4 || month == 6 || month == 9 || month == 11 then 30
  else 31

/-- What follows a date. -/
def date? (cs : List Char) : Option (List Char) := do
  let digits := cs.takeWhile Char.isDigit
  if digits.length != 4 then none
  else
    let year := digits.foldl (fun n c => n * 10 + (c.toNat - 48)) 0
    let rest ← after? '-' (cs.drop 4)
    let (month, rest) ← field? (fun m => 1 ≤ m && m ≤ 12) rest
    let rest ← after? '-' rest
    let (_, rest) ← field? (fun d => 1 ≤ d && d ≤ daysIn year month) rest
    return rest

/-- What follows a fraction of a second, which may be missing. -/
def fraction : List Char → List Char
  | c :: d :: rest =>
      if (c == '.' || c == ',') && d.isDigit then rest.dropWhile Char.isDigit else c :: d :: rest
  | cs => cs

/-- What follows a time of day. -/
def time? (cs : List Char) : Option (List Char) := do
  let (_, rest) ← field? (· < 24) cs
  let rest ← after? ':' rest
  let (_, rest) ← field? (· < 60) rest
  let rest ← after? ':' rest
  let (_, rest) ← field? (· < 60) rest
  return fraction rest

/-- Whether a text is a zone: a letter Z, or a sign, hours and minutes. -/
def isZone : List Char → Bool
  | ['Z'] => true
  | [s, a, b, ':', c, d] =>
      (s == '+' || s == '-') && [a, b, c, d].all Char.isDigit
        && (a.toNat - 48) * 10 + (b.toNat - 48) ≤ 24
        && (c.toNat - 48) * 10 + (d.toNat - 48) ≤ 60
  | _ => false

/-- Whether a text is a date or a date with a time. -/
def isTimestamp (text : List Char) : Bool :=
  match date? text with
  | none => false
  | some [] => true
  | some (c :: rest) =>
      if c == 'T' || c == 't' then (time? rest).any isZone
      else if c == ' ' then time? (rest.dropWhile (· == ' ')) == some []
      else false

end Pseudocode.Yaml.Timestamp
