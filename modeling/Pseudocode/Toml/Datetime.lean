/-
# Dates that do not exist

The grammar admits any digits in a date or a time.  This module says what is wrong with one that
is out of range.
-/
import Pseudocode.Number.Reading
import Pseudocode.Text.Quoted
import Pseudocode.Yaml.Timestamp

namespace Pseudocode.Toml.Datetime

/-- The number that the characters from a place stand for. -/
def numberAt (cs : List Char) (start count : Nat) : Nat :=
  Number.digitsValue 10 ((cs.drop start).take count)

/-- The first complaint of a list that applies. -/
def firstThat (checks : List (Bool × String)) : Option String :=
  (checks.find? (·.1)).map (·.2)

def outOfRange (what : String) : String := ": " ++ what ++ " out of range"

/-- What is wrong with the month of a date. -/
def monthCheck (cs : List Char) : List (Bool × String) :=
  let month := numberAt cs 5 2
  [(month < 1 || 12 < month, outOfRange "month")]

/-- What is wrong with the day of a date. -/
def dayCheck (cs : List Char) : List (Bool × String) :=
  let day := numberAt cs 8 2
  let days := Yaml.Timestamp.daysIn (numberAt cs 0 4) (numberAt cs 5 2)
  [(day < 1 || days < day, outOfRange "day")]

/-- What is wrong with a time of day that begins at a place. -/
def timeChecks (cs : List Char) (start : Nat) : List (Bool × String) :=
  [(24 ≤ numberAt cs start 2, outOfRange "hour"),
   (60 ≤ numberAt cs (start + 3) 2, outOfRange "minute"),
   (60 ≤ numberAt cs (start + 6) 2, outOfRange "second")]

/-- The zone after a date and a time. -/
def zoneOf (cs : List Char) : List Char :=
  let rest := cs.drop 19
  if rest.head? == some '.' then (rest.drop 1).dropWhile Char.isDigit else rest

/-- Whether a zone is one that a time can have. -/
def isZone (zone : List Char) : Bool :=
  zone == ['Z'] || (numberAt zone 1 2 ≤ 24 && numberAt zone 4 2 ≤ 60)

/-- What is wrong with a date and a time.  If a part of it is, the zone is no longer expected and
counts as extra text, which is found after the time and before the day is checked. -/
def momentProblem? (cs : List Char) : Option String :=
  let early := monthCheck cs ++ timeChecks cs 11
  let day := dayCheck cs
  let zone := zoneOf cs
  if !zone.isEmpty && isZone zone && (firstThat (early ++ day)).isNone then none
  else
    let extra := [(!zone.isEmpty, ": extra text: " ++ Text.quote (String.ofList zone))]
    firstThat (early ++ extra ++ day)

/-- What is wrong with a date, a time or both, if anything. -/
def problem? (written : String) : Option String :=
  let cs := written.toList
  let problem :=
    if !cs.contains ':' then firstThat (monthCheck cs ++ dayCheck cs)
    else if !cs.contains '-' then firstThat (timeChecks cs 0)
    else momentProblem? cs
  problem.map ("parsing time " ++ Text.quote written ++ ·)

end Pseudocode.Toml.Datetime
