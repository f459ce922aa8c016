/-
# Values

A value is nothing, a number, a truth value, a text, or a list.  Lists are objects: a value
holds the identity of a list, and two values with the same identity share it.
-/
import Pseudocode.Number.Reading
import Pseudocode.Text.Blank
import Pseudocode.Text.ByteString

namespace Pseudocode

/-- The identity of a list object. -/
structure ListId where
  index : Nat
deriving DecidableEq, Repr, Inhabited

/-- A value of the language. -/
inductive Value where
  | nothing
  | number (n : Number)
  | bool (b : Bool)
  | text (s : ByteString)
  | list (id : ListId)
deriving DecidableEq, Repr, Inhabited

/-- What sort of value it is. -/
inductive ValueKind where
  | nothing | number | boolean | text | list
deriving DecidableEq, Repr, Inhabited

namespace ValueKind

def name : ValueKind → String
  | nothing => "nothing"
  | number => "number"
  | boolean => "boolean"
  | text => "text"
  | list => "list"

/-- The sorts in the order of their numbers. -/
def all : List ValueKind := [nothing, number, boolean, text, list]

/-- The name of a sort given by its number. -/
def nameOfCode (n : Int) : String :=
  match if n < 0 then none else all[n.toNat]? with
  | some k => k.name
  | none => "kind(" ++ toString n ++ ")"

end ValueKind

namespace Value

def kind : Value → ValueKind
  | nothing => .nothing
  | number _ => .number
  | bool _ => .boolean
  | text _ => .text
  | list _ => .list

def isNothing : Value → Bool
  | nothing => true
  | _ => false

def isText : Value → Bool
  | text _ => true
  | _ => false

/-- The numeric reading of a text: blank text is zero, text that is no numeral is not a
number. -/
def numberOfText (s : ByteString) : Number :=
  match Text.trim s.chars with
  | [] => 0
  | cs => (Number.read? cs).getD .nan

/-- The numeric reading of a value. -/
def asNumber : Value → Number
  | number n => n
  | bool b => if b then 1 else 0
  | text s => numberOfText s
  | nothing => .nan
  | list _ => .nan

/-- Whether a value counts as true in a condition. -/
def truthy : Value → Bool
  | nothing => false
  | number n => !n.isZero && !n.isNaN
  | bool b => b
  | text s => !s.isEmpty
  | list _ => true

end Value

end Pseudocode
