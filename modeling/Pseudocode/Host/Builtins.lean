/-
# The builtin functions

The functions every program can call: console input and output, random numbers, and the
operations on lists.
-/
import Pseudocode.Host.Registry
import Pseudocode.Value.Operators

namespace Pseudocode.Builtins

open Pseudocode.Action

/-- Texts, each followed by a space; no text at all is a single space. -/
def spaced : List ByteString → ByteString
  | [] => " "
  | texts => texts.foldl (fun s t => s ++ t ++ " ") ""

/-- Shows the arguments, each followed by a space. -/
def display : Native := fun args =>
  ask .heap fun h =>
    ask (.display (spaced (args.map h.display))) fun e => do
      check e
      return .nothing

/-- What a line of input stands for: a number if it reads as one, else the text itself.  A blank
line stays a text. -/
def inputValue (line : ByteString) : Value :=
  if (Text.trim line.chars).isEmpty then .text line
  else
    match Value.numberOfText line with
    | .nan => .text line
    | n => .number n

/-- Reads a line, showing the first argument as a prompt. -/
def input : Native := fun args =>
  ask .heap fun h =>
    ask (.prompt ((args.head?.map h.display).getD "")) fun
      | .ok line => return inputValue line
      | .error _ => fail (.host { text := "CANCELED", canceled := true })

/-- The width of a range is refused from here on. -/
def widthLimit : Number := .ofNat 9223372036854775807

/-- The number at an offset into a range that starts at `lo`. -/
def randomAt (lo : Number) (offset : Nat) : Number := lo.add (.ofNat offset)

/-- The least integer of a range and how many offsets it has, or why it is refused. -/
def randomRange (a b : Number) : Except String (Number × Nat) :=
  if a.isNaN || b.isNaN || a.isInfinite || b.isInfinite then
    .error "RANDOM requires two numbers to specify a range to choose from"
  else
    let lo := a.ceil
    let hi := b.floor
    if hi.lt lo then .error "RANDOM requires the first number to be no larger than the second"
    else if widthLimit.le (hi.sub lo) then .error "RANDOM range is too large"
    else .ok (lo, ((hi.sub lo).toInt64 + 1).toNat)

/-- Draws an integer from an inclusive range. -/
def random : Native
  | [a, b] =>
      match randomRange a.asNumber b.asNumber with
      | .error text => error text
      | .ok (lo, n) => ask (.draw n) fun k => return .number (randomAt lo k)
  | args => fault .arityMismatch ("RANDOM: expected 2, got " ++ toString args.length)

/-- Goes on with the list that is the first argument. -/
def withList (name what : String) (args : List Value) (next : ListId → List Value → Action Value) :
    Action Value :=
  match args with
  | .list id :: rest => next id rest
  | _ => fault .notAList (name ++ " requires " ++ what)

/-- The number of elements of a list. -/
def length : Native := fun args =>
  withList "LENGTH" "a list to inspect" args fun id _ =>
    ask .heap fun h => return .number (.ofNat (h.length id))

/-- Adds an element at the end of a list. -/
def append : Native := fun args =>
  withList "APPEND" "a list to append to" args fun
    | _, [] => error "nothing to APPEND"
    | id, v :: _ => ask (.push id v) fun _ => return .nothing

/-- A fault for a position outside a list. -/
def badPosition (name : String) (h : Heap) (id : ListId) (v : Value) : Action Value :=
  fault .indexOutOfRange
    (name ++ ": " ++ (h.display v).shown ++ " (length " ++ toString (h.length id) ++ ")")

/-- Inserts an element before a position, which may be one past the end. -/
def insert : Native := fun args =>
  withList "INSERT" "a list to insert into" args fun
    | _, [] => error "INSERT requires an index to insert at"
    | id, p :: rest =>
        ask .heap fun h =>
          match p.position? (h.length id + 1), rest with
          | none, _ => badPosition "INSERT" h id p
          | some _, [] => error "INSERT requires something to insert"
          | some i, v :: _ => ask (.insert id i v) fun _ => return .nothing

/-- Removes the element at a position. -/
def remove : Native := fun args =>
  withList "REMOVE" "a list to remove from" args fun
    | _, [] => error "REMOVE requires an index to remove"
    | id, p :: _ =>
        ask .heap fun h =>
          match p.position? (h.length id) with
          | none => badPosition "REMOVE" h id p
          | some i => ask (.erase id i) fun _ => return .nothing

/-- The plugin of the builtin functions. -/
def plugin : Plugin where
  name := "builtins"
  functions :=
    [("DISPLAY", display), ("INPUT", input), ("RANDOM", random), ("LENGTH", length),
     ("APPEND", append), ("INSERT", insert), ("REMOVE", remove)]

end Pseudocode.Builtins
