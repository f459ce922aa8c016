/-
# The history of commands

The commands given to the debugger are kept, the latest last.  A command equal to the one before
it is not kept again, and only a limited number is kept at all.
-/
import Pseudocode.Text.Lines

namespace Pseudocode

/-- The commands given so far, the latest last. -/
structure History where
  commands : List String := []
deriving DecidableEq, Repr, Inhabited

namespace History

/-- How many commands are kept. -/
def limit : Nat := 1000

/-- Keeps a command; the oldest gives way if there are too many. -/
def push (h : History) (command : String) : History :=
  let all := h.commands ++ [command]
  ⟨if limit < all.length then all.drop 1 else all⟩

/-- Keeps a command unless it repeats the one before it. -/
def add (h : History) (command : String) : History :=
  if h.commands.getLast? = some command then h else h.push command

/-- The history that a text holds, one command to a line.  A line that is too long ends it. -/
def ofText (text : String) : History :=
  ((Text.lines text).takeWhile (!·.isPiece)).foldl
    (fun h line => h.push (String.ofList (Text.decode line.text))) {}

/-- A history as a text. -/
def toText (h : History) : String := String.join (h.commands.map (· ++ "\n"))

end History

end Pseudocode
