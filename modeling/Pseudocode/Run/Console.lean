/-
# The console

A session has one console.  It keeps the transcript of the current run and everything written
so far, and serves the input line by line to whichever run asks.
-/
import Pseudocode.Failure
import Pseudocode.Text.Blank

namespace Pseudocode

/-- Output written and input left. -/
structure Console where
  /-- What the current run wrote, failed writes included. -/
  transcript : ByteString := ""
  /-- Everything that was accepted. -/
  written : ByteString := ""
  /-- How many bytes can be accepted in all. -/
  limit : Option Nat := none
  /-- The input that has not been read. -/
  input : List UInt8 := []
deriving Repr, Inhabited

namespace Console

/-- Writes a text, unless the limit would be passed. -/
def write (c : Console) (text : ByteString) : Option HostError × Console :=
  let c := { c with transcript := c.transcript ++ text }
  let fits :=
    match c.limit with
    | none => true
    | some n => c.written.size + text.size ≤ n
  if fits then (none, { c with written := c.written ++ text })
  else (some { text := "write limit reached" }, c)

/-- Shows a text that is no output of a run. -/
def announce (c : Console) (text : ByteString) : Console :=
  { c with written := c.written ++ text }

/-- The first segment of the input without its line end, whether it had one, and the rest. -/
def splitLine (input : List UInt8) : List UInt8 × Bool × List UInt8 :=
  let line := input.takeWhile (· != 0x0A)
  match input.drop line.length with
  | [] => (line, false, [])
  | _ :: rest => (line, true, rest)

/-- Reads a line.  All line-end characters at its end are dropped.  The end of the input is an
error, unless it ends a last line that is not empty. -/
def readLine (c : Console) : Except HostError ByteString × Console :=
  let (raw, ended, rest) := splitLine c.input
  let line := Text.dropEndWhile (fun b => b == 0x0D || b == 0x0A) raw
  let c := { c with input := rest }
  if ended || !line.isEmpty then (.ok (.ofList line), c)
  else (.error { text := "EOF" }, c)

/-- Whether a prompt is shown: it is not empty and differs from what was displayed last. -/
def showsPrompt (lastDisplay prompt : ByteString) : Bool :=
  !prompt.isEmpty && prompt != lastDisplay

/-- Shows a prompt, where it has to be shown, and reads a line. -/
def prompt (c : Console) (lastDisplay text : ByteString) :
    Except HostError ByteString × Console :=
  if showsPrompt lastDisplay text then
    match c.write (text ++ " ") with
    | (some e, c) => (.error e, c)
    | (none, c) => c.readLine
  else c.readLine

end Console

end Pseudocode
