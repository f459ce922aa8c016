/-
# Styled text

On a terminal, a piece of text can be given a colour or be set in bold by a control sequence
before it and one after it.  Where styles are off, texts are left as they are and some of the
labels that only their colour explains are left out.
-/

namespace Pseudocode.Text

/-- The styles a text can have. -/
inductive Style where
  | red | brightRed | green | yellow | blue | cyan | gray | bold
deriving DecidableEq, Repr, Inhabited

namespace Style

/-- The number of a style in a control sequence. -/
def code : Style → Nat
  | bold => 1
  | red => 31
  | green => 32
  | yellow => 33
  | blue => 34
  | cyan => 36
  | gray => 90
  | brightRed => 91

/-- The control sequence with a number. -/
def sequence (n : Nat) : String := "\x1b[" ++ toString n ++ "m"

/-- A text in a style, if styles are on. -/
def apply (on : Bool) (s : Style) (text : String) : String :=
  if on then sequence s.code ++ text ++ sequence 0 else text

/-- An error message. -/
def error (on : Bool) (message : String) : String := brightRed.apply on "Error: " ++ message

/-- A warning. -/
def warning (on : Bool) (message : String) : String := yellow.apply on "Warning: " ++ message

/-- A message that only informs. -/
def info (on : Bool) (message : String) : String :=
  (if on then blue.apply on "Info: " else "") ++ message

/-- A message of success. -/
def success (on : Bool) (message : String) : String :=
  (if on then green.apply on "Success: " else "") ++ message

/-- A line and a column. -/
def position (on : Bool) (line column : Int) : String :=
  cyan.apply on (toString line ++ ":" ++ toString column)

/-- An error message with its place and, on the next line, what it is about. -/
def errorAt (on : Bool) (line column : Int) (message context : String) : String :=
  brightRed.apply on (bold.apply on "Error") ++ " at " ++ position on line column ++ ": "
    ++ message ++ "\n" ++ gray.apply on context

end Style

end Pseudocode.Text
