/-
# The log

Messages are logged with a level and with pairs of keys and values.  Without the debug option
only warnings and errors are shown.  A value that could be misread is put between quotes, and one
of several lines is set below its key.
-/
import Pseudocode.Text.Columns
import Pseudocode.Text.Quoted

namespace Pseudocode.Log

/-- How serious a message is. -/
inductive Level where
  | debug | info | warn | error | fatal
deriving DecidableEq, Repr, Inhabited

namespace Level

def rank : Level → Nat
  | debug => 0
  | info => 1
  | warn => 2
  | error => 3
  | fatal => 4

def name : Level → String
  | debug => "DEBU"
  | info => "INFO"
  | warn => "WARN"
  | error => "ERRO"
  | fatal => "FATA"

/-- Whether messages of a level are shown. -/
def isShown (debugging : Bool) (l : Level) : Bool := debugging || warn.rank ≤ l.rank

end Level

/-- A key with its value; a key at the end may lack one. -/
structure Pair where
  key : String
  value : Option String
deriving DecidableEq, Repr, Inhabited

/-- The pairs of a list in which keys and values alternate. -/
def pairs : List String → List Pair
  | [] => []
  | [key] => [⟨key, none⟩]
  | key :: value :: rest => ⟨key, some value⟩ :: pairs rest

/-- A message. -/
structure Entry where
  level : Level
  message : String
  pairs : List Pair := []
deriving DecidableEq, Repr, Inhabited

/-- The text with four spaces for each tab. -/
def expandTabs (s : String) : String :=
  String.ofList (s.toList.flatMap fun c => if c == '\t' then [' ', ' ', ' ', ' '] else [c])

/-- The text as a block: tabs are expanded, a carriage return before a line feed is dropped, and
where there are several lines, each is filled with spaces to the width of the widest. -/
def block (s : String) : String :=
  let lines := ((expandTabs s).toList.splitOn '\n').reverse
  let inner := lines.drop 1 |>.map fun l => if l.getLast? == some '\r' then l.dropLast else l
  let lines := (lines.take 1 ++ inner).reverse
  let width := lines.foldl (fun w l => max w (Text.columns l)) 0
  let fill (l : List Char) : List Char := l ++ List.replicate (width - Text.columns l) ' '
  if inner.isEmpty then String.ofList lines.flatten
  else "\n".intercalate (lines.map fun l => String.ofList (fill l))

/-- A character as it is shown in a value; quotes are escaped where the value stands in quotes. -/
def escapeChar (quoted : Bool) (c : Char) : List Char :=
  if c == '"' then (if quoted then ['\\', c] else [c])
  else if Text.isPrintable c then [c]
  else
    match Text.shortEscape? c with
    | some e => ['\\', e]
    | none =>
        if c.toNat < 0x20 then '\\' :: 'x' :: Text.hex 2 c.toNat
        else if c.toNat < 0x10000 then '\\' :: 'u' :: Text.hex 4 c.toNat
        else '\\' :: 'U' :: Text.hex 8 c.toNat

def escape (quoted : Bool) (s : List Char) : List Char := s.flatMap (escapeChar quoted)

/-- Whether a value has to stand between quotes: it has a space, an equals sign, a quote, the
replacement character or a character that is not printable. -/
def needsQuotes (s : String) : Bool :=
  s.toList.any fun c =>
    c == ' ' || c == '=' || c == '"' || c == Text.replacement || !Text.isPrintable c

/-- The lines of a value, each behind a bar.  The last gets a line feed only if `more` follows,
and is left out if it is empty. -/
def barred (more : Bool) : List (List Char) → List Char
  | [] => []
  | [last] =>
      if last.isEmpty then []
      else "  │ ".toList ++ escape false last ++ (if more then ['\n'] else [])
  | line :: rest => "  │ ".toList ++ escape false line ++ ['\n'] ++ barred more rest

/-- A pair under a key that has no meaning of its own. -/
def plainPair (key value : String) (more : Bool) : String :=
  let key' := block key
  if key == "" then ""
  else if value == "" then " " ++ key' ++ "=\"\""
  else if value.toList.contains '\n' then
    "\n  " ++ key' ++ "=\n"
      ++ String.ofList (barred more (value.toList.splitOn '\n'))
  else if needsQuotes value then
    " " ++ key' ++ "=\"" ++ String.ofList (escape true value.toList) ++ "\""
  else " " ++ key' ++ "=" ++ value

/-- A pair in a line of the log; `more` tells that others follow.  Some keys stand for parts of
the line itself. -/
def pairText (p : Pair) (more : Bool) : String :=
  match p.key with
  | "time" | "level" => ""
  | "caller" => (p.value.map fun v => " " ++ block ("<" ++ v ++ ">")).getD ""
  | "prefix" => (p.value.map fun v => " " ++ block (v ++ ":")).getD ""
  | "msg" => " " ++ expandTabs (p.value.getD "missing value")
  | key => plainPair key (p.value.getD "missing value") more

/-- The pairs of a line of the log. -/
def pairsText : List Pair → String
  | [] => ""
  | p :: rest => pairText p (!rest.isEmpty) ++ pairsText rest

/-- A message as a line of the log. -/
def Entry.text (e : Entry) : String :=
  e.level.name ++ " PCODE:" ++ (if e.message == "" then "" else " " ++ expandTabs e.message)
    ++ pairsText e.pairs ++ "\n"

/-- What is shown of messages. -/
def render (debugging : Bool) (entries : List Entry) : String :=
  String.join ((entries.filter (·.level.isShown debugging)).map Entry.text)

end Pseudocode.Log
