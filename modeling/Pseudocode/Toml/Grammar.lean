/-
# The grammar of TOML

A document is read by a parsing expression grammar: of several alternatives the first that fits
is taken, and what a failed one has read is read again.  An error is reported on the line of the
furthest place where a rule of the grammar ended, so that place is kept across failures.  The
main definition is `statements`.
-/
import Pseudocode.Number.Reading
import Pseudocode.Toml.Value

namespace Pseudocode.Toml

/-- The text that is left, how many characters came before it, and its line.  Both carriage
returns and line feeds count as line ends. -/
structure Cursor where
  rest : List Char
  index : Nat := 0
  line : Nat := 1
deriving Inhabited

/-- A parser moves the cursor or fails; the furthest place a rule has reached is kept. -/
abbrev Parser := StateT Cursor (OptionT (StateM Nat))

namespace Parser

variable {α : Type}

/-- A rule of the grammar: the place where it ends is remembered, unless it is empty. -/
def rule (p : Parser α) : Parser α := do
  let start ← get
  let a ← p
  let stop ← get
  if start.index != stop.index then modifyThe Nat (max stop.index)
  return a

/-- A character that satisfies `p`. -/
def satisfy (p : Char → Bool) : Parser Char := do
  let c ← get
  match c.rest with
  | [] => failure
  | x :: rest =>
      if p x then
        set (⟨rest, c.index + 1, if x == '\n' || x == '\r' then c.line + 1 else c.line⟩ : Cursor)
        return x
      else failure

def char (x : Char) : Parser Char := satisfy (· == x)

/-- The characters of a text, one after the other. -/
def exactly : List Char → Parser Unit
  | [] => pure ()
  | x :: xs => do
      let _ ← char x
      exactly xs

def repeatUpTo (p : Parser α) : Nat → Parser (List α)
  | 0 => return []
  | n + 1 =>
      (do
        let a ← p
        return a :: (← repeatUpTo p n)) <|> return []

/-- As many `p` as there are; each has to read something. -/
def many (p : Parser α) : Parser (List α) := do repeatUpTo p (← get).rest.length

def many1 (p : Parser α) : Parser (List α) := do
  let a ← p
  return a :: (← many p)

def skipMany (p : Parser α) : Parser Unit := do let _ ← many p

def skip? (p : Parser α) : Parser Unit := (do let _ ← p) <|> pure ()

/-- What a parser has read, beside its result. -/
def withText (p : Parser α) : Parser (α × String) := do
  let start ← get
  let a ← p
  let stop ← get
  return (a, String.ofList (start.rest.take (stop.index - start.index)))

def atEnd : Parser Unit := do
  if !(← get).rest.isEmpty then failure

/-! ### Blanks and comments -/

def isBlank (c : Char) : Bool := c == ' ' || c == '\t'

def isNewline (c : Char) : Bool := c == '\n' || c == '\r'

/-- A character of a text without control characters, or a tab. -/
def isTextChar (c : Char) : Bool := c == '\t' || ' ' ≤ c

def blanks : Parser Unit := rule (skipMany (satisfy isBlank))

def newline : Parser Unit := rule do let _ ← many1 (satisfy isNewline)

def blankLines : Parser Unit := rule (skipMany (rule (satisfy fun c => isBlank c || isNewline c)))

def comment : Parser Unit := rule do
  let _ ← char '#'
  skipMany (satisfy isTextChar)

/-! ### Strings and keys -/

def quote : Char := Char.ofNat 39

def hexDigit : Parser Nat := rule do
  return Number.digitValue (← satisfy (Number.isDigitOf true))

/-- A number of hexadecimal digits. -/
def hexNumber : Nat → Nat → Parser Nat
  | 0, value => return value
  | n + 1, value => do hexNumber n (value * 16 + (← hexDigit))

/-- The character with a number, if there is one. -/
def charOf? (n : Nat) : Option Char := if n.isValidChar then some (Char.ofNat n) else none

/-- What a letter after a backslash stands for; a slash may stand there but stands for nothing. -/
def escapeLetters : List (Char × Option Nat) :=
  [('b', some 8), ('t', some 9), ('n', some 10), ('f', some 12), ('r', some 13), ('"', some 34),
   ('/', none), ('\\', some 92)]

def backslash : Parser Unit := rule do let _ ← char '\\'

def escaped : Parser (Option Char) := rule do
  backslash
  let c ← satisfy fun c => (escapeLetters.lookup c).isSome || c == 'u' || c == 'U'
  if c == 'u' then return charOf? (← hexNumber 4 0)
  else if c == 'U' then return charOf? (← hexNumber 8 0)
  else return (escapeLetters.lookup c).join.map Char.ofNat

/-- A character between double quotes. -/
def basicChar : Parser (Option Char) := rule
  ((rule do return some (← satisfy fun c => ' ' ≤ c && c != '"' && c != '\\')) <|> escaped)

/-- The text of characters, all of which have to be there. -/
def textOf (cs : List (Option Char)) : Option String := (cs.mapM id).map String.ofList

def basicString : Parser (Option String) := rule do
  let _ ← char '"'
  let cs ← many basicChar
  let _ ← char '"'
  return textOf cs

/-- A part of a string between three double quotes. -/
def longBasicPart : Parser (List (Option Char)) :=
  (do return [← basicChar])
    <|> (rule do return (← many1 (satisfy isNewline)).map some)
    <|> (do
          backslash
          newline
          blankLines
          return [])

/-- A string between three double quotes; line breaks at its beginning are dropped. -/
def longBasicString : Parser (Option String) := rule do
  exactly ['"', '"', '"']
  let parts ← rule (many longBasicPart)
  exactly ['"', '"', '"']
  return textOf (parts.flatten.dropWhile fun c => c.any isNewline)

def literalString : Parser (Option String) := rule do
  let _ ← char quote
  let cs ← many (rule (satisfy fun c => isTextChar c && c != quote))
  let _ ← char quote
  return some (String.ofList cs)

/-- Fails where `p` would succeed. -/
def notAhead (p : Parser Unit) : Parser Unit := do
  let here ← get
  let fits ← (do p; return true) <|> return false
  set here
  if fits then failure

def longLiteralString : Parser (Option String) := rule do
  let marks := [quote, quote, quote]
  exactly marks
  let cs ← rule (many (do
    notAhead (exactly marks)
    (do return [← rule (satisfy isTextChar)]) <|> rule (many1 (satisfy isNewline))))
  exactly marks
  return some (String.ofList (cs.flatten.dropWhile isNewline))

def stringText : Parser (Option String) := rule
  (longLiteralString <|> literalString <|> longBasicString <|> basicString)

def bareKey : Parser (Option String) := rule do
  return some (String.ofList (← many1 (satisfy fun c => c.isAlphanum || c == '-' || c == '_')))

def key : Parser (Option String) := rule (bareKey <|> basicString)

/-! ### Numbers, dates and words -/

def digit : Parser Unit := rule do let _ ← satisfy Char.isDigit

/-- A digit, which an underscore may precede. -/
def furtherDigit : Parser Unit := digit <|> do
  let _ ← char '_'
  digit

def sign : Parser Unit := skip? (satisfy fun c => c == '-' || c == '+')

def integer : Parser Unit := rule do
  sign
  rule ((do
    let _ ← satisfy fun c => '1' ≤ c && c ≤ '9'
    let _ ← many1 furtherDigit) <|> digit)

def fraction : Parser Unit := rule do
  let _ ← char '.'
  digit
  skipMany furtherDigit

def exponent : Parser Unit := rule do
  let _ ← satisfy fun c => c == 'e' || c == 'E'
  sign
  digit
  skipMany furtherDigit

def float : Parser Unit := rule do
  integer
  (do
    fraction
    skip? exponent) <|> (do
    skip? fraction
    exponent)

def twoDigits : Parser Unit := rule do
  digit
  digit

def fourDigits : Parser Unit := rule do
  twoDigits
  twoDigits

def fullDate : Parser Unit := rule do
  fourDigits
  let _ ← char '-'
  twoDigits
  let _ ← char '-'
  twoDigits

def timeOfDay : Parser Unit := rule do
  twoDigits
  let _ ← char ':'
  twoDigits
  let _ ← char ':'
  twoDigits
  skip? (rule do
    let _ ← char '.'
    let _ ← many1 digit)

def zone : Parser Unit := rule ((do let _ ← char 'Z') <|> rule (do
  let _ ← satisfy fun c => c == '-' || c == '+'
  twoDigits
  let _ ← char ':'
  twoDigits))

def datetime : Parser Unit := rule
  ((do
    fullDate
    skip? do
      let _ ← char 'T'
      rule do
        timeOfDay
        skip? zone) <|> timeOfDay)

def boolean : Parser Bool := rule
  ((do
    exactly "true".toList
    return true) <|> (do
    exactly "false".toList
    return false))

/-! ### Values -/

/-- A numeral without the underscores between its digits. -/
def withoutUnderscores (s : String) : String := String.ofList (s.toList.filter (· != '_'))

mutual

/-- A value; the fuel bounds how deep it is nested. -/
def value : (fuel : Nat) → Parser Value
  | 0 => failure
  | fuel + 1 => rule (
      (do return .datetime (← withText datetime).2)
        <|> (do return .float (withoutUnderscores (← withText float).2))
        <|> (do return .integer (withoutUnderscores (← withText integer).2))
        <|> (do
              let content ← stringText
              return .text content (← get).line)
        <|> (do return .bool (← boolean))
        <|> (do return .array (← array fuel))
        <|> inlineTable fuel)

/-- An array; comments may stand around its commas. -/
def array : (fuel : Nat) → Parser (List Value)
  | 0 => failure
  | fuel + 1 => rule do
      let _ ← char '['
      blankLines
      let items ← arrayValues fuel <|> return []
      blankLines
      let _ ← char ']'
      return items

def arrayValues : (fuel : Nat) → Parser (List Value)
  | 0 => failure
  | fuel + 1 => rule do
      let comma : Parser Unit := rule do let _ ← char ','
      let first ← value fuel
      let others ← many do
        blankLines
        skip? comment
        blankLines
        comma
        blankLines
        skip? comment
        blankLines
        value fuel
      blankLines
      skip? comma
      blankLines
      skip? comment
      return first :: others

/-- A table between braces. -/
def inlineTable : (fuel : Nat) → Parser Value
  | 0 => failure
  | fuel + 1 => rule do
      let _ ← char '\x7b'
      let line := (← get).line
      blanks
      let entries ← rule (many do
        let e ← keyValue fuel
        skip? (rule do
          blanks
          let _ ← char ','
          blanks)
        return e)
      blanks
      let _ ← char '\x7d'
      return .inline line entries

/-- A key, an equals sign and a value. -/
def keyValue : (fuel : Nat) → Parser Entry
  | 0 => failure
  | fuel + 1 => rule do
      let k ← key
      let keyLine := (← get).line
      blanks
      let _ ← char '='
      blanks
      let v ← value fuel
      return .of k keyLine v (← get).line

end

/-! ### Statements -/

/-- The keys of a header, between dots. -/
def tableKeys : Parser (List (Option String)) := rule do
  let first ← rule key
  let others ← many do
    rule do
      blanks
      let _ ← char '.'
      blanks
    rule key
  return first :: others

/-- A header with its brackets. -/
def bracketed (repeated : Bool) (opening closing : List Char) : Parser Statement := rule do
  exactly opening
  blanks
  let (keys, written) ← withText tableKeys
  blanks
  exactly closing
  return .header repeated keys written (← get).line

def header : Parser Statement := rule
  (bracketed false ['['] [']'] <|> bracketed true ['[', '['] [']', ']'])

/-- A header and the entries after it, a single entry, or nothing; comments aside. -/
def expression (fuel : Nat) : Parser (List Statement) := rule (
  (rule do
    blanks
    let h ← header
    blanks
    skip? comment
    let entries ← many do
      blankLines
      let e ← keyValue fuel
      blanks
      skip? comment
      return .entry e
    return h :: entries)
    <|> (do
          blanks
          let e ← keyValue fuel
          blanks
          skip? comment
          return [.entry e])
    <|> (do
          blanks
          skip? comment
          return []))

/-- A whole document. -/
def document (fuel : Nat) : Parser (List Statement) := rule do
  let first ← expression fuel
  let others ← many do
    newline
    expression fuel
  skip? newline
  atEnd
  return first ++ others.flatten

end Parser

/-- The line of a place in a text: a line feed belongs to the line it begins. -/
def lineAt (text : List Char) (index : Nat) : Nat := 1 + (text.take (index + 1)).count '\n'

/-- The statements of a document. -/
def statements (text : String) : Except Error (List Statement) :=
  let cs := text.toList
  let (result, furthest) := ((Parser.document (3 * cs.length + 8)).run ⟨cs, 0, 1⟩).run.run 0
  match result with
  | some (list, _) => .ok list
  | none => .error ⟨lineAt cs furthest, .grammar⟩

end Pseudocode.Toml
