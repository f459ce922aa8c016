/-
# Cutting a stream into tokens

The scanner keeps a queue of tokens.  A scalar may turn out to be the key of a mapping only when
the colon after it is seen, so the scanner remembers where a key may have begun and puts the
key's tokens in front of it afterwards.  Such a key has to fit on one line and into 1024
characters.

Before a character is looked at it is brought into view.  How many characters are asked for at a
time decides how early one that is not allowed is noticed.
-/
import Pseudocode.Text.Utf8
import Pseudocode.Yaml.View

namespace Pseudocode.Yaml

/-- A place where a key of a mapping may have begun. -/
structure SimpleKey where
  possible : Bool := false
  /-- Whether only a key can stand there. -/
  required : Bool := false
  /-- The number of the token that the key would begin with. -/
  token : Nat := 0
  mark : Mark := {}
deriving Repr, Inhabited

/-- The state of the scanner. -/
structure Scanner where
  /-- The characters not read yet. -/
  rest : List Char
  /-- How many characters the stream has; no token needs more rounds than that. -/
  size : Nat := rest.length
  mark : Mark := {}
  view : View := {}
  /-- Line breaks read since the last character of a token. -/
  newlines : Nat := 0
  started : Bool := false
  flowLevel : Nat := 0
  indent : Int := -1
  /-- The indentations of the enclosing collections, the innermost first. -/
  indents : List Int := []
  keyAllowed : Bool := false
  /-- Where keys may have begun, one place for each flow level, the innermost first. -/
  keys : List SimpleKey := []
  /-- The tokens ready to be taken. -/
  queue : List Token := []
  /-- How many tokens have been taken. -/
  taken : Nat := 0
  /-- Whether the first token of the queue is known to be final. -/
  ready : Bool := false
deriving Repr, Inhabited

/-- Scanning: changes the scanner or fails. -/
abbrev Scan := StateT Scanner (Except Error)

namespace Scan

/-- Fails at the current position; the line told is that of the context, if it is known. -/
def failAt {α : Type} (context : Mark) (problem : String) : Scan α := do
  let line := firstLine context.line (← get).mark.line
  throw { problem, line := if line = 0 then 0 else line + 1 }

/-- Brings the next `n` characters into view; tells whether they are all allowed. -/
def reveal (n : Nat) : Scan Bool := do
  let s ← get
  let (view, ok) := s.view.reach (s.mark.index + n) s.rest
  set { s with view }
  return ok

/-- The error of a character that is not allowed. -/
def notAllowed : Error := { problem := "control characters are not allowed" }

/-- Requires that the next `n` characters can be looked at. -/
def need (n : Nat) : Scan Unit := do
  if !(← reveal n) then throw notAllowed

/-- The character `i` places ahead. -/
def look (i : Nat) : Scan (Option Char) := return (← get).rest[i]?

/-- Whether the next character is `c`. -/
def nextIs (c : Char) : Scan Bool := return (← look 0) == some c

/-- Skips a character and does not count it as a line break, whatever it is. -/
def skip : Scan Unit :=
  modify fun s => { s with
    rest := s.rest.tail
    mark := { s.mark with index := s.mark.index + 1, column := s.mark.column + 1 }
    newlines := if s.rest.head?.any isBlank then s.newlines else 0 }

/-- Reads a character that is no line break. -/
def readChar : Scan (List Char) := do
  let next ← look 0
  skip
  return next.toList

/-- Skips a number of characters that are in view. -/
def skipMany : Nat → Scan Unit
  | 0 => pure ()
  | n + 1 => do skip; skipMany n

/-- Skips a number of characters, looking for one more after each. -/
def skipOneByOne : Nat → Scan Unit
  | 0 => pure ()
  | n + 1 => do skip; need 1; skipOneByOne n

/-- Reads a line break; all kinds but the two Unicode separators become a line feed. -/
def readBreak : Scan (List Char) := do
  let s ← get
  let after (rest : List Char) (n : Nat) (text : List Char) : Scan (List Char) := do
    set { s with
      rest
      mark := { index := s.mark.index + n, line := s.mark.line + 1, column := 0 }
      newlines := s.newlines + 1 }
    return text
  match s.rest with
  | '\r' :: '\n' :: rest => after rest 2 ['\n']
  | c :: rest =>
      if !isBreak c then return []
      else if c.toNat == 0x2028 || c.toNat == 0x2029 then after rest 1 [c]
      else after rest 1 ['\n']
  | [] => return []

/-- Skips a line break, if there is one. -/
def skipBreak : Scan Unit := do
  if (← look 0).any isBreak then
    need 2
    let _ ← readBreak

/-- Reads the longest run of characters that satisfy `p`, none of them a line break. -/
def readWhile (p : Char → Bool) : Scan (List Char) := do
  need 1
  let run := (← get).rest.takeWhile p
  skipOneByOne run.length
  return run

def skipWhile (p : Char → Bool) : Scan Unit := do let _ ← readWhile p

/-- Skips to the end of the line. -/
def skipLine : Scan Unit := skipWhile (!isBreak ·)

/-- Whether a line begins here with three times `c`, as the marks of a document do. -/
def atDocumentMark (c : Char) : Scan Bool := do
  let s ← get
  match s.rest with
  | a :: b :: d :: rest =>
      return s.mark.column == 0 && a == c && b == c && d == c && endsWord rest.head?
  | _ => return false

/-! ### The queue -/

/-- Puts a token at the end of the queue. -/
def emit (kind : TokenKind) (start : Mark) : Scan Unit :=
  modify fun s => { s with queue := s.queue ++ [⟨kind, start⟩] }

/-- Puts a token into the queue so that it gets the given number. -/
def emitAt (number : Nat) (kind : TokenKind) (start : Mark) : Scan Unit :=
  modify fun s =>
    let (before, after) := s.queue.splitAt (number - s.taken)
    { s with queue := before ++ ⟨kind, start⟩ :: after }

/-- The number that the next token at the end of the queue gets. -/
def nextNumber : Scan Nat := do
  let s ← get
  return s.taken + s.queue.length

/-! ### Keys -/

/-- Whether a place can still turn out to be the beginning of a key. -/
def keyStands (k : SimpleKey) : Scan Bool := do
  if !k.possible then return false
  let mark := (← get).mark
  if k.mark.line < mark.line || k.mark.index + 1024 < mark.index then
    if k.required then failAt k.mark "could not find expected ':'"
    return false
  return true

/-- Replaces the place of the innermost flow level. -/
def setKey (k : SimpleKey) : Scan Unit :=
  modify fun s => { s with keys := k :: s.keys.tail }

/-- Gives up the place of the innermost flow level. -/
def dropKey : Scan Unit := do
  let k := (← get).keys.headD {}
  if k.possible then
    if k.required then failAt k.mark "could not find expected ':'"
    setKey { k with possible := false }

/-- Remembers that a key may begin here. -/
def saveKey : Scan Unit := do
  let s ← get
  if s.keyAllowed then
    let required := s.flowLevel == 0 && s.indent == s.mark.column
    dropKey
    setKey { possible := true, required, token := ← nextNumber, mark := s.mark }

def allowKey (b : Bool) : Scan Unit := modify fun s => { s with keyAllowed := b }

/-! ### Indentation -/

/-- The deepest nesting of collections. -/
def maxNesting : Nat := 10000

/-- Opens a block collection where the column is larger than the indentation.  Its first token
gets the given number, or goes to the end of the queue. -/
def openBlock (column : Nat) (number : Option Nat) (kind : TokenKind) (mark : Mark) :
    Scan Unit := do
  let s ← get
  if s.flowLevel == 0 && s.indent < column then
    set { s with indents := s.indent :: s.indents, indent := column }
    if maxNesting ≤ s.indents.length then
      failAt s.mark ("exceeded max depth of " ++ toString maxNesting)
    match number with
    | some n => emitAt n kind mark
    | none => emit kind mark

/-- Closes the block collections that are indented more than the column. -/
def closeBlocks (column : Int) (mark : Mark) : Scan Unit :=
  modify fun s =>
    if s.flowLevel != 0 then s
    else
      let closed := (s.indent :: s.indents).takeWhile (column < ·)
      let left := (s.indent :: s.indents).drop closed.length
      { s with
        queue := s.queue ++ closed.map fun _ => ⟨.blockEnd, mark⟩
        indent := left.headD (-1)
        indents := left.tail }

/-! ### Comments -/

/-- Skips everything up to the end of the line that the character with index `target` is in. -/
def skipThrough (target : Nat) : (fuel : Nat) → Scan Unit
  | 0 => pure ()
  | fuel + 1 => do
      need 1
      let s ← get
      if endsLine s.rest.head? then
        if s.mark.index < target then
          skipBreak
          skipThrough target fuel
      else
        skip
        skipThrough target fuel

/-- How far ahead a comment is looked for. -/
def commentReach : Nat := 512

/-- Looks for a comment that begins `offset` or more characters ahead, where `ahead` are the
characters from there on.  Blanks are passed over, and with `lines` line feeds and carriage
returns too; at any other line break the search still looks at one more character.  Where a
character that is not allowed comes into view the search ends, and the stream is spoiled. -/
def commentAhead (lines : Bool) :
    (fuel : Nat) → (offset : Nat) → (ahead : List Char) → Scan (Option Nat)
  | 0, _, _ => return none
  | fuel + 1, offset, ahead => do
      if ← reveal (offset + 1) then
        match ahead with
        | [] => return none
        | c :: rest =>
            if isBlank c || (lines && (c == '\n' || c == '\r')) then
              commentAhead lines fuel (offset + 1) rest
            else if c == '#' then return some offset
            else if lines && isBreak c then commentAhead lines (min fuel 1) (offset + 1) []
            else return none
      else
        modify fun s => { s with view := { s.view with spoiled := true } }
        return none

/-- Skips comments, the first of which begins here, and what stands between them.  After a
comment the search for the next one begins behind the first byte of the line break. -/
def skipComments : (fuel : Nat) → (first : Bool) → Scan Unit
  | 0, _ => pure ()
  | fuel + 1, first => do
      let s ← get
      let offset := if first then 0 else 1
      let ahead := if s.rest.head?.any (1 < ·.utf8Size) then [] else s.rest.drop offset
      match ← commentAhead true (commentReach - offset) offset ahead with
      | none => pure ()
      | some n =>
          skipThrough (s.mark.index + n) (s.size + 1)
          skipComments fuel false

/-- Skips a comment that follows a token on its line. -/
def skipLineComment : Scan Unit := do
  let s ← get
  if s.newlines == 0 then
    match ← commentAhead false commentReach 0 s.rest with
    | none => pure ()
    | some n => skipThrough (s.mark.index + n) (s.size + 1)

/-- Skips blanks, comments and line breaks before a token.  At the beginning of a line, if the
view began with a byte order mark, the first character is skipped. -/
def skipToToken : (fuel : Nat) → Scan Unit
  | 0 => pure ()
  | fuel + 1 => do
      need 1
      let s ← get
      if s.mark.column == 0 && s.view.marked then skip
      skipWhile fun c => c == ' ' || ((s.flowLevel > 0 || !s.keyAllowed) && c == '\t')
      if ← nextIs '#' then skipComments s.size true
      if (← look 0).any isBreak then
        skipBreak
        if s.flowLevel == 0 then allowKey true
        skipToToken fuel

/-! ### Directives, anchors and tags -/

/-- A number of a version. -/
def versionNumber (start : Mark) : Scan Nat := do
  need 1
  let digits := (← get).rest.takeWhile Char.isDigit
  skipOneByOne (min digits.length 2)
  if digits.isEmpty then failAt start "did not find expected version number"
  else if 2 < digits.length then failAt start "found extremely long version number"
  else return digits.foldl (fun n c => n * 10 + (c.toNat - '0'.toNat)) 0

/-- The handle of a tag: an exclamation mark, or a name between two. -/
def tagHandle (directive : Bool) (start : Mark) : Scan (List Char) := do
  need 1
  if !(← nextIs '!') then failAt start "did not find expected '!'"
  let mark ← readChar
  let name ← readWhile isNameChar
  if ← nextIs '!' then return mark ++ name ++ (← readChar)
  if directive && !name.isEmpty then failAt start "did not find expected '!'"
  return mark ++ name

/-- A character that may stand in the address of a tag. -/
def isAddressChar (c : Char) : Bool :=
  isNameChar c || ";/?:@&=+$,.!~*()[]%".contains c || c.toNat == 39

/-- The value of two hexadecimal digits. -/
def hexValue (cs : List Char) : Nat :=
  cs.foldl (fun n c =>
    n * 16
      + (if c.isDigit then c.toNat - 48 else if c.isUpper then c.toNat - 55 else c.toNat - 87)) 0

def isHexDigit (c : Char) : Bool := c.isDigit || ('a' ≤ c && c ≤ 'f') || ('A' ≤ c && c ≤ 'F')

/-- An octet written with a percent sign. -/
def escapedOctet (start : Mark) : Scan UInt8 := do
  need 3
  match (← get).rest with
  | '%' :: a :: b :: _ =>
      if isHexDigit a && isHexDigit b then
        skipMany 3
        return (hexValue [a, b]).toUInt8
      else failAt start "did not find URI escaped octet"
  | _ => failAt start "did not find URI escaped octet"

/-- Octets that continue a character. -/
def trailingOctets (start : Mark) : (count : Nat) → Scan (List UInt8)
  | 0 => return []
  | count + 1 => do
      let octet ← escapedOctet start
      if octet / 64 != 2 then failAt start "found an incorrect trailing UTF-8 octet"
      return octet :: (← trailingOctets start count)

/-- A character written as escaped octets.  Only their number and the first bits of each are
checked, so they may stand for no character. -/
def escapedChar (start : Mark) : Scan (List Char) := do
  let octet ← escapedOctet start
  let count ←
    if octet < 0x80 then pure 0
    else if octet / 32 == 6 then pure 1
    else if octet / 16 == 14 then pure 2
    else if octet / 8 == 30 then pure 3
    else failAt start "found an incorrect leading UTF-8 octet"
  return Text.decode (octet :: (← trailingOctets start count))

/-- The characters of an address. -/
def addressChars (start : Mark) : (fuel : Nat) → Scan (List Char)
  | 0 => return []
  | fuel + 1 => do
      need 1
      match ← look 0 with
      | some '%' => do
          let c ← escapedChar start
          return c ++ (← addressChars start fuel)
      | some c =>
          if isAddressChar c then
            let c ← readChar
            return c ++ (← addressChars start fuel)
          else return []
      | none => return []

/-- The address of a tag; what was read of it already stands before. -/
def tagAddress (head : List Char) (start : Mark) : Scan (List Char) := do
  let tail ← addressChars start (← get).size
  if head.isEmpty && tail.isEmpty then failAt start "did not find expected tag URI"
  return head.drop 1 ++ tail

/-- A directive. -/
def directive : Scan Unit := do
  let start := (← get).mark
  skip
  let name ← readWhile isNameChar
  if name.isEmpty then failAt start "could not find expected directive name"
  if !endsWord (← look 0) then failAt start "found unexpected non-alphabetical character"
  let kind : TokenKind ← (
    if name == "YAML".toList then do
      skipWhile isBlank
      let major ← versionNumber start
      if !(← nextIs '.') then failAt start "did not find expected digit or '.' character"
      skip
      return .version major (← versionNumber start)
    else if name == "TAG".toList then do
      skipWhile isBlank
      let handle ← tagHandle true start
      need 1
      if !(← look 0).any isBlank then failAt start "did not find expected whitespace"
      skipWhile isBlank
      let lead ← tagAddress [] start
      if !endsWord (← look 0) then failAt start "did not find expected whitespace or line break"
      return .tagDirective (String.ofList handle) (String.ofList lead)
    else failAt start "found unknown directive name")
  skipWhile isBlank
  if ← nextIs '#' then skipLine
  if !endsLine (← look 0) then failAt start "did not find expected comment or line break"
  skipBreak
  emit kind start

/-- An anchor or an alias. -/
def anchor (kind : String → TokenKind) : Scan Unit := do
  let start := (← get).mark
  skip
  let name ← readWhile isNameChar
  let next ← look 0
  let ended := endsWord next || next.any fun c => "?:,]\x7d%@".contains c || c.toNat == 96
  if name.isEmpty || !ended then
    failAt start "did not find expected alphabetic or numeric character"
  emit (kind (String.ofList name)) start

/-- A tag. -/
def tag : Scan Unit := do
  let start := (← get).mark
  need 2
  let (handle, suffix) ← (do
    if (← look 1) == some '<' then
      skipMany 2
      let suffix ← tagAddress [] start
      if !(← nextIs '>') then failAt start "did not find the expected '>'"
      skip
      return (([] : List Char), suffix)
    else
      let handle ← tagHandle false start
      if 1 < handle.length && handle.getLast? == some '!' then
        return (handle, ← tagAddress [] start)
      else
        let suffix ← tagAddress handle start
        if suffix.isEmpty then return ([], ['!'])
        else return (['!'], suffix))
  need 1
  if !endsWord (← look 0) then failAt start "did not find expected whitespace or line break"
  emit (.tag (String.ofList handle) (String.ofList suffix)) start

/-! ### Scalars -/

/-- Line breaks between two lines of a scalar: a single line feed becomes a space. -/
def foldBreaks (first others : List Char) : List Char :=
  if first.head? == some '\n' then (if others.isEmpty then [' '] else others)
  else first ++ others

/-- The indentation and the blank lines before the next line of a block scalar: its
indentation, found out where it is not given, and the line breaks. -/
def blockBreaks (start : Mark) (indent : Nat) :
    (fuel : Nat) → (widest : Nat) → (breaks : List Char) → Scan (Nat × List Char)
  | 0, _, breaks => return (indent, breaks)
  | fuel + 1, widest, breaks => do
      need 1
      let s ← get
      let spaces := (s.rest.takeWhile (· == ' ')).length
      skipOneByOne (if indent == 0 then spaces else min spaces (indent - s.mark.column))
      let column := (← get).mark.column
      let widest := max widest column
      if (indent == 0 || column < indent) && (← nextIs '\t') then
        failAt start "found a tab character where an indentation space is expected"
      if (← look 0).any isBreak then
        need 2
        let b ← readBreak
        blockBreaks start indent fuel widest (breaks ++ b)
      else if indent == 0 then
        return (max (max widest (s.indent + 1).toNat) 1, breaks)
      else return (indent, breaks)

/-- The lines of a block scalar.  Gives the text, the line break after the last line, and the
line breaks of the blank lines at the end. -/
def blockLines (literal : Bool) (start : Mark) (indent : Nat) :
    (fuel : Nat) → (text : List (List Char)) → (leadingBreak trailing : List Char) →
    (leadingBlank : Bool) → Scan (List (List Char) × List Char × List Char)
  | 0, text, leadingBreak, trailing, _ => return (text, leadingBreak, trailing)
  | fuel + 1, text, leadingBreak, trailing, leadingBlank => do
      need 1
      let s ← get
      match s.rest.head? with
      | none => return (text, leadingBreak, trailing)
      | some c =>
          if s.mark.column != indent then return (text, leadingBreak, trailing)
          let blank := isBlank c
          let joint :=
            if !literal && !leadingBlank && !blank && leadingBreak.head? == some '\n' then
              (if trailing.isEmpty then [' '] else [])
            else leadingBreak
          let line ← readWhile (!isBreak ·)
          need 2
          let leadingBreak ← readBreak
          let (_, breaks) ← blockBreaks start indent ((← get).size + 1) 0 []
          blockLines literal start indent fuel (line :: trailing :: joint :: text) leadingBreak
            breaks blank

/-- The indicators after the mark of a block scalar: how the end is treated, negative to drop
and positive to keep all line breaks, and the indentation if it is given. -/
def blockIndicators (start : Mark) : Scan (Int × Nat) := do
  let chomp : Scan Int := do
    need 1
    if ← nextIs '+' then do skip; return 1
    else if ← nextIs '-' then do skip; return -1
    else return 0
  let increment : Scan Nat := do
    need 1
    match ← look 0 with
    | some c =>
        if c == '0' then failAt start "found an indentation indicator equal to 0"
        else if c.isDigit then do skip; return c.toNat - '0'.toNat
        else return 0
    | none => return 0
  let c ← chomp
  let i ← increment
  if c == 0 && i != 0 then return (← chomp, i) else return (c, i)

/-- A block scalar. -/
def blockScalar (literal : Bool) : Scan Unit := do
  let start := (← get).mark
  skip
  let (chomping, increment) ← blockIndicators start
  skipWhile isBlank
  if ← nextIs '#' then skipLine
  if !endsLine (← look 0) then failAt start "did not find expected comment or line break"
  skipBreak
  let s ← get
  let given := if increment == 0 then 0 else (max s.indent 0).toNat + increment
  let (indent, trailing) ← blockBreaks start given (s.size + 1) 0 []
  let (text, leadingBreak, trailing) ←
    blockLines literal start indent ((← get).size + 1) [] [] trailing false
  let body := text.reverse.flatten
  let tail :=
    (if chomping == -1 then [] else leadingBreak) ++ (if chomping == 1 then trailing else [])
  emit (.scalar (String.ofList (body ++ tail)) (if literal then .literal else .folded)) start

/-- What a letter after a backslash stands for. -/
def escapeValue? : Char → Option Nat
  | '0' => some 0
  | 'a' => some 7
  | 'b' => some 8
  | 't' => some 9
  | '\t' => some 9
  | 'n' => some 10
  | 'v' => some 11
  | 'f' => some 12
  | 'r' => some 13
  | 'e' => some 27
  | ' ' => some 32
  | '"' => some 34
  | '\\' => some 92
  | 'N' => some 0x85
  | '_' => some 0xA0
  | 'L' => some 0x2028
  | 'P' => some 0x2029
  | c => if c.toNat == 39 then some 39 else none

/-- How many hexadecimal digits follow a letter after a backslash. -/
def escapeWidth? : Char → Option Nat
  | 'x' => some 2
  | 'u' => some 4
  | 'U' => some 8
  | _ => none

/-- An escape sequence. -/
def escape (start : Mark) : Scan (List Char) := do
  let c := (← look 1).getD (Char.ofNat 0)
  match escapeValue? c, escapeWidth? c with
  | some n, _ => do
      skipMany 2
      return [Char.ofNat n]
  | none, some width => do
      skipMany 2
      need width
      let digits := (← get).rest.take width
      if digits.length < width || !digits.all isHexDigit then
        failAt start "did not find expected hexdecimal number"
      let value := hexValue digits
      if (0xD800 ≤ value && value ≤ 0xDFFF) || 0x10FFFF < value then
        failAt start "found invalid Unicode character escape code"
      skipMany width
      return [Char.ofNat value]
  | none, none => failAt start "found unknown escape character"

/-- The blanks and line breaks inside a scalar: the blanks where there is no line break, the
first line break and the others.  `broken` tells that a line break came before. -/
def gap (guard : Scan Unit) :
    (fuel : Nat) → (broken : Bool) → (blanks first others : List Char) →
    Scan (Bool × List Char × List Char × List Char)
  | 0, broken, blanks, first, others => return (broken, blanks, first, others)
  | fuel + 1, broken, blanks, first, others => do
      need 1
      match ← look 0 with
      | none => return (broken, blanks, first, others)
      | some c =>
          if isBlank c then
            if broken then
              guard
              skip
              gap guard fuel broken blanks first others
            else
              let b ← readChar
              gap guard fuel broken (blanks ++ b) first others
          else if isBreak c then
            need 2
            let b ← readBreak
            if broken then gap guard fuel true blanks first (others ++ b)
            else gap guard fuel true [] b others
          else return (broken, blanks, first, others)

/-- The characters of a quoted scalar up to a blank, a line break or the closing quote.  The
flag tells that they end with an escaped line break. -/
def quotedRun (single : Bool) (start : Mark) :
    (fuel : Nat) → (text : List (List Char)) → Scan (Bool × List (List Char))
  | 0, text => return (false, text)
  | fuel + 1, text => do
      let quote := Char.ofNat 39
      match (← get).rest with
      | [] => return (false, text)
      | c :: rest =>
          if isBlank c || isBreak c then return (false, text)
          else if single && c == quote then
            if rest.head? == some quote then
              skipMany 2
              need 2
              quotedRun single start fuel ([quote] :: text)
            else return (false, text)
          else if !single && c == '"' then return (false, text)
          else if !single && c == '\\' then
            if rest.head?.any isBreak then
              need 3
              skip
              skipBreak
              return (true, text)
            else
              let e ← escape start
              need 2
              quotedRun single start fuel (e :: text)
          else
            let c ← readChar
            need 2
            quotedRun single start fuel (c :: text)

/-- The text of a quoted scalar, in pieces, the latest first. -/
def quotedText (single : Bool) (start : Mark) :
    (fuel : Nat) → (text : List (List Char)) → Scan (List (List Char))
  | 0, text => return text
  | fuel + 1, text => do
      need 4
      if (← atDocumentMark '-') || (← atDocumentMark '.') then
        failAt start "found unexpected document indicator"
      let s ← get
      if s.rest.isEmpty then failAt start "found unexpected end of stream"
      let (broken, text) ← quotedRun single start (s.size + 1) text
      need 1
      if ← nextIs (if single then Char.ofNat 39 else '"') then return text
      let (broken, blanks, first, others) ←
        gap (pure ()) ((← get).size + 1) broken [] [] []
      quotedText single start fuel ((if broken then foldBreaks first others else blanks) :: text)

/-- A quoted scalar. -/
def quotedScalar (single : Bool) : Scan Unit := do
  let start := (← get).mark
  skip
  let text ← quotedText single start ((← get).size + 1) []
  skip
  emit (.scalar (String.ofList text.reverse.flatten)
    (if single then .singleQuoted else .doubleQuoted)) start

/-- Whether a plain scalar ends before the next character. -/
def endsPlain (flow : Bool) (c : Char) (next : Option Char) : Bool :=
  (c == ':' && endsWord next) || (flow && ",?[]\x7b\x7d".contains c)

/-- The characters of a plain scalar up to a blank, a line break or an indicator. -/
def plainRun (flow : Bool) : (fuel : Nat) → (text : List (List Char)) → Scan (List (List Char))
  | 0, text => return text
  | fuel + 1, text => do
      match (← get).rest with
      | [] => return text
      | c :: rest =>
          if isBlank c || isBreak c || endsPlain flow c rest.head? then return text
          else
            let c ← readChar
            need 2
            plainRun flow fuel (c :: text)

/-- The text of a plain scalar, in pieces, the latest first; `pending` is what stands between
the pieces if another follows.  The flag tells that a line break came after the last piece. -/
def plainText (start : Mark) (indent : Int) :
    (fuel : Nat) → (broken : Bool) → (pending : List Char) → (text : List (List Char)) →
    Scan (Bool × List (List Char))
  | 0, broken, _, text => return (broken, text)
  | fuel + 1, broken, pending, text => do
      need 4
      if (← atDocumentMark '-') || (← atDocumentMark '.') || (← nextIs '#') then
        return (broken, text)
      let s ← get
      let run ← plainRun (s.flowLevel > 0) (s.size + 1) []
      let text := if run.isEmpty then text else run ++ pending :: text
      let broken := broken && run.isEmpty
      let pending := if run.isEmpty then pending else []
      if !(← look 0).any (fun c => isBlank c || isBreak c) then return (broken, text)
      let guard : Scan Unit := do
        if (← get).mark.column < indent && (← nextIs '\t') then
          failAt start "found a tab character that violates indentation"
      let (broken, blanks, first, others) ←
        gap guard ((← get).size + 1) broken pending [] []
      let s ← get
      let pending := if broken then foldBreaks first others else blanks
      if s.flowLevel == 0 && s.mark.column < indent then return (broken, text)
      plainText start indent fuel broken pending text

/-- A plain scalar. -/
def plainScalar : Scan Unit := do
  let s ← get
  let (broken, text) ← plainText s.mark (s.indent + 1) (s.size + 1) false [] []
  emit (.scalar (String.ofList text.reverse.flatten) .plain) s.mark
  if broken then allowKey true

/-! ### Tokens -/

/-- The end of the stream. -/
def streamEnd : Scan Unit := do
  modify fun s =>
    if s.mark.column == 0 then s
    else { s with mark := { s.mark with column := 0, line := s.mark.line + 1 } }
  closeBlocks (-1) (← get).mark
  dropKey
  allowKey false
  emit .streamEnd (← get).mark

/-- A token that ends all block collections. -/
def topLevel (token : Scan Unit) : Scan Unit := do
  closeBlocks (-1) (← get).mark
  dropKey
  allowKey false
  token

/-- A token of a fixed number of characters. -/
def indicator (kind : TokenKind) (width : Nat) : Scan Unit := do
  let start := (← get).mark
  skipMany width
  emit kind start

def flowStart (kind : TokenKind) : Scan Unit := do
  saveKey
  let token ← nextNumber
  modify fun s => { s with
    keys := { token, mark := s.mark } :: s.keys
    flowLevel := s.flowLevel + 1 }
  if maxNesting < (← get).flowLevel then
    failAt (← get).mark ("exceeded max depth of " ++ toString maxNesting)
  allowKey true
  indicator kind 1

def flowEnd (kind : TokenKind) : Scan Unit := do
  dropKey
  modify fun s =>
    if s.flowLevel == 0 then s
    else { s with flowLevel := s.flowLevel - 1, keys := s.keys.tail }
  allowKey false
  indicator kind 1

def flowEntry : Scan Unit := do
  dropKey
  allowKey true
  indicator .flowEntry 1

/-- An indicator that opens a block collection if it stands in none of its column. -/
def blockIndicator (refusal : String) (opening : TokenKind) : Scan Unit := do
  let s ← get
  if s.flowLevel == 0 then
    if !s.keyAllowed then failAt s.mark refusal
    openBlock s.mark.column none opening s.mark

def blockEntry : Scan Unit := do
  blockIndicator "block sequence entries are not allowed in this context" .blockSequenceStart
  dropKey
  allowKey true
  indicator .blockEntry 1

def keyIndicator : Scan Unit := do
  blockIndicator "mapping keys are not allowed in this context" .blockMappingStart
  dropKey
  allowKey ((← get).flowLevel == 0)
  indicator .key 1

def valueIndicator : Scan Unit := do
  let k := (← get).keys.headD {}
  if ← keyStands k then
    emitAt k.token .key k.mark
    openBlock k.mark.column (some k.token) .blockMappingStart k.mark
    setKey { k with possible := false }
    allowKey false
  else
    setKey { k with possible := false }
    blockIndicator "mapping values are not allowed in this context" .blockMappingStart
    allowKey ((← get).flowLevel == 0)
  indicator .value 1

/-- A token that may begin a key. -/
def keyed (token : Scan Unit) : Scan Unit := do
  saveKey
  allowKey false
  token

/-- Whether a plain scalar can begin with a character, given the one after it. -/
def beginsPlain (flow : Bool) (c : Char) (next : Option Char) : Bool :=
  let special := ",[]\x7b\x7d#&*!|>\"%@".contains c || c.toNat == 39 || c.toNat == 96
  if c == '-' then !next.any isBlank
  else if c == '?' || c == ':' then !flow && !endsWord next
  else !special && !isBlank c && !isBreak c

/-- Reads the token that begins here with a character. -/
def tokenFrom (c : Char) : Scan Unit := do
  let s ← get
  let next := s.rest[1]?
  let flow := 0 < s.flowLevel
  match c.toNat with
  | 0x5B => flowStart .flowSequenceStart
  | 0x7B => flowStart .flowMappingStart
  | 0x5D => flowEnd .flowSequenceEnd
  | 0x7D => flowEnd .flowMappingEnd
  | 0x2C => flowEntry
  | 0x2A => keyed (anchor .reference)
  | 0x26 => keyed (anchor .anchor)
  | 0x21 => keyed tag
  | 39 => keyed (quotedScalar true)
  | 34 => keyed (quotedScalar false)
  | _ =>
      if c == '-' && endsWord next then blockEntry
      else if c == '?' && (flow || endsWord next) then keyIndicator
      else if c == ':' && (flow || endsWord next) then valueIndicator
      else if (c == '|' || c == '>') && !flow then do
        dropKey
        allowKey true
        blockScalar (c == '|')
      else if beginsPlain flow c next then keyed plainScalar
      else failAt s.mark "found character that cannot start any token"

/-- Reads the next token, and skips a comment after it. -/
def nextToken : Scan Unit := do
  need 1
  let s ← get
  if !s.started then
    set { s with started := true, indent := -1, keyAllowed := true, keys := [{}] }
    emit .streamStart s.mark
  else
    skipToToken (s.size + 1)
    closeBlocks (← get).mark.column s.mark
    need 4
    match ← look 0 with
    | none => streamEnd
    | some c =>
        if c == '%' && (← get).mark.column == 0 then topLevel directive
        else if ← atDocumentMark '-' then topLevel (indicator .documentStart 3)
        else if ← atDocumentMark '.' then topLevel (indicator .documentEnd 3)
        else
          tokenFrom c
          if (← get).queue.getLast?.any (·.kind != .blockEntry) then skipLineComment

/-- Reads tokens until three are waiting and the first cannot turn out to be part of a key. -/
def fill : (fuel : Nat) → Scan Unit
  | 0 => pure ()
  | fuel + 1 => do
      let s ← get
      if 2 < s.queue.length then
        match s.keys.find? fun k => k.possible && k.token == s.taken with
        | none => pure ()
        | some k =>
            if ← keyStands k then
              nextToken
              fill fuel
      else
        nextToken
        fill fuel

/-- The next token, which stays in the queue. -/
def peek : Scan Token := do
  let s ← get
  if !s.ready then
    fill (s.size + 4)
    modify fun s => { s with ready := true }
  return (← get).queue.headD default

/-- Takes the next token. -/
def take : Scan Unit :=
  modify fun s => { s with ready := false, taken := s.taken + 1, queue := s.queue.tail }

end Scan

/-- The scanner at the beginning of a text.  A byte order mark there is not part of it. -/
def Scanner.of (text : List Char) : Scanner :=
  let (body, room) :=
    match text with
    | c :: rest =>
        if isByteOrderMark c then (rest, pieceSize - c.utf8Size) else (text, pieceSize)
    | [] => ([], pieceSize)
  { rest := body, view := { pieces := piecesFrom room 0 body } }

end Pseudocode.Yaml
