/-
# What a scalar means

A plain scalar stands for nothing, a truth value, a number or a date if it is written like one,
and for its own text otherwise.  A tag can ask for one of these meanings; a scalar written
differently is then refused.
-/
import Pseudocode.Number.Integer
import Pseudocode.Text.ByteString
import Pseudocode.Yaml.Node
import Pseudocode.Yaml.Timestamp

namespace Pseudocode.Yaml

/-- What a scalar stands for. -/
inductive Meaning where
  | null
  | bool (b : Bool)
  /-- A whole number of 64 bits, with or without a sign. -/
  | int (i : Int)
  | float (x : Number)
  | timestamp
  | text (s : String)
  /-- Data that need not be a text; only a tag can ask for it. -/
  | binary (data : ByteString)
deriving DecidableEq, Repr, Inhabited

namespace Meaning

/-- The tag of a meaning. -/
def tag : Meaning → String
  | null => tagNull
  | bool _ => tagBool
  | int _ => tagInt
  | float _ => tagFloat
  | timestamp => tagTimestamp
  | text _ => tagText
  | binary _ => tagBinary

/-- The words that stand for something else than themselves. -/
def words : List (String × Meaning) :=
  [("true", bool true), ("True", bool true), ("TRUE", bool true),
   ("false", bool false), ("False", bool false), ("FALSE", bool false),
   ("", null), ("~", null), ("null", null), ("Null", null), ("NULL", null),
   (".nan", float .nan), (".NaN", float .nan), (".NAN", float .nan),
   (".inf", float (.infinity false)), (".Inf", float (.infinity false)),
   (".INF", float (.infinity false)), ("+.inf", float (.infinity false)),
   ("+.Inf", float (.infinity false)), ("+.INF", float (.infinity false)),
   ("-.inf", float (.infinity true)), ("-.Inf", float (.infinity true)),
   ("-.INF", float (.infinity true))]

/-- Whether a text is a decimal numeral with an optional fraction and exponent. -/
def isDecimal (text : List Char) : Bool :=
  let cs := (Number.splitSign text).2
  let whole := cs.takeWhile Char.isDigit
  let rest := cs.drop whole.length
  let fraction :=
    match rest with
    | '.' :: r => r.takeWhile Char.isDigit
    | _ => []
  let rest := if rest.head? == some '.' then rest.drop (fraction.length + 1) else rest
  !(whole.isEmpty && fraction.isEmpty) &&
    match rest with
    | [] => true
    | c :: r =>
        let digits := (Number.splitSign r).2
        (c == 'e' || c == 'E') && !digits.isEmpty && digits.all Char.isDigit

/-- The whole number of 64 bits that a text stands for; one without a sign may use them all. -/
def wholeNumber? (text : List Char) (value : Option Int) : Option Int :=
  value.filter fun i =>
    Number.fitsInt64 i
      || (text.all (fun c => c != '-' && c != '+') && 0 ≤ i && i < 18446744073709551616)

/-- The whole number written after the given mark of a radix. -/
def marked? (mark : List Char) (radix : Nat) (text : List Char) : Option Int :=
  if mark.isPrefixOf text then
    wholeNumber? (text.drop mark.length) (Number.intInRadix? radix (text.drop mark.length))
  else if ('-' :: mark).isPrefixOf text then
    (Number.intInRadix? radix ('-' :: text.drop (mark.length + 1))).filter Number.fitsInt64
  else none

/-- The number that a text stands for which begins with a sign or a digit. -/
def number? (text : List Char) : Option Meaning :=
  let plain := text.filter (· != '_')
  ((wholeNumber? plain (Number.readInt? plain)).map int)
    <|> (if isDecimal plain then (Number.read? plain).map float else none)
    <|> (marked? ['0', 'b'] 2 plain).map int
    <|> (marked? ['0', 'o'] 8 plain).map int

/-- The meaning of a plain scalar; `dates` tells whether dates are recognised. -/
def ofPlain (dates : Bool) (s : String) : Meaning :=
  match words.lookup s with
  | some m => m
  | none =>
      let cs := s.toList
      match cs.head? with
      | none => null
      | some c =>
          if c == '.' then ((Number.read? cs).map float).getD (text s)
          else if c.isDigit || c == '+' || c == '-' then
            if dates && Timestamp.isTimestamp cs then timestamp
            else (number? cs).getD (text s)
          else text s

/-- Whether a tag asks for a meaning; under any other tag a scalar is its own text. -/
def isAsked (tag : String) : Bool :=
  [tagText, tagBool, tagInt, tagFloat, tagNull, tagTimestamp].contains tag

/-- The meaning of a scalar under a tag, and the tag that results. -/
def ofTagged (tag s : String) : Except Error (String × Meaning) :=
  if !isAsked tag || tag == tagText then .ok (tag, text s)
  else
    let m := ofPlain (tag == tagTimestamp) s
    match tag == m.tag, m with
    | true, _ => .ok (tag, m)
    | false, m =>
        let refusal : Error :=
          { problem := "cannot decode " ++ m.tag ++ " \x60" ++ s ++ "\x60 as a " ++ tag }
        match m with
        | int i =>
            if tag == tagFloat && Number.fitsInt64 i then .ok (tag, float (Number.ofInt i))
            else .error refusal
        | _ => .error refusal

end Meaning

end Pseudocode.Yaml
