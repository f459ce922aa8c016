/-
# Fields of the wrong type

While a document is read, fields that do not have the type they need are collected and reported
together.
-/
import Pseudocode.Text.Quoted
import Pseudocode.Text.Utf8
import Pseudocode.Yaml.Node

namespace Pseudocode.Document

/-- The types that the fields of a document have. -/
inductive FieldType where
  | outline | node | nodeRef | nodes | ints | texts | int | text | number | bool
  /-- A value that may be absent. -/
  | optional (type : FieldType)
deriving DecidableEq, Repr, Inhabited

/-- What a type is called in a message. -/
def FieldType.name : FieldType → String
  | outline => "programfile.programDisk"
  | node => "programfile.plain"
  | nodeRef => "*programfile.nodeDisk"
  | nodes => "[]*programfile.nodeDisk"
  | ints => "[]int"
  | texts => "[]string"
  | int => "int"
  | text => "string"
  | number => "float64"
  | bool => "bool"
  | optional type => "*" ++ type.name

/-- The type of a value that is present. -/
def FieldType.present : FieldType → FieldType
  | optional type => type
  | type => type

/-- Something in a document that does not have the right form. -/
inductive Mismatch where
  /-- A node of the document that cannot be read as the type; `shown` is its text, if it is
  shown. -/
  | wrongType (line : Nat) (tag : String) (shown : Option String) (wanted : FieldType)
  | unknownField (line : Nat) (name : String) (owner : FieldType)
  | repeatedField (line : Nat) (name : String) (owner : FieldType)
  | repeatedKey (line : Nat) (key : String) (first : Nat)
deriving DecidableEq, Repr, Inhabited

/-- The characters of a text that fit into a number of bytes.  If the cut falls inside a
character, a replacement character stands for each byte of it that is left. -/
def cutBytes : Nat → List Char → List Char
  | _, [] => []
  | room, c :: rest =>
      if c.utf8Size ≤ room then c :: cutBytes (room - c.utf8Size) rest
      else List.replicate room Text.replacement

/-- A text as it is shown in a message: a long one is cut. -/
def shorten (s : String) : String :=
  if 10 < s.utf8ByteSize then String.ofList (cutBytes 7 s.toList) ++ "..." else s

/-- The message of a mismatch. -/
def Mismatch.text : Mismatch → String
  | wrongType line tag shown wanted =>
      let value :=
        match shown with
        | some s => " \x60" ++ shorten s ++ "\x60"
        | none => ""
      "line " ++ toString line ++ ": cannot unmarshal " ++ tag ++ value ++ " into " ++ wanted.name
  | unknownField line name owner =>
      "line " ++ toString line ++ ": field " ++ name ++ " not found in type " ++ owner.name
  | repeatedField line name owner =>
      "line " ++ toString line ++ ": field " ++ name ++ " already set in type " ++ owner.name
  | repeatedKey line key first =>
      "line " ++ toString line ++ ": mapping key " ++ Text.quote key
        ++ " already defined at line " ++ toString first

/-- The mismatch of a node with a type. -/
def Mismatch.ofNode (n : Yaml.Node) (wanted : FieldType) : Mismatch :=
  let plain := n.tag == Yaml.tagSequence || n.tag == Yaml.tagMapping
  wrongType n.place.line n.tag (if plain then none else some n.text) wanted

/-- The mismatches of the keys of a mapping that occur twice. -/
def Mismatch.ofKeys : List Yaml.Node → List Mismatch
  | [] => []
  | k :: rest =>
      (rest.filter fun other => k.sameSort other && k.text == other.text).map (fun other =>
        repeatedKey other.place.line other.text k.place.line) ++ ofKeys rest

end Pseudocode.Document
