/-
# Nodes of a YAML document

A document is a tree of scalars, sequences and mappings.  An alias stands for a node that was
given a name further up; it holds that node, so the tree can be read without a table of names.
-/
import Pseudocode.Yaml.Token

namespace Pseudocode.Yaml

/-- A line and a column, both counted from one. -/
structure Place where
  line : Nat
  column : Nat
deriving DecidableEq, Repr, Inhabited

/-- The place of a mark. -/
def Mark.place (m : Mark) : Place := ⟨m.line + 1, m.column + 1⟩

/-- A node of a document. -/
inductive Node where
  | scalar (place : Place) (tag text : String)
  | sequence (place : Place) (tag : String) (items : List Node)
  | mapping (place : Place) (tag : String) (entries : List (Node × Node))
  | reference (place : Place) (name : String) (target : Node)
deriving Repr, Inhabited

namespace Node

/-- Where a node begins. -/
def place : Node → Place
  | scalar p .. | sequence p .. | mapping p .. | reference p .. => p

/-- The tag of a node; an alias has none. -/
def tag : Node → String
  | scalar _ t _ | sequence _ t _ | mapping _ t _ => t
  | reference .. => ""

/-- The text of a node: that of a scalar, the name of an alias, nothing for a collection. -/
def text : Node → String
  | scalar _ _ t => t
  | reference _ n _ => n
  | sequence .. | mapping .. => ""

/-- Whether two nodes are of the same sort. -/
def sameSort : Node → Node → Bool
  | scalar .., scalar .. | sequence .., sequence .. => true
  | mapping .., mapping .. | reference .., reference .. => true
  | _, _ => false

/-- Whether a node is a mapping. -/
def isMapping : Node → Bool
  | mapping .. => true
  | _ => false

/-- The node that an alias stands for, and any other node itself. -/
def resolved : Node → Node
  | reference _ _ target => resolved target
  | n => n

end Node

/-! ### Tags -/

/-- What the tags of the language itself begin with when they are written out. -/
def tagRoot : String := "tag:yaml.org,2002:"

/-- The short form of a tag. -/
def shortTag (tag : String) : String :=
  if tag.startsWith tagRoot then "!!" ++ (tag.drop tagRoot.length).toString else tag

def tagNull : String := "!!null"
def tagBool : String := "!!bool"
def tagInt : String := "!!int"
def tagFloat : String := "!!float"
def tagTimestamp : String := "!!timestamp"
def tagText : String := "!!str"
def tagBinary : String := "!!binary"
def tagMerge : String := "!!merge"
def tagSequence : String := "!!seq"
def tagMapping : String := "!!map"

end Pseudocode.Yaml
