/-
# Drafts of nodes

A draft holds the fields of a node as a document gives them, whatever the kind of the node.  A
child that a document leaves out, or gives as null, is absent.
-/
import Pseudocode.Number.Basic
import Pseudocode.Text.ByteString
import Pseudocode.Tree.Span

namespace Pseudocode.Document

/-- The fields of a node in a document. -/
structure Draft where
  /-- Where the node stands in the document. -/
  line : Int := 0
  column : Int := 0
  kind : ByteString := ""
  span : List Int := []
  name : String := ""
  op : ByteString := ""
  number : Option Number := none
  text : Option ByteString := none
  bool : Option Bool := none
  target : Option Draft := none
  value : Option Draft := none
  left : Option Draft := none
  right : Option Draft := none
  operand : Option Draft := none
  index : Option Draft := none
  count : Option Draft := none
  cond : Option Draft := none
  source : Option Draft := none
  items : List (Option Draft) := []
  args : List (Option Draft) := []
  body : List (Option Draft) := []
  params : List String := []
  branches : List (Option Draft) := []
deriving Inhabited

/-- A document: the drafts of its procedures and of its statements. -/
structure Outline where
  procedures : List (Option Draft) := []
  statements : List (Option Draft) := []
deriving Inhabited

end Pseudocode.Document
