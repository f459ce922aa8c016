/-
# Why a document is no program

A document is refused with a line, a column and a reason.  Line and column are zero where they
are not known.
-/
import Pseudocode.Text.Quoted
import Pseudocode.Tree.Kind

namespace Pseudocode.Document

/-- Why a document is refused. -/
inductive Reason where
  | emptyProcedure
  | emptyNode
  | notAProcedure (kind : ByteString)
  | unknownKind (kind : ByteString)
  | unsupportedKind (kind : ByteString)
  | spanLength (count : Nat)
  /-- A node of a kind lacks something. -/
  | lacks (kind what : String)
  | badTarget (kind : String)
  | unknownRelation (op : ByteString)
  | notOneContent
  | noBranch
  | emptyBranch
  | elseNotLast
  | notAMapping
  | unknownField (name : String)
  /-- The text of the document cannot be read at all, or its fields have the wrong types. -/
  | unreadable (message : String)
deriving DecidableEq, Repr, Inhabited

/-- What a reason says. -/
def Reason.text : Reason → String
  | emptyProcedure => "empty procedure"
  | emptyNode => "empty node"
  | notAProcedure kind => "expected a procedure, got " ++ Text.quoteBytes kind
  | unknownKind kind => "unknown node kind " ++ Text.quoteBytes kind
  | unsupportedKind kind => "unsupported node kind " ++ Text.quoteBytes kind
  | spanLength count => "span needs 2 or 4 numbers, got " ++ toString count
  | lacks kind what => kind ++ " needs " ++ what
  | badTarget kind => "cannot assign to " ++ kind
  | unknownRelation op => "unknown relation " ++ Text.quoteBytes op
  | notOneContent => "eval needs exactly one of number, text, bool or value"
  | noBranch => "if needs at least one branch"
  | emptyBranch => "empty branch"
  | elseNotLast => "else must be the last branch"
  | notAMapping => "expected a node mapping"
  | unknownField name => "unknown field " ++ Text.quote name
  | unreadable message => message

/-- A reason and where it applies. -/
structure Error where
  line : Int := 0
  column : Int := 0
  reason : Reason
deriving DecidableEq, Repr, Inhabited

/-- What is wrong, without the place. -/
def Error.detail (e : Error) : String := e.reason.text

/-- What is wrong, and where. -/
def Error.message (e : Error) : String :=
  e.detail ++ " line: " ++ toString e.line ++ " column: " ++ toString e.column

end Pseudocode.Document
