/-
# From drafts to programs

A draft becomes a node if its kind is known and the fields this kind needs are there and become
nodes themselves; other fields are ignored.  The first thing found wrong is reported.  The main
definition is `Outline.toProgram`.
-/
import Pseudocode.Document.Draft
import Pseudocode.Document.Error
import Pseudocode.Tree.Node

namespace Pseudocode.Document

namespace Draft

/-- An error at a draft. -/
def error (d : Draft) (reason : Reason) : Error := ⟨d.line, d.column, reason⟩

/-- The location of a node: the one it gives, or its place in the document. -/
def location (d : Draft) : Except Error Span :=
  match d.span with
  | [] => .ok (.point d.line d.column)
  | [line, col] => .ok (.point line col)
  | [line, col, endLine, endCol] => .ok ⟨line, col, endLine, endCol⟩
  | ns => .error (d.error (.spanLength ns.length))

/-- The name of a node, which has to be there. -/
def ident (d : Draft) (span : Span) : Except Error Ident :=
  if d.name = "" then .error (d.error (.lacks d.kind.shown "a name")) else .ok ⟨span, d.name⟩

/-- The relation of a node, as it is written. -/
def relation (d : Draft) : Except Error String :=
  let op := d.op.shown
  if (Relation.ofText? op).isSome then .ok op else .error (d.error (.unknownRelation d.op))

/-- The constant of a node: the last of number, text and truth value that is there. -/
def literal? (d : Draft) : Option Literal :=
  d.bool.map Literal.bool <|> d.text.map Literal.text <|> d.number.map Literal.number

/-- How many of the four contents of an evaluation a draft has. -/
def contents (d : Draft) : Nat :=
  [d.number.isSome, d.text.isSome, d.bool.isSome, d.value.isSome].count true

/-- The kind of a draft, which has to be known. -/
def knownKind (d : Draft) : Except Error Kind :=
  match Kind.ofName? d.kind.shown with
  | some k => .ok k
  | none => .error (d.error (.unknownKind d.kind))

end Draft

/-- Whether a node can be assigned to. -/
def isTarget (n : Node) : Bool :=
  n.kind? == some .identifier || n.kind? == some .listElement

mutual

/-- A draft as a node of a kind. -/
def Draft.convert (d : Draft) (k : Kind) : Except Error Node := do
  let span ← d.location
  match k with
  | .pass => return .pass span
  | .assignment => do
      let target ← required d "a target" d.target
      if !isTarget target then
        throw ((d.target.getD d).error (.badTarget target.kindName))
      return .assignment span target (← required d "a value" d.value)
  | .eval => do
      let inner ← optional d.value
      if d.contents != 1 then throw (d.error .notOneContent)
      match d.literal? with
      | some l => return .literal span l
      | none => return .group span inner
  | .add | .sub | .mul | .div | .mod | .and | .or => do
      let left ← required d "a left operand" d.left
      return .binary span k left (← required d "a right operand" d.right)
  | .negate => return .negate span (← required d "an operand" d.operand)
  | .not => return .not span (← required d "an operand" d.operand)
  | .relation => do
      let op ← d.relation
      let left ← required d "a left operand" d.left
      return .relation span op left (← required d "a right operand" d.right)
  | .identifier => return .identifier span (← d.ident span).name
  | .listElement => do
      let list ← d.ident span
      return .element span (some list) (← required d "an index" d.index)
  | .list => return .list span (← nodes d.items)
  | .functionCall => do
      let callee ← d.ident span
      return .call span (some callee) (← nodes d.args)
  | .block => return .block (.of span (← nodes d.body))
  | .repeatTimes => do
      let count ← required d "a count" d.count
      return .repeatTimes span count (.of span (← nodes d.body))
  | .repeatUntil => do
      let cond ← required d "a condition" d.cond
      return .repeatUntil span cond (.of span (← nodes d.body))
  | .ifElse => do
      if d.branches.isEmpty then throw (d.error .noBranch)
      return .ifElse span (← arms d d.branches)
  | .forEach => do
      let var ← d.ident span
      let source ← required d "a source list" d.source
      return .forEach span (some var) source (.of span (← nodes d.body))
  | .return => return .return span (← optional d.value)
  | .procedure => do
      let name ← d.ident span
      let params := d.params.map fun p => some (⟨span, p⟩ : Ident)
      return .procedure (.of span (some name) params (.of span (← nodes d.body)))
  | .other _ => throw (d.error (.unsupportedKind d.kind))
termination_by sizeOf d
decreasing_by all_goals (cases d; simp +arith)

/-- A child that may be absent. -/
def optional (child : Option Draft) : Except Error Node :=
  match child with
  | none => return .missing
  | some d => do d.convert (← d.knownKind)
termination_by sizeOf child

/-- A child that has to be there. -/
def required (parent : Draft) (what : String) (child : Option Draft) : Except Error Node :=
  match child with
  | none => throw (parent.error (.lacks parent.kind.shown what))
  | some d => do d.convert (← d.knownKind)
termination_by sizeOf child

/-- The children in a list, none of which may be absent. -/
def nodes (children : List (Option Draft)) : Except Error (List Node) :=
  match children with
  | [] => return []
  | none :: _ => throw { reason := .emptyNode }
  | some d :: rest => do
      let n ← d.convert (← d.knownKind)
      return n :: (← nodes rest)
termination_by sizeOf children

/-- A branch of a conditional; only the last may have no condition. -/
def Draft.arm (d : Draft) (last : Bool) : Except Error Branch := do
  let span ← d.location
  let cond ← optional d.cond
  if cond.isMissing && !last then throw (d.error .elseNotLast)
  return .of cond (.of span (← nodes d.body))
termination_by sizeOf d
decreasing_by all_goals (cases d; simp +arith)

/-- The branches of a conditional. -/
def arms (parent : Draft) (branches : List (Option Draft)) : Except Error (List Branch) :=
  match branches with
  | [] => return []
  | none :: _ => throw (parent.error .emptyBranch)
  | some d :: rest => do
      let b ← d.arm rest.isEmpty
      return b :: (← arms parent rest)
termination_by sizeOf branches

end

/-- A draft as a procedure; its kind may be left out. -/
def Draft.toProcedure (d : Draft) : Except Error Procedure := do
  if !d.kind.isEmpty && Kind.ofName? d.kind.shown != some .procedure then
    throw (d.error (.notAProcedure d.kind))
  match ← d.convert .procedure with
  | .procedure p => return p
  | _ => throw (d.error (.notAProcedure d.kind))

/-- The program that a document describes: its procedures are converted first. -/
def Outline.toProgram (o : Outline) : Except Error Program := do
  let procedures ← o.procedures.mapM fun
    | none => throw { reason := .emptyProcedure }
    | some d => d.toProcedure
  return { procedures := procedures.map some, statements := ← nodes o.statements }

end Pseudocode.Document
