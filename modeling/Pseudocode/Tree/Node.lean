/-
# Program trees

A program is a list of statements and a list of procedures.  Trees may come from anywhere, so
every child may be absent; running such a tree reports what is missing.
-/
import Pseudocode.Tree.Span
import Pseudocode.Tree.Kind
import Pseudocode.Number.Basic
import Pseudocode.Text.ByteString

namespace Pseudocode

/-- An occurrence of a name. -/
structure Ident where
  span : Span
  name : String
deriving DecidableEq, Repr, Inhabited

/-- A constant written in the program; `unsupported` is one of a kind that has no value. -/
inductive Literal where
  | number (value : Number)
  | bool (value : Bool)
  | text (value : ByteString)
  | unsupported (kind : Int)
deriving DecidableEq, Repr, Inhabited

mutual

/-- A statement or an expression. -/
inductive Node where
  /-- An absent child. -/
  | missing
  | pass (span : Span)
  | assignment (span : Span) (target value : Node)
  /-- An evaluation of a constant. -/
  | literal (span : Span) (value : Literal)
  /-- An evaluation of a nested expression. -/
  | group (span : Span) (inner : Node)
  | binary (span : Span) (op : Kind) (left right : Node)
  | negate (span : Span) (operand : Node)
  | not (span : Span) (operand : Node)
  | relation (span : Span) (op : String) (left right : Node)
  | identifier (span : Span) (name : String)
  /-- `list[index]`, counted from one. -/
  | element (span : Span) (list : Option Ident) (index : Node)
  | list (span : Span) (items : List Node)
  | call (span : Span) (callee : Option Ident) (args : List Node)
  | block (body : Block)
  | repeatTimes (span : Span) (count : Node) (body : Block)
  | repeatUntil (span : Span) (cond : Node) (body : Block)
  | ifElse (span : Span) (branches : List Branch)
  | forEach (span : Span) (var : Option Ident) (source : Node) (body : Block)
  /-- A return; its value may be absent. -/
  | return (span : Span) (value : Node)
  | procedure (decl : Procedure)

/-- A sequence of statements, or an absent one. -/
inductive Block where
  | missing
  | of (span : Span) (statements : List Node)

/-- One arm of a conditional; an absent condition is the else arm. -/
inductive Branch where
  | of (cond : Node) (body : Block)

/-- The declaration of a procedure. -/
inductive Procedure where
  | of (span : Span) (name : Option Ident) (params : List (Option Ident)) (body : Block)

end

instance : Inhabited Node := ⟨.missing⟩
instance : Inhabited Block := ⟨.missing⟩
instance : Inhabited Branch := ⟨.of .missing .missing⟩
instance : Inhabited Procedure := ⟨.of .none none [] .missing⟩

namespace Block

def span : Block → Span
  | .missing => .none
  | .of s _ => s

def statements : Block → List Node
  | .missing => []
  | .of _ ss => ss

end Block

namespace Branch

def cond : Branch → Node
  | .of c _ => c

def body : Branch → Block
  | .of _ b => b

end Branch

namespace Procedure

def span : Procedure → Span
  | .of s _ _ _ => s

def name : Procedure → Option Ident
  | .of _ n _ _ => n

def params : Procedure → List (Option Ident)
  | .of _ _ ps _ => ps

def body : Procedure → Block
  | .of _ _ _ b => b

end Procedure

namespace Node

/-- The location of a node; an absent one has none. -/
def span : Node → Span
  | .missing => .none
  | .pass s => s
  | .assignment s _ _ => s
  | .literal s _ => s
  | .group s _ => s
  | .binary s _ _ _ => s
  | .negate s _ => s
  | .not s _ => s
  | .relation s _ _ _ => s
  | .identifier s _ => s
  | .element s _ _ => s
  | .list s _ => s
  | .call s _ _ => s
  | .block b => b.span
  | .repeatTimes s _ _ => s
  | .repeatUntil s _ _ => s
  | .ifElse s _ => s
  | .forEach s _ _ _ => s
  | .return s _ => s
  | .procedure p => p.span

/-- The kind of a node that is present. -/
def kind? : Node → Option Kind
  | .missing => none
  | .pass _ => some .pass
  | .assignment _ _ _ => some .assignment
  | .literal _ _ => some .eval
  | .group _ _ => some .eval
  | .binary _ op _ _ => some op
  | .negate _ _ => some .negate
  | .not _ _ => some .not
  | .relation _ _ _ _ => some .relation
  | .identifier _ _ => some .identifier
  | .element _ _ _ => some .listElement
  | .list _ _ => some .list
  | .call _ _ _ => some .functionCall
  | .block _ => some .block
  | .repeatTimes _ _ _ => some .repeatTimes
  | .repeatUntil _ _ _ => some .repeatUntil
  | .ifElse _ _ => some .ifElse
  | .forEach _ _ _ _ => some .forEach
  | .return _ _ => some .return
  | .procedure _ => some .procedure

/-- What a node is called in a message. -/
def kindName (n : Node) : String :=
  match n.kind? with
  | some k => k.name
  | none => "nothing"

def isMissing : Node → Bool
  | .missing => true
  | _ => false

end Node

/-- A relation between two values. -/
inductive Relation where
  | eq | ne | lt | le | gt | ge
deriving DecidableEq, Repr, Inhabited

/-- The relation an operator text stands for. -/
def Relation.ofText? : String → Option Relation
  | "==" => some .eq
  | "!=" => some .ne
  | "<" => some .lt
  | "<=" => some .le
  | ">" => some .gt
  | ">=" => some .ge
  | _ => none

/-- A program: statements run in order, and procedures they can call. -/
structure Program where
  statements : List Node := []
  procedures : List (Option Procedure) := []
deriving Inhabited

end Pseudocode
