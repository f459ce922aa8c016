/-
# Kinds of nodes

Every node of a program tree has a kind, which has a name and a number.
-/

namespace Pseudocode

/-- The kind of a node.  `other` keeps a number that is no kind, for trees that carry one as
an operator. -/
inductive Kind where
  | pass
  | assignment
  | eval
  | add
  | sub
  | mul
  | div
  | mod
  | and
  | or
  | negate
  | not
  | relation
  | identifier
  | listElement
  | list
  | functionCall
  | block
  | repeatTimes
  | repeatUntil
  | ifElse
  | forEach
  | return
  | procedure
  | other (code : Int)
deriving DecidableEq, Repr, Inhabited

namespace Kind

/-- The kinds in the order of their numbers. -/
def all : List Kind :=
  [pass, assignment, eval, add, sub, mul, div, mod, and, or, negate, not, relation, identifier,
   listElement, list, functionCall, block, repeatTimes, repeatUntil, ifElse, forEach, .return,
   procedure]

/-- The number of a kind. -/
def code : Kind → Int
  | other n => n
  | k => all.idxOf k

/-- The kind of a number. -/
def ofCode (n : Int) : Kind :=
  if n < 0 then other n else (all[n.toNat]?).getD (other n)

def name : Kind → String
  | pass => "pass"
  | assignment => "assignment"
  | eval => "eval"
  | add => "add"
  | sub => "sub"
  | mul => "mul"
  | div => "div"
  | mod => "mod"
  | and => "AND"
  | or => "OR"
  | negate => "negate"
  | not => "NOT"
  | relation => "relation"
  | identifier => "identifier"
  | listElement => "listelement"
  | list => "list"
  | functionCall => "function_call"
  | block => "block"
  | repeatTimes => "repeat_times"
  | repeatUntil => "repeat_until"
  | ifElse => "if"
  | forEach => "foreach"
  | .return => "return"
  | procedure => "procedure"
  | other n => "kind(" ++ toString n ++ ")"

/-- The representative of a character among those that differ from it only in case.  Besides
the ASCII letters, two more characters have an ASCII letter as another case: the Kelvin sign
and the long s. -/
def foldChar (c : Char) : Char :=
  if c.toNat = 0x212A then 'k' else if c.toNat = 0x17F then 's' else c.toLower

/-- Whether a text is an ASCII name up to case. -/
def sameName (name text : String) : Bool :=
  name.toList.map foldChar == text.toList.map foldChar

/-- The kind with a name, ignoring case. -/
def ofName? (text : String) : Option Kind := all.find? fun k => sameName k.name text

/-- Whether a kind is one of the operators with two operands. -/
def isBinary (k : Kind) : Bool := 3 ≤ k.code && k.code ≤ 9

end Kind

end Pseudocode
