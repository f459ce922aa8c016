/-
# Operators

Arithmetic, logic and comparison of values.  Operands are taken by their numeric reading or by
whether they count as true; adding to a text joins texts, and two texts compare in dictionary
order.  Lists and nothing are only ever equal to themselves.
-/
import Pseudocode.Tree.Node
import Pseudocode.Value.Render

namespace Pseudocode

namespace Relation

/-- Whether a relation holds of two things that compare as given. -/
def holds (op : Relation) (c : Ordering) : Bool :=
  match op with
  | eq => c == .eq
  | ne => c != .eq
  | lt => c == .lt
  | le => c != .gt
  | gt => c == .gt
  | ge => c != .lt

/-- A relation between numbers.  Nothing but "differs" holds of a thing that is not a number. -/
def holdsNumber (op : Relation) (a b : Number) : Bool :=
  match a.compare? b with
  | some c => op.holds c
  | none => op == ne

/-- A relation between things that can only be the same or not. -/
def holdsIdentity (op : Relation) (same : Bool) : Bool :=
  match op with
  | eq => same
  | ne => !same
  | _ => false

end Relation

namespace Value

/-- A relation between values. -/
def relate (op : Relation) (a b : Value) : Bool :=
  match a, b with
  | list i, list j => op.holdsIdentity (i == j)
  | nothing, nothing => op.holdsIdentity true
  | list _, _ => op.holdsIdentity false
  | _, list _ => op.holdsIdentity false
  | nothing, _ => op.holdsIdentity false
  | _, nothing => op.holdsIdentity false
  | text s, text t => op.holds (compare s t)
  | a, b => op.holdsNumber a.asNumber b.asNumber

/-- The result of a binary operator, `none` if the kind is no operator. -/
def operate? (h : Heap) (op : Kind) (a b : Value) : Option Value :=
  match op with
  | .add =>
      if a.isText || b.isText then some (text (h.display a ++ h.display b))
      else some (number (a.asNumber.add b.asNumber))
  | .sub => some (number (a.asNumber.sub b.asNumber))
  | .mul => some (number (a.asNumber.mul b.asNumber))
  | .div => some (number (a.asNumber.div b.asNumber))
  | .mod => some (number (a.asNumber.mod b.asNumber))
  | .and => some (bool (a.truthy && b.truthy))
  | .or => some (bool (a.truthy || b.truthy))
  | _ => none

/-- The value of a constant, or the number of the kind that has none. -/
def ofLiteral : Literal → Except Int Value
  | .number n => .ok (number n)
  | .bool b => .ok (bool b)
  | .text s => .ok (text s)
  | .unsupported k => .error k

end Value

/-- A position in a list, counted from one, if a value reads as one between one and `limit`;
the result is counted from zero. -/
def Value.position? (v : Value) (limit : Nat) : Option Nat :=
  match v.asNumber with
  | .finite false m e _ =>
      let i := Number.integerPart m e
      if Number.isIntegral m e && 1 ≤ i && i ≤ limit then some (i - 1) else none
  | _ => none

end Pseudocode
