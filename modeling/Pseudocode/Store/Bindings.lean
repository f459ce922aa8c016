/-
# Bindings

Names and what is bound to them, kept in ascending order of the names, each name once.
-/

namespace Pseudocode

/-- Names with what is bound to them, ascending. -/
structure Bindings (α : Type) where
  entries : List (String × α) := []
deriving DecidableEq, Repr, Inhabited

namespace Bindings

variable {α : Type}

/-- No names at all. -/
def empty : Bindings α := {}

/-- What is bound to a name in a list of entries. -/
def find? (name : String) : List (String × α) → Option α
  | [] => none
  | (n, v) :: rest => if n = name then some v else find? name rest

/-- Binds a name in an ascending list of entries. -/
def place (name : String) (v : α) : List (String × α) → List (String × α)
  | [] => [(name, v)]
  | (n, w) :: rest =>
      if name = n then (name, v) :: rest
      else if name < n then (name, v) :: (n, w) :: rest
      else (n, w) :: place name v rest

def get? (b : Bindings α) (name : String) : Option α := find? name b.entries

def contains (b : Bindings α) (name : String) : Bool := (b.get? name).isSome

/-- Binds a name, replacing what it was bound to. -/
def insert (b : Bindings α) (name : String) (v : α) : Bindings α := ⟨place name v b.entries⟩

/-- The names, ascending. -/
def names (b : Bindings α) : List String := b.entries.map (·.1)

/-- Binds names in order; the last binding of a name wins. -/
def insertAll (b : Bindings α) (entries : List (String × α)) : Bindings α :=
  entries.foldl (fun b (n, v) => b.insert n v) b

end Bindings

end Pseudocode
