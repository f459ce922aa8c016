/-
# Tables

The statements of a document build a table.  A header opens a table inside it; tables on the way
there are made as needed and may get a header of their own later.  A name may be given only once.
The main definition is `Table.ofText`.
-/
import Pseudocode.Toml.Grammar

namespace Pseudocode.Toml

mutual

/-- What a table holds under a name. -/
inductive Field where
  | value (v : Value) (line : Nat)
  | table (t : Table)
  /-- Several tables of one name; there is a first one, and `others` come after it. -/
  | tables (first : Table) (others : List Table)

/-- A table: its line, whether it has a header of its own, and its fields in the order in which
they were given. -/
inductive Table where
  | of (line : Nat) (headed : Bool) (fields : List (String × Field))

end

instance : Inhabited Table := ⟨.of 1 false []⟩
instance : Inhabited Field := ⟨.table default⟩

namespace Table

def line : Table → Nat
  | of l _ _ => l

def headed : Table → Bool
  | of _ h _ => h

def fields : Table → List (String × Field)
  | of _ _ fs => fs

def get? (t : Table) (name : String) : Option Field := t.fields.lookup name

/-- Sets a field: in its old place, or after all others. -/
def insert (t : Table) (name : String) (f : Field) : Table :=
  if (t.get? name).isSome then
    of t.line t.headed (t.fields.map fun e => if e.1 == name then (name, f) else e)
  else of t.line t.headed (t.fields ++ [(name, f)])

end Table

/-- The line where a field was given first. -/
def Field.line : Field → Nat
  | value _ l => l
  | table t => t.line
  | tables first _ => first.line

/-- What a field is for messages. -/
def Field.holder : Field → Holder
  | value .. => .value
  | table _ => .table
  | tables .. => .tables

namespace Table

/-- Changes the table that names lead to; tables that are missing on the way are made. -/
def updateAt (line : Nat) (change : Table → Except Error Table) :
    (path : List String) → Table → Except Error Table
  | [], t => change t
  | name :: rest, t => do
      match t.get? name with
      | none => return t.insert name (.table (← updateAt line change rest (of line false [])))
      | some (.table u) => return t.insert name (.table (← updateAt line change rest u))
      | some (.tables first others) =>
          match others.getLast? with
          | none => return t.insert name (.tables (← updateAt line change rest first) [])
          | some last => do
              let last ← updateAt line change rest last
              return t.insert name (.tables first (others.dropLast ++ [last]))
      | some (.value _ given) => throw ⟨line, .pathConflict name given⟩

/-- Opens the table of a name inside a table. -/
def openTable (headed : Bool) (written name : String) (line : Nat) (t : Table) :
    Except Error Table :=
  match t.get? name with
  | none => return t.insert name (.table (of line headed []))
  | some (.table u) =>
      if u.headed then throw ⟨line, .headerConflict false written .table u.line⟩
      else return t.insert name (.table (of line headed u.fields))
  | some f => throw ⟨line, .headerConflict false written f.holder f.line⟩

/-- Opens one more table of a name inside a table. -/
def openRepeated (headed : Bool) (written name : String) (line : Nat) (t : Table) :
    Except Error Table :=
  match t.get? name with
  | none => return t.insert name (.tables (of line headed []) [])
  | some (.tables first others) =>
      return t.insert name (.tables first (others ++ [of line headed []]))
  | some f => throw ⟨line, .headerConflict true written f.holder f.line⟩

/-- Gives a key a value inside a table. -/
def setValue (name : String) (v : Value) (line : Nat) (t : Table) : Except Error Table :=
  match t.get? name with
  | none => return t.insert name (.value v line)
  | some f => throw ⟨line, .keyConflict name f.holder f.line⟩

end Table

mutual

/-- Whether a value is a table or has one among its items.  Such a value becomes tables. -/
def Value.holdsTable : Value → Bool
  | .inline .. => true
  | .array items => anyHoldsTable items
  | _ => false

def anyHoldsTable : List Value → Bool
  | [] => false
  | v :: rest => v.holdsTable || anyHoldsTable rest

end

mutual

/-- Makes the tables that a value asks for; `repeated` tells that it stands in an array. -/
def Value.build (v : Value) (repeated : Bool) (path : List String) (name : String) (root : Table) :
    Except Error Table := do
  match v with
  | .text none line => throw ⟨line, .badEscape⟩
  | .array items => buildItems items path name root
  | .inline line entries =>
      let start := if repeated then Table.openRepeated else Table.openTable
      let root ← root.updateAt line (start false name name line) path
      buildEntries entries repeated (path ++ [name]) root
  | _ => return root
termination_by sizeOf v

def buildItems (items : List Value) (path : List String) (name : String) (root : Table) :
    Except Error Table := do
  match items with
  | [] => return root
  | v :: rest => buildItems rest path name (← v.build true path name root)
termination_by sizeOf items

/-- Adds an entry to the table that the path leads to. -/
def Entry.build (e : Entry) (repeated : Bool) (path : List String) (root : Table) :
    Except Error Table := do
  match e with
  | .of none keyLine _ _ => throw ⟨keyLine, .badEscape⟩
  | .of (some name) _ v line =>
      let root ← v.build repeated path name root
      if v.holdsTable then return root
      root.updateAt line (Table.setValue name v line) path
termination_by sizeOf e

def buildEntries (entries : List Entry) (repeated : Bool) (path : List String) (root : Table) :
    Except Error Table := do
  match entries with
  | [] => return root
  | e :: rest => buildEntries rest repeated path (← e.build repeated path root)
termination_by sizeOf entries

end

/-- Carries out statements; the path leads to the open table. -/
def runStatements : List Statement → (path : List String) → Table → Except Error Table
  | [], _, root => return root
  | .entry e :: rest, path, root => do runStatements rest path (← e.build false path root)
  | .header repeated keys written line :: rest, _, root => do
      match keys.mapM id with
      | none => throw ⟨line, .badEscape⟩
      | some names =>
          let start := if repeated then Table.openRepeated else Table.openTable
          let root ← root.updateAt line
            (start true written (names.getLast?.getD "") line) names.dropLast
          runStatements rest names root

/-- The table that a document describes. -/
def Table.ofText (text : String) : Except Error Table := do
  runStatements (← statements text) [] default

end Pseudocode.Toml
