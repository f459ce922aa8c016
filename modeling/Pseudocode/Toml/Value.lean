/-
# TOML documents

A document is a list of statements: headers, which open a table, and entries, which give a key of
the open table a value.  Statements remember the line they stand on, for messages.
-/

namespace Pseudocode.Toml

mutual

/-- A value as it is written. -/
inductive Value where
  /-- A whole number: a sign and digits. -/
  | integer (digits : String)
  /-- A number with a fraction or an exponent, as it is written but for underscores. -/
  | float (written : String)
  /-- A string; it has no content if an escape in it stands for no character. -/
  | text (content : Option String) (line : Nat)
  | bool (b : Bool)
  /-- A date, a time of day or both. -/
  | datetime (written : String)
  | array (items : List Value)
  /-- A table written as a value; the line is that of its opening brace. -/
  | inline (line : Nat) (entries : List Entry)

/-- A key and its value, with the lines where they end.  A key has no text if an escape in it
stands for no character. -/
inductive Entry where
  | of (key : Option String) (keyLine : Nat) (value : Value) (line : Nat)

end

instance : Inhabited Value := ⟨.bool false⟩
instance : Inhabited Entry := ⟨.of none 0 default 0⟩

/-- A part of a document. -/
inductive Statement where
  /-- A header: the keys that lead to the table, and how they are written.  `repeated` marks the
  header of one of several tables of the same name. -/
  | header (repeated : Bool) (keys : List (Option String)) (written : String) (line : Nat)
  | entry (e : Entry)
deriving Inhabited

/-- What a name already stands for. -/
inductive Holder where
  | table | tables | value
deriving DecidableEq, Repr, Inhabited

/-- What can be wrong with a document. -/
inductive Problem where
  | grammar
  | badEscape
  /-- A header names something that is there already. -/
  | headerConflict (repeated : Bool) (name : String) (holder : Holder) (line : Nat)
  /-- A key is there already. -/
  | keyConflict (name : String) (holder : Holder) (line : Nat)
  /-- A key on the way to a table is no table. -/
  | pathConflict (name : String) (line : Nat)
deriving DecidableEq, Repr, Inhabited

/-- A name between the quotation marks of messages. -/
def quoteName (name : String) : String := "\x60" ++ name ++ "\x27"

/-- The message of a problem. -/
def Problem.text : Problem → String
  | grammar => "invalid TOML syntax"
  | badEscape => "invalid syntax"
  | headerConflict repeated name holder line =>
      (if repeated then "array table " else "table ") ++ quoteName name ++ " is in conflict with "
        ++ (match holder with
            | .table => "table in line "
            | .tables => "array table in line "
            | .value => "line ")
        ++ toString line
  | keyConflict name holder line =>
      match holder with
      | .table => "key " ++ quoteName name ++ " is in conflict with table in line " ++ toString line
      | .value =>
          "key " ++ quoteName name ++ " is in conflict with line "
            ++ String.ofList (Nat.toDigits 16 line) ++ "d"
      | .tables =>
          "BUG: key " ++ quoteName name ++ " is in conflict but it\x27s unknown type "
            ++ quoteName "[]*ast.Table"
  | pathConflict name line =>
      "key " ++ quoteName name ++ " is in conflict with line " ++ toString line

/-- A problem and its line. -/
structure Error where
  line : Nat
  problem : Problem
deriving DecidableEq, Repr, Inhabited

end Pseudocode.Toml
