/-
# Reading a configuration

A configuration text sets fields of the two tables; a field that it does not set keeps its value.
Every table and field has to be known, and a value has to fit its field.
-/
import Pseudocode.Config.Basic
import Pseudocode.Number.Integer
import Pseudocode.Number.Reading
import Pseudocode.Text.Quoted
import Pseudocode.Toml.Datetime
import Pseudocode.Toml.Table

namespace Pseudocode.Config

/-- Why a configuration text is refused. -/
inductive Refusal where
  | toml (p : Toml.Problem)
  | unknownField (name owner : String)
  /-- A value of the wrong sort; `need` names the sort that could hold it, if there is one. -/
  | wrongType (sort wanted need : String)
  | outOfRange (digits wanted : String)
  /-- A number that is too large to be a float of any sort. -/
  | notFinite (written : String)
  | badTime (text : String)
deriving DecidableEq, Repr, Inhabited

def Refusal.text : Refusal → String
  | toml p => p.text
  | unknownField name owner => "field '" ++ name ++ "' is not defined in " ++ owner
  | wrongType sort wanted need =>
      "cannot unmarshal TOML " ++ sort ++ " into " ++ wanted
        ++ (if need = "" then "" else " (need " ++ need ++ ")")
  | outOfRange digits wanted => "value " ++ digits ++ " is out of range for " ++ wanted
  | notFinite written =>
      "strconv.ParseFloat: parsing " ++ Text.quote written ++ ": value out of range"
  | badTime text => text

/-- A refusal with its line and, where it is a value that is refused, the field. -/
structure Error where
  line : Nat
  field : String := ""
  refusal : Refusal
deriving DecidableEq, Repr, Inhabited

def Error.message (e : Error) : String :=
  "line " ++ toString e.line ++ ": " ++ (if e.field = "" then "" else "(" ++ e.field ++ ") ")
    ++ e.refusal.text

/-- The refusal of a value that has the wrong sort. -/
def unfit (v : Toml.Value) (wanted : String) : Refusal :=
  match v with
  | .integer _ => .wrongType "integer" wanted ""
  | .float written =>
      if (Number.read? written.toList).isNone then .notFinite written
      else .wrongType "float" wanted ""
  | .text .. => .wrongType "string" wanted ""
  | .bool _ => .wrongType "boolean" wanted ""
  | .datetime written =>
      match Toml.Datetime.problem? written with
      | some text => .badTime text
      | none => .wrongType "datetime" wanted ""
  | .array _ => .wrongType "array" wanted "slice"
  | .inline .. => .wrongType "table" wanted "struct or map"

/-- A field that holds a single value, read by `read`. -/
def readField {α : Type} (owner name wanted : String)
    (read : Toml.Value → Except Refusal α) (f : Toml.Field) : Except Error α :=
  let field := owner ++ "." ++ name
  match f with
  | .value v line => (read v).mapError fun refusal => { line, field, refusal }
  | .table t => .error { line := t.line, refusal := .wrongType "table" wanted "struct or map" }
  | .tables first _ =>
      .error { line := first.line, field, refusal := .wrongType "array table" wanted "slice" }

def readBool (v : Toml.Value) : Except Refusal Bool :=
  match v with
  | .bool b => .ok b
  | v => .error (unfit v "bool")

def readInt (wanted : String) (v : Toml.Value) : Except Refusal Int :=
  match v with
  | .integer digits =>
      match Number.intInRadix? 10 digits.toList with
      | some i => if Number.fitsInt64 i then .ok i else .error (.outOfRange digits wanted)
      | none => .error (.outOfRange digits wanted)
  | v => .error (unfit v wanted)

/-- Sets a field of the run options. -/
def RunOptions.setField (o : RunOptions) (name : String) (f : Toml.Field) :
    Except Error RunOptions := do
  let owner := "config.RunConfig"
  let int (wanted : String) : Except Error Int := readField owner name wanted (readInt wanted) f
  match name with
  | "Step" => return { o with step := ← readField owner name "bool" readBool f }
  | "Speed" => return { o with speed := ← int "int" }
  | "MaxSteps" => return { o with maxSteps := ← int "int" }
  | "MaxDepth" => return { o with maxDepth := ← int "int" }
  | "Seed" => return { o with seed := ← int "int64" }
  | _ => throw { line := f.line, refusal := .unknownField name owner }

/-- Sets a field of the log options. -/
def LogOptions.setField (o : LogOptions) (name : String) (f : Toml.Field) :
    Except Error LogOptions := do
  let owner := "config.LogConfig"
  let bool : Except Error Bool := readField owner name "bool" readBool f
  match name with
  | "Verbose" => return { o with verbose := ← bool }
  | "NoColor" => return { o with noColor := ← bool }
  | _ => throw { line := f.line, refusal := .unknownField name owner }

/-- A field that has to be a table, with its fields set one after the other. -/
def readTable {α : Type} (name wanted : String) (set : α → String → Toml.Field → Except Error α)
    (old : α) (f : Toml.Field) : Except Error α :=
  let field := "config.Config." ++ name
  match f with
  | .table t => t.fields.foldlM (fun o (name, f) => set o name f) old
  | .value v line => .error { line, field, refusal := unfit v wanted }
  | .tables first _ =>
      .error { line := first.line, field, refusal := .wrongType "array table" wanted "slice" }

/-- Sets one of the two tables. -/
def setTable (c : Config) (name : String) (f : Toml.Field) : Except Error Config := do
  match name with
  | "Run" =>
      return { c with run := ← readTable name "config.RunConfig" RunOptions.setField c.run f }
  | "Logging" =>
      return { c with
        logging := ← readTable name "config.LogConfig" LogOptions.setField c.logging f }
  | _ => throw { line := f.line, refusal := .unknownField name "config.Config" }

/-- The configuration that a text describes, on top of the standard one. -/
def ofText (text : String) : Except Error Config := do
  match Toml.Table.ofText text with
  | .error e => throw { line := e.line, refusal := .toml e.problem }
  | .ok t => t.fields.foldlM (fun c (name, f) => setTable c name f) standard

/-- Why a configuration file cannot be used. -/
inductive LoadError where
  | missing (file : String)
  | refused (file : String) (e : Error)
deriving DecidableEq, Repr, Inhabited

def LoadError.message : LoadError → String
  | missing file => "open " ++ file ++ ": no such file or directory"
  | refused file e => file ++ ", " ++ e.message

/-- The configuration in a file, of which the text is given if there is such a file. -/
def load (file : String) (text? : Option String) : Except LoadError Config :=
  match text? with
  | none => .error (.missing file)
  | some text => (ofText text).mapError (.refused file)

end Pseudocode.Config
