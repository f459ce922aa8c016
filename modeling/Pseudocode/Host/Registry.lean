/-
# Functions and plugins

A run has one namespace of functions, filled by plugins of the host and then by the procedures
of the program; a later entry replaces an earlier one of the same name.
-/
import Pseudocode.Host.Action
import Pseudocode.Tree.Node
import Pseudocode.Value.Clone

namespace Pseudocode

/-- A function that can be called. -/
inductive Function where
  /-- A function of the host; a negative arity accepts any number of arguments. -/
  | host (arity : Int) (body : Native)
  /-- A procedure of the program. -/
  | declared (params : List String) (body : Block)

/-- The number of arguments a function takes; negative if any number. -/
def Function.arity : Function → Int
  | .host arity _ => arity
  | .declared params _ => params.length

/-- The functions of a run by name. -/
abbrev Registry := Bindings Function

/-- Functions and variables that the host provides. -/
structure Plugin where
  name : String := ""
  functions : List (String × Native) := []
  vars : List (String × Value) := []

namespace Plugin

/-- Adds the functions of plugins; they take any number of arguments. -/
def addFunctions (plugins : List Plugin) (r : Registry) : Registry :=
  plugins.foldl (fun r p => r.insertAll (p.functions.map fun (n, f) => (n, .host (-1) f))) r

/-- Binds a copy of a variable in the global frame. -/
def bindCopy (state : Store × Heap) (var : String × Value) : Store × Heap :=
  let (v, heap) := state.2.clone var.2
  (state.1.bindGlobal var.1 v, heap)

/-- Binds copies of the variables of plugins in the global frame. -/
def addVars (plugins : List Plugin) (state : Store × Heap) : Store × Heap :=
  plugins.foldl (fun state p => p.vars.foldl bindCopy state) state

end Plugin

/-- The parameter names of a procedure, if every one is present. -/
def paramNames? (params : List (Option Ident)) : Option (List String) :=
  params.mapM fun p => p.map (·.name)

namespace Registry

/-- Adds a procedure of the program, which must be complete. -/
def declare (r : Registry) : Option Procedure → Except Fault Registry
  | none =>
      .error { kind := .invalidOperation, detail := "missing procedure declaration" }
  | some (.of span (some name) params (.of bodySpan statements)) =>
      match paramNames? params with
      | some names => .ok (Bindings.insert r name.name (.declared names (.of bodySpan statements)))
      | none =>
          .error { kind := .invalidOperation, span,
                   detail := "malformed parameter list for " ++ name.name }
  | some p =>
      .error { kind := .invalidOperation, span := p.span,
               detail := "malformed procedure declaration" }

/-- Adds the procedures of a program in order. -/
def declareAll (r : Registry) (procedures : List (Option Procedure)) : Except Fault Registry :=
  procedures.foldlM declare r

end Registry

/-- A word of the language or of the host that an editor can insert. -/
structure Keyword where
  name : String
  template : String
deriving DecidableEq, Repr, Inhabited

namespace Keyword

/-- The braces of an empty body. -/
def emptyBody : String := "\n\x7b\n\n\x7d"

/-- The words of the language itself. -/
def language : List Keyword :=
  [⟨"<-", "<-"⟩,
   ⟨"IF", "IF ( )" ++ emptyBody⟩,
   ⟨"ELSE", "ELSE" ++ emptyBody⟩,
   ⟨"NOT", "NOT"⟩,
   ⟨"AND", "AND"⟩,
   ⟨"OR", "OR"⟩,
   ⟨"REPEAT TIMES", "REPEAT _ TIMES" ++ emptyBody⟩,
   ⟨"REPEAT UNTIL", "REPEAT UNTIL ( )" ++ emptyBody⟩,
   ⟨"FOR EACH", "FOR EACH item IN list" ++ emptyBody⟩,
   ⟨"PROCEDURE", "PROCEDURE name ( )" ++ emptyBody⟩]

/-- Names in ascending order, each once. -/
def sortedNames (names : List String) : List String :=
  ((Bindings.empty : Bindings Unit).insertAll (names.map fun n => (n, ()))).names

/-- The words of the language, then every function and then every variable of the plugins,
each group ascending. -/
def ofPlugins (plugins : List Plugin) : List Keyword :=
  let functions := sortedNames (plugins.flatMap fun p => p.functions.map (·.1))
  let vars := sortedNames (plugins.flatMap fun p => p.vars.map (·.1))
  language ++ functions.map (fun n => ⟨n ++ "()", n ++ "()"⟩) ++ vars.map fun n => ⟨n, n⟩

end Keyword

end Pseudocode
