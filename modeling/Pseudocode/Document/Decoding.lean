/-
# Reading drafts from a YAML document

The root of a document is a mapping with the lists of procedures and statements, and each of
their entries is a mapping with the fields of a node.  Fields of the wrong type are collected;
a node that is no mapping or has an unknown field ends the reading at once, and so does a large
document that consists of aliases almost entirely.  The main definitions are `Outline.ofYaml` and
`parse`.
-/
import Pseudocode.Document.Conversion
import Pseudocode.Document.Mismatch
import Pseudocode.Text.Base64
import Pseudocode.Yaml.Reading

namespace Pseudocode.Document

/-- What ends the reading of a document at once. -/
inductive Halt where
  /-- The document is refused at a place. -/
  | refused (e : Error)
  /-- The text is no YAML, or a scalar does not fit its tag. -/
  | broken (e : Yaml.Error)
deriving Repr, Inhabited

/-- How far the reading has come: the mismatches, how many nodes were visited and how many of
these through an alias, and how many aliases lead to the node being read. -/
structure Progress where
  mismatches : List Mismatch := []
  visited : Nat := 0
  repeated : Nat := 0
  depth : Nat := 0
deriving Repr, Inhabited

/-- Whether too many of the nodes that were visited are repetitions.  Up to 400000 nodes the limit
is 99 of 100; it falls evenly to 10 of 100 at four million nodes, and stays there. -/
def Progress.isExcessive (p : Progress) : Bool :=
  let n := p.visited
  100 < p.repeated && 1000 < n &&
    if n ≤ 400000 then 99 * n < 100 * p.repeated
    else if 4000000 ≤ n then n < 10 * p.repeated
    else n * (99 * 3600000 - 89 * (n - 400000)) < 360000000 * p.repeated

/-- Reading parts of a document: keeps track of the progress, and can end at once. -/
abbrev Decode := StateT Progress (Except Halt)

namespace Decode

/-- Reports mismatches. -/
def report (ms : List Mismatch) : Decode Unit :=
  modify fun p => { p with mismatches := p.mismatches ++ ms }

/-- Reports a mismatch, and gives nothing. -/
def mismatch {α : Type} (n : Yaml.Node) (wanted : FieldType) : Decode (Option α) := do
  report [.ofNode n wanted]
  return none

def halt {α : Type} (h : Halt) : Decode α := throw h

/-- Counts a node that is about to be read. -/
def visit : Decode Unit := do
  let p ← get
  let p :=
    { p with visited := p.visited + 1, repeated := p.repeated + (if p.depth == 0 then 0 else 1) }
  if p.isExcessive then halt (.broken { problem := "document contains excessive aliasing" })
  set p

/-- Reads what an alias stands for. -/
def inside {α : Type} (read : Decode α) : Decode α := do
  modify fun p => { p with depth := p.depth + 1 }
  let a ← read
  modify fun p => { p with depth := p.depth - 1 }
  return a

/-- Visits a node and reads it; of an alias, what it stands for. -/
def visiting {α : Type} (read : Yaml.Node → Decode α) : Yaml.Node → Decode α
  | .reference _ _ target => do
      visit
      inside (visiting read target)
  | n => do
      visit
      read n

/-- Reads a part with counts of its own.  The result is `none` if there are mismatches in it. -/
def separately {α : Type} (read : Decode α) : Decode (Option α) := do
  let outer ← get
  set ({} : Progress)
  let a ← read
  let inner ← get
  set { outer with mismatches := outer.mismatches ++ inner.mismatches }
  return if inner.mismatches.isEmpty then some a else none

/-- The meaning of a scalar under its tag. -/
def meaning (tag text : String) : Decode Yaml.Meaning := do
  if tag == Yaml.tagBinary then
    match Text.base64? text with
    | some data => return .binary data
    | none => halt (.broken { problem := "!!binary value contains invalid base64 data" })
  match Yaml.Meaning.ofTagged tag text with
  | .ok (_, m) => return m
  | .error e => halt (.broken e)

/-- Reports the keys of a mapping that occur twice; tells whether there are any. -/
def repeatedKeys (entries : List (Yaml.Node × Yaml.Node)) : Decode Bool := do
  let ms := Mismatch.ofKeys (entries.map (·.1))
  report ms
  return !ms.isEmpty

/-- A collection where none is wanted. -/
def unwanted {α : Type} (n : Yaml.Node) (wanted : FieldType) : Decode (Option α) := do
  match n with
  | .mapping _ _ entries =>
      if ← repeatedKeys entries then return none
      mismatch n wanted
  | n => mismatch n wanted

/-- A scalar that has been visited, read by `read`, which gives nothing for a meaning of the wrong
type.  The result is `none` if there is no value; the inner `none` is a null. -/
def scalarHere {α : Type} (wanted : FieldType) (read : String → Yaml.Meaning → Option α)
    (n : Yaml.Node) : Decode (Option (Option α)) := do
  match n with
  | .scalar _ tag text => do
      match ← meaning tag text with
      | .null => return some none
      | m =>
          match read text m with
          | some a => return some (some a)
          | none => mismatch n wanted.present
  | n => unwanted n (if n.tag == Yaml.tagNull then wanted else wanted.present)

/-- A scalar; the result is as for `scalarHere`. -/
def scalar {α : Type} (wanted : FieldType) (read : String → Yaml.Meaning → Option α) :
    Yaml.Node → Decode (Option (Option α)) :=
  visiting (scalarHere wanted read)

/-- Any scalar as a text that programs handle: as it is written, except for binary data. -/
def bytesOf (written : String) : Yaml.Meaning → Option ByteString
  | .binary data => some data
  | _ => some written

/-- Any scalar as a string: as it is written, except for binary data. -/
def textOf (written : String) : Yaml.Meaning → Option String
  | .binary data => some data.shown
  | _ => some written

/-- A whole number; a fraction is cut off. -/
def intOf (_ : String) : Yaml.Meaning → Option Int
  | .int i => if i ≤ Number.maxInt64 then some i else none
  | .float x => if x.le (Number.ofInt Number.maxInt64) then some x.toInt64 else none
  | _ => none

def numberOf (_ : String) : Yaml.Meaning → Option Number
  | .int i => some (Number.ofInt i)
  | .float x => some x
  | _ => none

/-- The truth value that a word stands for. -/
def truthWord? (s : String) : Option Bool :=
  if ["y", "Y", "yes", "Yes", "YES", "on", "On", "ON"].contains s then some true
  else if ["n", "N", "no", "No", "NO", "off", "Off", "OFF"].contains s then some false
  else none

/-- A truth value, or one of the words that stand for one. -/
def boolOf (_ : String) : Yaml.Meaning → Option Bool
  | .bool b => some b
  | .text s => truthWord? s
  | .binary data => truthWord? data.shown
  | _ => none

/-- A field; a null or a wrong value leaves it as it is. -/
def field {α : Type} (wanted : FieldType) (read : String → Yaml.Meaning → Option α) (old : α)
    (n : Yaml.Node) : Decode α := do
  match ← scalar wanted read n with
  | some (some a) => return a
  | _ => return old

/-- A field that may be absent; a null makes it so. -/
def optionalField {α : Type} (wanted : FieldType) (read : String → Yaml.Meaning → Option α)
    (n : Yaml.Node) : Decode (Option α) := do
  return (← scalar wanted read n).join

/-- A node that has been visited and cannot have the type wanted; a null is no mismatch. -/
def nullOnly (n : Yaml.Node) (wanted : FieldType) : Decode Unit := do
  let refuse (_ : String) (_ : Yaml.Meaning) : Option Unit := none
  let _ ← scalarHere wanted refuse n

/-- A list of scalars; nulls and wrong values are left out. -/
def listField {α : Type} (list wanted : FieldType) (read : String → Yaml.Meaning → Option α) :
    Yaml.Node → Decode (List α) :=
  visiting fun n =>
    match n with
    | .sequence _ _ items => do
        let values ← items.mapM (scalar wanted read)
        return values.filterMap Option.join
    | n => do
        nullOnly n list
        return []

end Decode

open Decode

/-- The fields that a node may have. -/
def fieldNames : List String :=
  ["kind", "span", "name", "op", "number", "text", "bool", "target", "value", "left", "right",
   "operand", "index", "count", "cond", "source", "items", "args", "body", "params", "branches"]

/-- Sets a field of a draft from a node of the document, of which `child` is the reading as a
node and `children` that as a list of nodes. -/
def Draft.setField (d : Draft) (name : String) (n : Yaml.Node)
    (child : Decode (Option (Option Draft))) (children : Decode (List (Option Draft))) :
    Decode Draft :=
  match name with
  | "kind" => return { d with kind := ← field .text bytesOf d.kind n }
  | "span" => return { d with span := ← listField .ints .int intOf n }
  | "name" => return { d with name := ← field .text textOf d.name n }
  | "op" => return { d with op := ← field .text bytesOf d.op n }
  | "number" => return { d with number := ← optionalField (.optional .number) numberOf n }
  | "text" => return { d with text := ← optionalField (.optional .text) bytesOf n }
  | "bool" => return { d with bool := ← optionalField (.optional .bool) boolOf n }
  | "target" => return { d with target := (← child).join }
  | "value" => return { d with value := (← child).join }
  | "left" => return { d with left := (← child).join }
  | "right" => return { d with right := (← child).join }
  | "operand" => return { d with operand := (← child).join }
  | "index" => return { d with index := (← child).join }
  | "count" => return { d with count := (← child).join }
  | "cond" => return { d with cond := (← child).join }
  | "source" => return { d with source := (← child).join }
  | "items" => return { d with items := ← children }
  | "args" => return { d with args := ← children }
  | "body" => return { d with body := ← children }
  | "params" => return { d with params := ← listField .texts .text textOf n }
  | "branches" => return { d with branches := ← children }
  | _ => return d

/-- Refuses a node at a place. -/
def refuse {α : Type} (place : Yaml.Place) (reason : Reason) : Decode α :=
  halt (.refused ⟨place.line, place.column, reason⟩)

mutual

/-- A node of a program.  The result is `none` if its fields do not have the right types; the
inner `none` is a null. -/
def decodeNode (n : Yaml.Node) : Decode (Option (Option Draft)) := do
  visit
  match n with
  | .reference _ _ target => inside (decodeNode target)
  | .scalar place tag text =>
      if tag != Yaml.tagNull then refuse place .notAMapping
      let _ ← meaning tag text
      return some none
  | .sequence place tag items =>
      if tag != Yaml.tagNull then refuse place .notAMapping
      mismatch (.sequence place tag items) .nodeRef
  | .mapping place tag entries =>
      if tag == Yaml.tagNull then unwanted (.mapping place tag entries) .nodeRef
      else
        match entries.find? fun e => !fieldNames.contains e.1.text with
        | some (key, _) => refuse key.place (.unknownField key.text)
        | none =>
            let draft ← separately do
              visit
              if ← repeatedKeys entries then return {}
              decodeFields entries [] {}
            return draft.map fun d => some { d with line := place.line, column := place.column }
termination_by structural n

/-- The fields of a node; those in `done` have been set. -/
def decodeFields (entries : List (Yaml.Node × Yaml.Node)) (done : List String) (d : Draft) :
    Decode Draft := do
  match entries with
  | [] => return d
  | (key, n) :: rest =>
      match (← scalar .text textOf key).join with
      | none => decodeFields rest done d
      | some name =>
          if !fieldNames.contains name then decodeFields rest done d
          else if done.contains name then
            report [.repeatedField key.place.line name .node]
            decodeFields rest done d
          else
            let d ← d.setField name n (decodeNode n) (decodeNodes n)
            decodeFields rest (name :: done) d
termination_by structural entries

/-- A list of nodes. -/
def decodeNodes (n : Yaml.Node) : Decode (List (Option Draft)) := do
  visit
  match n with
  | .reference _ _ target => inside (decodeNodes target)
  | .sequence _ _ items => decodeItems items
  | .scalar place tag text =>
      nullOnly (.scalar place tag text) .nodes
      return []
  | .mapping place tag entries =>
      nullOnly (.mapping place tag entries) .nodes
      return []
termination_by structural n

/-- The entries of a list of nodes; those that cannot be read are left out. -/
def decodeItems (items : List Yaml.Node) : Decode (List (Option Draft)) := do
  match items with
  | [] => return []
  | n :: rest =>
      match ← decodeNode n with
      | some d => return d :: (← decodeItems rest)
      | none => decodeItems rest
termination_by structural items

end

/-! ### The root -/

/-- An outline being read.  `taken` holds the names that mappings merged in may no longer set,
once something is merged in. -/
structure RootState where
  outline : Outline := {}
  taken : Option (List String) := none

/-- Whether a key asks for another mapping to be merged in. -/
def isMerge : Yaml.Node → Bool
  | .scalar _ tag text => text == "<<" && tag == Yaml.tagMerge
  | _ => false

/-- The names among the keys of a mapping. -/
def keyNames (entries : List (Yaml.Node × Yaml.Node)) : Decode (List String) := do
  let names ← entries.mapM fun (key, _) =>
    visiting (fun n => do
      match n with
      | .scalar _ tag text =>
          match ← meaning tag text with
          | .text s => return some s
          | .binary data => return some data.shown
          | _ => return none
      | _ => return none) key
  return names.filterMap id

/-- Sets a field of the outline. -/
def setRoot (key : Yaml.Node) (name : String) (n : Yaml.Node) (done : List String) (s : RootState) :
    Decode (List String × RootState) := do
  if name != "procedures" && name != "statements" then
    report [.unknownField key.place.line name .outline]
    return (done, s)
  else if done.contains name then
    report [.repeatedField key.place.line name .outline]
    return (done, s)
  else
    let nodes ← decodeNodes n
    let outline :=
      if name == "procedures" then { s.outline with procedures := nodes }
      else { s.outline with statements := nodes }
    return (name :: done, { s with outline })

/-- The fields of the root, those of merged mappings aside. -/
def decodeRoot : (entries : List (Yaml.Node × Yaml.Node)) → (done : List String) → RootState →
    Decode RootState
  | [], _, s => return s
  | (key, n) :: rest, done, s => do
      if isMerge key then decodeRoot rest done s
      else
        match (← scalar .text textOf key).join with
        | none => decodeRoot rest done s
        | some name =>
            match s.taken with
            | some names =>
                if names.contains name then decodeRoot rest done s
                else
                  let (done, s) ← setRoot key name n done { s with taken := some (name :: names) }
                  decodeRoot rest done s
            | none =>
                let (done, s) ← setRoot key name n done s
                decodeRoot rest done s

/-- Ends the reading at something merged in that is no mapping. -/
def refuseMerge {α : Type} : Decode α :=
  halt (.broken { problem := "map merge requires map or sequence of maps as the value" })

mutual

/-- A mapping whose fields are those of the root, with what it merges in. -/
def mergeMapping (n : Yaml.Node) (s : RootState) : Decode RootState := do
  match n with
  | .reference _ _ target =>
      if !target.resolved.isMapping then refuseMerge
      visit
      inside (mergeMapping target s)
  | .mapping _ _ entries =>
      visit
      if ← repeatedKeys entries then return s
      let s ← decodeRoot entries [] s
      mergeLast entries entries none s
  | _ => refuseMerge
termination_by (sizeOf n, 0)

/-- Merges in what the last merge key among the entries asks for. -/
def mergeLast (all entries : List (Yaml.Node × Yaml.Node))
    (last : Option (RootState → Decode RootState)) (s : RootState) : Decode RootState := do
  match entries with
  | (key, n) :: rest =>
      mergeLast all rest (if isMerge key then some (mergeFrom n) else last) s
  | [] =>
      match last, s.taken with
      | none, _ => return s
      | some merge, some _ => merge s
      | some merge, none =>
          let s ← merge { s with taken := some (← keyNames all) }
          return { s with taken := none }
termination_by (sizeOf entries, 0)

/-- Merges in a mapping or a list of mappings. -/
def mergeFrom (n : Yaml.Node) (s : RootState) : Decode RootState := do
  match n with
  | .sequence _ _ items => mergeItems items s
  | .mapping place tag entries => mergeMapping (.mapping place tag entries) s
  | .reference place name target => mergeMapping (.reference place name target) s
  | .scalar .. => refuseMerge
termination_by (sizeOf n, 1)

/-- Merges in the mappings of a list, one after the other. -/
def mergeItems (items : List Yaml.Node) (s : RootState) : Decode RootState := do
  match items with
  | [] => return s
  | n :: rest => mergeItems rest (← mergeMapping n s)
termination_by (sizeOf items, 0)

end

/-- The outline that the root of a document describes. -/
def decodeOutline (n : Yaml.Node) : Decode Outline := do
  visit
  match n with
  | .mapping place tag entries =>
      return (← mergeMapping (.mapping place tag entries) {}).outline
  | n =>
      visiting (nullOnly · .outline) n
      return {}

/-! ### Texts -/

/-- The number after the first place where a text has a line number. -/
def lineIn : List Char → Int
  | [] => 0
  | c :: rest =>
      let digits := ((c :: rest).drop 5).takeWhile Char.isDigit
      if "line ".toList.isPrefixOf (c :: rest) && !digits.isEmpty then
        min (Number.digitsValue 10 digits) Number.maxInt64
      else lineIn rest

/-- The error of a document that cannot be read. -/
def Error.unreadable (message : String) : Error :=
  { line := lineIn message.toList, reason := .unreadable message }

/-- The outline of a document; an empty text has an empty one. -/
def Outline.ofYaml (text : String) : Except Error Outline :=
  match Yaml.firstDocument text with
  | .error e => .error (.unreadable e.message)
  | .ok none => .ok {}
  | .ok (some root) =>
      match (decodeOutline root).run {} with
      | .error (.refused e) => .error e
      | .error (.broken e) => .error (.unreadable e.message)
      | .ok (o, p) =>
          if p.mismatches.isEmpty then .ok o
          else .error (.unreadable ("yaml: unmarshal errors:\n  "
            ++ "\n  ".intercalate (p.mismatches.map Mismatch.text)))

/-- The program that a document describes. -/
def parse (text : String) : Except Error Program := do
  (← Outline.ofYaml text).toProgram

end Pseudocode.Document
