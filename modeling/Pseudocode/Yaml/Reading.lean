/-
# Reading the first document of a stream

The tokens of a document follow a grammar in which every choice is made by the next token.  A
node is built as soon as its tokens are read, so that an alias finds the nodes named before it.
The main definition is `firstDocument`.
-/
import Pseudocode.Yaml.Scanner
import Pseudocode.Yaml.Scalar

namespace Pseudocode.Yaml

/-- What has been named so far in a document. -/
structure Names where
  /-- The handles of tags and what they stand for. -/
  tags : List (String × String) := []
  /-- The named nodes, the latest first; a node that is still being read is not known yet. -/
  anchors : List (String × Option Node) := []
deriving Inhabited

/-- Reading nodes: reads tokens, and keeps what was named. -/
abbrev Read := StateT Names Scan

namespace Read

def peek : Read Token := liftM Scan.peek

def take : Read Unit := liftM Scan.take

/-- Ends the reading of a part of a node.  A character that is not allowed and was met in the
meantime is reported then. -/
def settle : Read Unit := do
  let s ← liftM (get : Scan Scanner)
  if s.view.spoiled then throw Scan.notAllowed

/-- Fails at a token inside something that began at the context. -/
def failAt {α : Type} (context : Mark) (problem : String) (token : Token) : Read α :=
  throw { problem, line := firstLine context.line token.start.line }

/-! ### Directives -/

/-- Gives a handle of tags its meaning. -/
def declareTag (handle lead : String) : Read Unit :=
  modify fun s => { s with tags := s.tags ++ [(handle, lead)] }

/-- Reads the directives before a document. -/
def directives : (fuel : Nat) → (versioned : Bool) → Read Unit
  | 0, _ => pure ()
  | fuel + 1, versioned => do
      let token ← peek
      match token.kind with
      | .version major minor =>
          if versioned then failAt {} "found duplicate %YAML directive" token
          if major != 1 || minor != 1 then failAt {} "found incompatible YAML document" token
          take
          directives fuel true
      | .tagDirective handle lead =>
          if ((← get).tags.lookup handle).isSome then
            failAt {} "found duplicate %TAG directive" token
          declareTag handle lead
          take
          directives fuel versioned
      | _ => pure ()

/-- The handles that every document knows unless it declares them itself. -/
def declareDefaults : Read Unit := do
  declareTag "!" "!"
  declareTag "!!" tagRoot

/-! ### Nodes -/

/-- What may stand in front of a node. -/
structure Properties where
  start : Mark
  anchor : Option String := none
  tag : String := ""

/-- The tag that a handle and a suffix stand for. -/
def tagOf (context : Mark) (token : Token) (handle suffix : String) : Read String := do
  if handle.isEmpty then return suffix
  let tag := (((← get).tags.lookup handle).map (· ++ suffix)).getD ""
  if tag.isEmpty then failAt context "found undefined tag handle" token
  return tag

/-- The name and the tag in front of a node, in either order. -/
def properties : Read Properties := do
  let first ← peek
  match first.kind with
  | .anchor name => do
      take
      let second ← peek
      match second.kind with
      | .tag handle suffix => do
          take
          let _ ← peek
          return ⟨first.start, some name, ← tagOf first.start second handle suffix⟩
      | _ => return { start := first.start, anchor := some name }
  | .tag handle suffix => do
      take
      let second ← peek
      let anchor ← (match second.kind with
        | .anchor name => do
            take
            let _ ← peek
            pure (some name)
        | _ => pure none)
      return ⟨first.start, anchor, ← tagOf first.start first handle suffix⟩
  | _ => return { start := first.start }

/-- Registers a name for a node that is about to be read. -/
def announce (p : Properties) : Read Unit :=
  match p.anchor with
  | some name => modify fun s => { s with anchors := (name, none) :: s.anchors }
  | none => pure ()

/-- Tells the node that was announced as the entry with the given number from the end. -/
def conclude (p : Properties) (number : Nat) (node : Node) : Read Node := do
  if p.anchor.isSome then
    modify fun s =>
      let i := s.anchors.length - 1 - number
      { s with anchors := s.anchors.modify i fun e => (e.1, some node) }
  return node

/-- Reads a node with its name known, so that it can be found from the inside. -/
def named (p : Properties) (body : Read Node) : Read Node := do
  let number := (← get).anchors.length
  announce p
  conclude p number (← body)

/-- The tag of a scalar: the one given, or what its writing says. -/
def scalarTag (given : String) (style : ScalarStyle) (text : String) : String :=
  if !given.isEmpty && given != "!" then shortTag given
  else if style != .plain then tagText
  else if text == "<<" then tagMerge
  else (Meaning.ofPlain true text).tag

/-- The tag of a collection: the one given, or its own. -/
def collectionTag (given own : String) : String :=
  if !given.isEmpty && given != "!" then shortTag given else own

/-- A scalar that is not written. -/
def empty (mark : Mark) : Read Node := do
  settle
  return .scalar mark.place tagNull ""

/-- The end of an indicator of one character. -/
def endOf (t : Token) : Mark :=
  { t.start with index := t.start.index + 1, column := t.start.column + 1 }

/-- The node that an alias stands for. -/
def aliased (token : Token) (name : String) : Read Node := do
  settle
  match (← get).anchors.lookup name with
  | some (some target) => return .reference token.start.place name target
  | some none => throw { problem := "anchor '" ++ name ++ "' value contains itself" }
  | none => throw { problem := "unknown anchor '" ++ name ++ "' referenced" }

mutual

/-- Reads a node; `block` allows block collections, and `indentless` a sequence whose entries
are not indented. -/
def node (block indentless : Bool) : (fuel : Nat) → Read Node
  | 0 => throw { problem := "the document is too long" }
  | fuel + 1 => do
      let token ← peek
      match token.kind with
      | .reference name => do
          take
          aliased token name
      | _ => do
          let p ← properties
          let token ← peek
          let scalar (text : String) (style : ScalarStyle) : Read Node := do
            settle
            named p (pure (.scalar p.start.place (scalarTag p.tag style text) text))
          let sequence (items : Read (List Node)) : Read Node := do
            settle
            named p do
              let items ← items
              settle
              return .sequence p.start.place (collectionTag p.tag tagSequence) items
          let mapping (entries : Read (List (Node × Node))) : Read Node := do
            settle
            named p do
              let entries ← entries
              settle
              return .mapping p.start.place (collectionTag p.tag tagMapping) entries
          match token.kind with
          | .scalar text style => do
              take
              scalar text style
          | .flowSequenceStart => sequence (do take; flowItems token.start true fuel)
          | .flowMappingStart => mapping (do take; flowEntries token.start true fuel)
          | kind =>
              if indentless && kind == .blockEntry then sequence (indentlessItems fuel)
              else if block && kind == .blockSequenceStart then
                sequence (do take; blockItems token.start fuel)
              else if block && kind == .blockMappingStart then
                mapping (do take; blockEntries token.start fuel)
              else if p.anchor.isSome || !p.tag.isEmpty then
                scalar "" .plain
              else failAt p.start "did not find expected node content" token

/-- The items of a block sequence. -/
def blockItems (context : Mark) : (fuel : Nat) → Read (List Node)
  | 0 => return []
  | fuel + 1 => do
      let entry ← peek
      match entry.kind with
      | .blockEntry => do
          take
          let next ← peek
          let item ←
            if next.kind == .blockEntry || next.kind == .blockEnd then empty (endOf entry)
            else node true false fuel
          return item :: (← blockItems context fuel)
      | .blockEnd => do
          take
          return []
      | _ => failAt context "did not find expected '-' indicator" entry

/-- The items of a sequence that is not indented. -/
def indentlessItems : (fuel : Nat) → Read (List Node)
  | 0 => return []
  | fuel + 1 => do
      let entry ← peek
      match entry.kind with
      | .blockEntry => do
          take
          let next ← peek
          let item ←
            if [TokenKind.blockEntry, .key, .value, .blockEnd].contains next.kind then
              empty (endOf entry)
            else node true false fuel
          return item :: (← indentlessItems fuel)
      | _ => return []

/-- The entries of a block mapping. -/
def blockEntries (context : Mark) : (fuel : Nat) → Read (List (Node × Node))
  | 0 => return []
  | fuel + 1 => do
      let token ← peek
      match token.kind with
      | .key => do
          take
          let key ← blockPart token fuel
          let token ← peek
          let value ←
            if token.kind == .value then do
              take
              blockPart token fuel
            else empty token.start
          return (key, value) :: (← blockEntries context fuel)
      | .blockEnd => do
          take
          return []
      | _ => failAt context "did not find expected key" token

/-- The key or the value after its indicator in a block mapping. -/
def blockPart (indicator : Token) : (fuel : Nat) → Read Node
  | 0 => empty indicator.start
  | fuel + 1 => do
      let next ← peek
      if [TokenKind.key, .value, .blockEnd].contains next.kind then empty (endOf indicator)
      else node true true fuel

/-- The items of a flow sequence; a single pair among them is a mapping. -/
def flowItems (context : Mark) (first : Bool) : (fuel : Nat) → Read (List Node)
  | 0 => return []
  | fuel + 1 => do
      let token ← peek
      if token.kind == .flowSequenceEnd then
        take
        return []
      if !first then
        if token.kind == .flowEntry then take
        else failAt context "did not find expected ',' or ']'" token
      let token ← peek
      if token.kind == .flowSequenceEnd then
        take
        return []
      let item ← if token.kind == .key then do take; pair token fuel else node false false fuel
      return item :: (← flowItems context false fuel)

/-- A single pair inside a flow sequence, after its key indicator. -/
def pair (indicator : Token) : (fuel : Nat) → Read Node
  | 0 => empty indicator.start
  | fuel + 1 => do
      settle
      let next ← peek
      let key ←
        if [TokenKind.value, .flowEntry, .flowSequenceEnd].contains next.kind then do
          take
          empty (endOf next)
        else node false false fuel
      let value ← flowPart .flowSequenceEnd fuel
      let _ ← peek
      settle
      return .mapping indicator.start.place tagMapping [(key, value)]

/-- The value of an entry in a flow collection, which ends with the given token. -/
def flowPart (closing : TokenKind) : (fuel : Nat) → Read Node
  | 0 => empty {}
  | fuel + 1 => do
      let token ← peek
      if token.kind == .value then
        take
        let next ← peek
        if next.kind == .flowEntry || next.kind == closing then empty next.start
        else node false false fuel
      else empty token.start

/-- The entries of a flow mapping. -/
def flowEntries (context : Mark) (first : Bool) : (fuel : Nat) → Read (List (Node × Node))
  | 0 => return []
  | fuel + 1 => do
      let token ← peek
      if token.kind == .flowMappingEnd then
        take
        return []
      if !first then
        if token.kind == .flowEntry then take
        else failAt context "did not find expected ',' or '\x7d'" token
      let token ← peek
      if token.kind == .flowMappingEnd then
        take
        return []
      if token.kind == .key then
        take
        let next ← peek
        let key ←
          if [TokenKind.value, .flowEntry, .flowMappingEnd].contains next.kind then
            empty next.start
          else node false false fuel
        let value ← flowPart .flowMappingEnd fuel
        return (key, value) :: (← flowEntries context false fuel)
      else
        let key ← node false false fuel
        let next ← peek
        let value ← empty next.start
        return (key, value) :: (← flowEntries context false fuel)

end

/-! ### Documents -/

/-- The root of the first document, if the stream has one. -/
def document (fuel : Nat) : Read (Option Node) := do
  take
  let token ← peek
  let explicit :=
    match token.kind with
    | .version .. | .tagDirective .. | .documentStart => true
    | _ => false
  if token.kind == .streamEnd then
    settle
    return none
  let root ←
    if explicit then do
      directives fuel false
      declareDefaults
      let token ← peek
      if token.kind != .documentStart then
        failAt {} "did not find expected <document start>" token
      take
      settle
      let next ← peek
      match next.kind with
      | .version .. | .tagDirective .. | .documentStart | .documentEnd | .streamEnd =>
          empty next.start
      | _ => node true false fuel
    else do
      declareDefaults
      settle
      node true false fuel
  let _ ← peek
  settle
  return some root

end Read

/-- The root of the first document of a stream; there is none if the stream has no document. -/
def firstDocument (text : String) : Except Error (Option Node) := do
  let cs := text.toList
  let read : Read (Option Node) := do
    let _ ← Read.peek
    Read.settle
    Read.document (8 * cs.length + 64)
  let ((root, _), _) ← (read.run {}).run (Scanner.of cs)
  return root

end Pseudocode.Yaml
