/-
# The evaluator as a machine

A run is a machine that takes small steps.  Its control says what is being done right now, and
a stack of pending tasks says what remains to be done with the result.  Nothing else remembers
where a run stands, so that it can wait between any two steps.

This module has the steps that need neither the console nor the session's controls: evaluating
expressions, executing statements, passing on results, and unwinding.
-/
import Pseudocode.Host.Registry
import Pseudocode.Host.Random
import Pseudocode.Text.Closest
import Pseudocode.Value.Operators

namespace Pseudocode

/-- How a statement ended: the next one follows, or the call it belongs to returns. -/
inductive Completion where
  | next
  | returned (v : Value)
deriving DecidableEq, Repr, Inhabited

/-- How a run ended. -/
inductive Outcome where
  | completed (v : Value)
  | failed (e : Failure) (span : Span)
  | stopped
deriving Inhabited

/-- Where a statement stands that has reached its boundary. -/
inductive Standing where
  /-- The run has not been told to end; the controls have not been looked at yet. -/
  | admitted
  /-- The controls slow the run down. -/
  | throttled
  /-- The run has not been told to end still, and waits until the delay is over. -/
  | delayed
  /-- It is held up, and the session shows that. -/
  | paused
deriving DecidableEq, Repr, Inhabited

/-- What is being done right now. -/
inductive Control where
  /-- There has been no run yet. -/
  | idle
  /-- Evaluate an expression. -/
  | eval (n : Node)
  /-- Hand a value to the task on top. -/
  | value (v : Value)
  /-- Reach the boundary of a statement. -/
  | reach (n : Node)
  /-- Stand at the boundary of a statement. -/
  | boundary (p : Standing) (n : Node)
  /-- Execute a statement that has passed its boundary. -/
  | exec (n : Node)
  /-- Run a block. -/
  | block (b : Block)
  /-- Try the arms of a conditional. -/
  | choose (branches : List Branch)
  /-- Hand the completion of a statement to the task on top. -/
  | complete (c : Completion)
  /-- Call a function. -/
  | call (name : String) (args : List Value) (site : Span)
  /-- Let a host function act. -/
  | host (site : Span) (a : Action Value)
  /-- Wait inside a host function. -/
  | held (site : Span) (next : Action Value)
  /-- Unwind with a failure. -/
  | fail (e : Failure)
  /-- Unwind after a breakdown of the host. -/
  | crash (text : String)
  /-- Show how the run ended. -/
  | ending (o : Outcome)
  /-- The run is over. -/
  | ended (o : Outcome)
deriving Inhabited

/-- Where an assignment stores its value. -/
inductive Target where
  | variable (name : String)
  /-- An element of a list, at a position counted from one. -/
  | element (span : Span) (name : String) (position : Int)
deriving DecidableEq, Repr, Inhabited

/-- What remains to be done with a result. -/
inductive Pending where
  /-- Evaluate the right operand. -/
  | binaryRight (span : Span) (op : Kind) (right : Node)
  /-- Apply the operator to the left operand and the result. -/
  | binaryApply (span : Span) (op : Kind) (left : Value)
  | relationRight (span : Span) (op : String) (right : Node)
  | relationApply (span : Span) (op : String) (left : Value)
  | negate
  | not
  /-- Read the element of a list at the result. -/
  | element (span : Span) (name : String)
  /-- Collect the items of a list, the latest first, and evaluate the rest. -/
  | items (done : List Value) (rest : List Node)
  /-- Collect the arguments of a call, the latest first, and evaluate the rest. -/
  | args (site : Span) (name : String) (done : List Value) (rest : List Node)
  /-- Take the result as the position of the element to assign to. -/
  | targetIndex (span : Span) (name : String) (value : Node)
  /-- Store the result. -/
  | assign (target : Target)
  /-- Drop the result of an expression used as a statement. -/
  | discard
  /-- Return the result from the call. -/
  | returned
  /-- Run the body as often as the result says. -/
  | timesCount (span : Span) (body : Block)
  /-- Go on with a counted loop at the given iteration. -/
  | times (index : Nat) (count : Number) (body : Block)
  /-- Go on with a conditional loop. -/
  | until (cond : Node) (body : Block)
  /-- Leave the loop if the result counts as true. -/
  | untilTest (cond : Node) (body : Block)
  /-- Take the arm if the result counts as true, else try the rest. -/
  | arm (body : Block) (rest : List Branch)
  /-- Loop over the list that is the result. -/
  | eachSource (span : Span) (var : String) (body : Block)
  /-- Go on with a loop over a list at the given index. -/
  | each (var : String) (cursor : Cursor) (index : Nat) (body : Block)
  /-- Run the remaining statements of a block. -/
  | sequence (rest : List Node)
  /-- Make the enclosing statement the current one again. -/
  | leave (outer : Span)
  /-- Leave the frame of a procedure. -/
  | invocation
  /-- Leave a host function; the number of frames at its call is kept. -/
  | hostCall (name : String) (site : Span) (depth : Nat)
  /-- Answer the call a host function made; the number of frames at that call is kept. -/
  | reenter (site : Span) (depth : Nat) (next : Except Failure Value → Action Value)

/-- The state of a run. -/
structure Machine where
  control : Control := .idle
  pending : List Pending := []
  store : Store := .empty
  heap : Heap := {}
  functions : Registry := {}
  random : RandomSource := default
  /-- What the host has to tell when it is consulted, the next answer first. -/
  tidings : Nat → Nat := fun _ => 0
  /-- The most statements a run may begin; zero if there is no limit. -/
  maxSteps : Nat := 0
  /-- The most calls that may be in progress; zero if there is no limit. -/
  maxDepth : Nat := 0
  /-- How many statements have reached their boundary. -/
  steps : Nat := 0
  /-- The innermost statement being executed. -/
  current : Span := .none
  lastDisplay : ByteString := ""
  /-- The frames at the point of failure, where they have been popped since. -/
  failedStack : Option Snapshot := none

namespace Machine

instance : Inhabited Machine := ⟨{}⟩

/-- Does something and hands its result to a task. -/
def await (m : Machine) (p : Pending) (c : Control) : Machine :=
  { m with control := c, pending := p :: m.pending }

def goto (m : Machine) (c : Control) : Machine := { m with control := c }

/-- Hands on a value. -/
def give (m : Machine) (v : Value) : Machine := m.goto (.value v)

/-- Hands on the completion of a statement. -/
def finish (m : Machine) (c : Completion) : Machine := m.goto (.complete c)

/-- Fails with a fault. -/
def raise (m : Machine) (kind : FaultKind) (detail : String) (span : Span) : Machine :=
  m.goto (.fail (.fault { kind, detail, span }))

def snapshot (m : Machine) : Snapshot := ⟨m.store, m.heap⟩

/-! ### Expressions -/

/-- Evaluates a name. -/
def readVariable (m : Machine) (span : Span) (name : String) : Machine :=
  match m.store.resolve? name with
  | some v => m.give v
  | none =>
      let hint := (Text.closest? name m.store.visible).getD ""
      m.goto (.fail (.fault { kind := .undefinedVariable, detail := name, span, hint }))

/-- Makes a list of the values collected, the latest first. -/
def makeList (m : Machine) (done : List Value) : Machine :=
  let (id, heap) := m.heap.alloc done.reverse.toArray
  { m with heap, control := .value (.list id) }

/-- Starts to evaluate an expression. -/
def eval (m : Machine) : Node → Machine
  | .missing => m.raise .invalidOperation "missing expression" m.current
  | .literal span lit =>
      match Value.ofLiteral lit with
      | .ok v => m.give v
      | .error k => m.raise .invalidOperation ("unsupported literal kind " ++ toString k) span
  | .group span .missing =>
      m.raise .invalidOperation "cannot evaluate an empty expression" span
  | .group _ inner => m.goto (.eval inner)
  | .binary span op left right => m.await (.binaryRight span op right) (.eval left)
  | .negate _ operand => m.await .negate (.eval operand)
  | .not _ operand => m.await .not (.eval operand)
  | .relation span op left right => m.await (.relationRight span op right) (.eval left)
  | .identifier span name => m.readVariable span name
  | .element span none _ => m.raise .invalidOperation "list element without a list" span
  | .element span (some list) index => m.await (.element span list.name) (.eval index)
  | .list _ [] => m.makeList []
  | .list _ (item :: rest) => m.await (.items [] rest) (.eval item)
  | .call span none _ => m.raise .invalidOperation "call without a procedure name" span
  | .call span (some callee) [] => m.goto (.call callee.name [] span)
  | .call span (some callee) (arg :: rest) =>
      m.await (.args span callee.name [] rest) (.eval arg)
  | n => m.raise .invalidOperation (n.kindName ++ " is not an expression") n.span

/-- The position that an index value stands for, if it reads as an integer. -/
def position? (v : Value) : Option Int :=
  let n := v.asNumber
  if n.isInteger then some n.toInt64 else none

/-- Fails because an index value stands for no position. -/
def badIndex (m : Machine) (span : Span) (name : String) (v : Value) : Machine :=
  m.raise .indexOutOfRange (name ++ "[" ++ (m.heap.display v).shown ++ "]") span

/-- Fails because a list has no such position. -/
def badPosition (m : Machine) (span : Span) (id : ListId) (p : Int) : Machine :=
  m.raise .indexOutOfRange
    (toString p ++ " (length " ++ toString (m.heap.length id) ++ ")") span

/-- Reads the element of a list at an index value. -/
def readElement (m : Machine) (span : Span) (name : String) (index : Value) : Machine :=
  match position? index with
  | none => m.badIndex span name index
  | some p =>
      match m.store.resolve? name with
      | none => m.raise .undefinedList name span
      | some (.list id) =>
          match if 1 ≤ p then m.heap.get? id (p - 1).toNat else none with
          | some v => m.give v
          | none => m.badPosition span id p
      | some _ => m.raise .notAList name span

/-! ### Assignments -/

/-- Writes the element of a list at a position; the one after the last is appended. -/
def writeElement (m : Machine) (span : Span) (id : ListId) (p : Int) (v : Value) : Machine :=
  let n := m.heap.length id
  if 1 ≤ p ∧ p ≤ n then
    { m with heap := m.heap.set id (p - 1).toNat v, control := .complete .next }
  else if p = n + 1 then
    { m with heap := m.heap.push id v, control := .complete .next }
  else m.badPosition span id p

/-- The list a name is bound to for writing an element; a name that is not bound is bound to a
new empty list. -/
def listForWriting (m : Machine) (name : String) : Value × Machine :=
  match m.store.resolve? name with
  | some v => (v, m)
  | none =>
      let (id, heap) := m.heap.alloc #[]
      (.list id, { m with heap, store := m.store.assign name (.list id) })

/-- Stores a value. -/
def commit (m : Machine) (v : Value) : Target → Machine
  | .variable name => { m with store := m.store.assign name v, control := .complete .next }
  | .element span name p =>
      match m.listForWriting name with
      | (.list id, m) => m.writeElement span id p v
      | (_, m) => m.raise .notAList name span

/-- Starts an assignment. -/
def assign (m : Machine) (target value : Node) : Machine :=
  match target with
  | .identifier _ name => m.await (.assign (.variable name)) (.eval value)
  | .element span none _ => m.raise .invalidOperation "list element without a list" span
  | .element span (some list) index => m.await (.targetIndex span list.name value) (.eval index)
  | n => m.raise .invalidOperation ("cannot assign to " ++ n.kindName) n.span

/-! ### Calls -/

/-- Enters a procedure: its parameters are bound in a new frame. -/
def invoke (m : Machine) (name : String) (params : List String) (body : Block)
    (args : List Value) (site : Span) : Machine :=
  if 0 < m.maxDepth ∧ m.maxDepth < m.store.depth then
    m.raise .callDepthExceeded ("(" ++ toString m.maxDepth ++ ") calling " ++ name) site
  else
    let vars := (Bindings.empty : Bindings Value).insertAll (params.zip args)
    { m with
      store := m.store.push name vars
      pending := .invocation :: m.pending
      control := .block body }

/-- Calls a function by name. -/
def call (m : Machine) (name : String) (args : List Value) (site : Span) : Machine :=
  match Bindings.get? m.functions name with
  | none =>
      let hint := (Text.closest? name (Bindings.names m.functions)).getD ""
      m.goto (.fail (.fault { kind := .unknownFunction, detail := name, span := site, hint }))
  | some f =>
      if 0 ≤ f.arity ∧ f.arity ≠ args.length then
        m.raise .arityMismatch
          (name ++ ": expected " ++ toString f.arity ++ ", got " ++ toString args.length) site
      else
        match f with
        | .declared params body => m.invoke name params body args site
        | .host _ body => m.await (.hostCall name site m.store.depth) (.host site (body args))

/-! ### Statements -/

/-- Starts to execute a statement that has passed its boundary. -/
def exec (m : Machine) : Node → Machine
  | .pass _ => m.finish .next
  | .assignment _ target value => m.assign target value
  | .block b => m.goto (.block b)
  | .repeatTimes span count body => m.await (.timesCount span body) (.eval count)
  | .repeatUntil _ cond body => m.await (.until cond body) (.complete .next)
  | .ifElse _ branches => m.goto (.choose branches)
  | .forEach span none _ _ =>
      m.raise .invalidOperation "for each without an iteration variable" span
  | .forEach span (some var) source body => m.await (.eachSource span var.name body) (.eval source)
  | .return _ .missing => m.finish (.returned .nothing)
  | .return _ value => m.await .returned (.eval value)
  | .procedure p =>
      m.raise .invalidOperation "procedure declaration used as a statement" p.span
  | .missing => m.raise .invalidOperation "missing statement" .none
  | n => m.await .discard (.eval n)

/-- Runs the statements of a block. -/
def block (m : Machine) : Block → Machine
  | .missing => m.raise .invalidOperation "missing block" m.current
  | .of _ statements => m.await (.sequence statements) (.complete .next)

/-- Tries the arms of a conditional. -/
def choose (m : Machine) : List Branch → Machine
  | [] => m.finish .next
  | .of .missing body :: _ => m.goto (.block body)
  | .of cond body :: rest => m.await (.arm body rest) (.eval cond)

/-! ### Passing on results -/

/-- Hands a value to a task. -/
def resume (m : Machine) (v : Value) : Pending → Machine
  | .binaryRight span op right => m.await (.binaryApply span op v) (.eval right)
  | .binaryApply span op left =>
      match Value.operate? m.heap op left v with
      | some r => m.give r
      | none => m.raise .invalidOperation ("unsupported operator " ++ op.name) span
  | .relationRight span op right => m.await (.relationApply span op v) (.eval right)
  | .relationApply span op left =>
      match Relation.ofText? op with
      | some r => m.give (.bool (Value.relate r left v))
      | none => m.raise .invalidOperation ("unsupported relation " ++ Text.quote op) span
  | .negate => m.give (.number v.asNumber.neg)
  | .not => m.give (.bool !v.truthy)
  | .element span name => m.readElement span name v
  | .items done [] => m.makeList (v :: done)
  | .items done (item :: rest) => m.await (.items (v :: done) rest) (.eval item)
  | .args site name done [] => m.goto (.call name (v :: done).reverse site)
  | .args site name done (arg :: rest) => m.await (.args site name (v :: done) rest) (.eval arg)
  | .targetIndex span name value =>
      match position? v with
      | none => m.badIndex span name v
      | some p => m.await (.assign (.element span name p)) (.eval value)
  | .assign target => m.commit v target
  | .discard => m.finish .next
  | .returned => m.finish (.returned v)
  | .timesCount span body =>
      let count := v.asNumber
      if count.lt 0 then m.raise .invalidRepeatCount count.format span
      else m.await (.times 0 count body) (.complete .next)
  | .untilTest cond body =>
      if v.truthy then m.finish .next else m.await (.until cond body) (.block body)
  | .arm body rest => if v.truthy then m.goto (.block body) else m.goto (.choose rest)
  | .eachSource span var body =>
      match v with
      | .list id => m.await (.each var (.start m.heap id) 0 body) (.complete .next)
      | v => m.raise .notAList ("cannot iterate over " ++ v.kind.name) span
  | .hostCall _ _ _ => m.give v
  | .reenter site _ next => m.goto (.host site (next (.ok v)))
  -- the other tasks wait for the completion of a statement
  | _ => m.give v

/-- Goes on to the next iteration of a loop, unless the run has been told to end. -/
def iterate (m : Machine) (cancelled : Bool) (p : Pending) (c : Control) : Machine :=
  if cancelled then m.goto (.fail .stopped) else m.await p c

/-- Hands the completion of a statement to a task. -/
def proceed (m : Machine) (cancelled : Bool) (c : Completion) : Pending → Machine
  | .leave outer => { m with current := outer, control := .complete c }
  | .invocation =>
      let v := match c with
        | .next => .nothing
        | .returned v => v
      { m with store := m.store.pop, control := .value v }
  | p =>
      match c with
      | .returned v => m.finish (.returned v)
      | .next =>
          match p with
          | .sequence [] => m.finish .next
          | .sequence (n :: rest) => m.await (.sequence rest) (.reach n)
          | .times i count body =>
              if (Number.ofNat i).lt count then
                m.iterate cancelled (.times (i + 1) count body) (.block body)
              else m.finish .next
          | .until cond body => m.iterate cancelled (.untilTest cond body) (.eval cond)
          | .each var cursor i body =>
              match cursor.read? m.heap i with
              | none => m.finish .next
              | some v =>
                  if cancelled then m.goto (.fail .stopped)
                  else
                    { m with
                      store := m.store.assign var v
                      pending := .each var cursor (i + 1) body :: m.pending
                      control := .block body }
          -- the other tasks wait for a value
          | _ => m.finish .next

/-! ### Unwinding -/

/-- The failure of a host function as the caller sees it: an error of the host's own becomes a
fault located at the call. -/
def hostFailure (name : String) (site : Span) (e : Failure) : Failure :=
  if e.isOwn then e
  else
    .fault
      { kind := .hostFunction, detail := name ++ ": " ++ e.message, span := site,
        cause := some e.asHostError }

/-- Passes a failure on through a task.  A host function gets to see the failure of a call it
made, after the frames of that call have been popped. -/
def unwind (m : Machine) (e : Failure) : Pending → Machine
  | .hostCall name site _ => m.goto (.fail (hostFailure name site e))
  | .reenter site depth next =>
      if depth < m.store.depth then
        { m with
          store := m.store.truncate depth
          control := .host site (next (.error (e.withStack m.snapshot))) }
      else m.goto (.host site (next (.error e)))
  | _ => m

/-- Passes a breakdown on through a task, up to the call of the innermost host function. -/
def collapse (m : Machine) (text : String) : Pending → Machine
  | .hostCall name site depth =>
      { m with
        store := m.store.truncate depth
        control := .fail (.fault
          { kind := .hostFunction, detail := name ++ ": " ++ text, span := site }) }
  | _ => m

end Machine

end Pseudocode
