/-
# Runs of complete programs

The evaluation checks for every part of a program that might be missing, and for operators,
relations, constants and targets that it does not know.  In the run of a complete program these
checks never fail.  What is being done and what remains to be done are pieces of the program, and
they are complete as well: this is kept by every step.  What can be reported as an invalid
operation is the declaration of a procedure among the statements, and a statement in the place of
an expression.

The main results are

* `Builtins.modest_plugin`: the builtin functions report no invalid operation;
* `Session.intact_step`: a step keeps a run intact;
* `Session.documents_run_intact`: what has been said above, for what a document describes.
-/
import Pseudocode.Proofs.Complete
import Pseudocode.Proofs.Controls
import Pseudocode.Proofs.Leaf

namespace Pseudocode

/-! ### Failures of complete programs -/

/-- The kinds of the statements that are no expressions. -/
def Kind.statements : List Kind :=
  [.pass, .assignment, .block, .repeatTimes, .repeatUntil, .ifElse, .forEach, .return, .procedure]

/-- The fault says that a part of the program stands where it does not belong. -/
def Fault.Misplaced (f : Fault) : Prop :=
  f.detail = "procedure declaration used as a statement" ∨
    ∃ k ∈ Kind.statements, f.detail = k.name ++ " is not an expression"

/-- No invalid operation is reported, unless a part of the program is misplaced. -/
def Failure.Benign (e : Failure) : Prop :=
  ∀ f, e.fault? = some f → f.kind = .invalidOperation → f.Misplaced

lemma Failure.benign_stopped : Failure.stopped.Benign := by
  rintro f ⟨⟩

lemma Failure.benign_host (e : HostError) : (Failure.host e).Benign := by
  rintro f ⟨⟩

lemma Failure.benign_fault {f : Fault} (h : f.kind = .invalidOperation → f.Misplaced) :
    (Failure.fault f).Benign := by
  rintro f' ⟨⟩
  exact h

/-! ### What is intact -/

/-- The requests are those of a leaf, whatever the answers; no invalid operation is reported, and
there is no breakdown. -/
inductive Action.Modest {α : Type} : Action α → Prop where
  | pure (a : α) : Modest (.pure a)
  | fail {e : Failure} (he : e.Benign) : Modest (.fail e)
  | ask {q : Request} {next : q.Answer → Action α} (hq : q.isLeaf = true)
      (h : ∀ answer, Modest (next answer)) : Modest (.ask q next)

/-- The functions of the host are modest, the procedures of the program complete. -/
def Function.Intact : Function → Prop
  | .host _ f => ∀ args, (f args).Modest
  | .declared _ body => body.isComplete = true

/-- What is being done is a complete piece of the program, and a failure is benign. -/
def Control.Intact : Control → Prop
  | .eval n | .reach n | .boundary _ n | .exec n => n.isComplete = true
  | .block b => b.isComplete = true
  | .choose branches => Branch.areComplete branches = true
  | .host _ a => a.Modest
  | .held _ _ => False
  | .fail e => e.Benign
  | .crash _ => False
  | .ending (.failed e _) | .ended (.failed e _) => e.Benign
  | _ => True

/-- What remains to be done is a complete piece of the program. -/
def Pending.Intact : Pending → Prop
  | .binaryRight _ op right => Kind.operators.contains op = true ∧ right.isComplete = true
  | .binaryApply _ op _ => Kind.operators.contains op = true
  | .relationRight _ op right => (Relation.ofText? op).isSome = true ∧ right.isComplete = true
  | .relationApply _ op _ => (Relation.ofText? op).isSome = true
  | .items _ rest | .args _ _ _ rest | .sequence rest => Node.areComplete rest = true
  | .targetIndex _ _ value => value.isComplete = true
  | .timesCount _ body | .times _ _ body | .eachSource _ _ body | .each _ _ _ body =>
      body.isComplete = true
  | .until cond body | .untilTest cond body => cond.isComplete = true ∧ body.isComplete = true
  | .arm body rest => body.isComplete = true ∧ Branch.areComplete rest = true
  | .reenter _ _ _ => False
  | _ => True

namespace Machine

/-- The functions and what remains to be done are intact. -/
structure Prepared (m : Machine) : Prop where
  functions : m.functions.All Function.Intact
  pending : ∀ p ∈ m.pending, p.Intact

/-- So is what is being done. -/
structure Intact (m : Machine) : Prop extends Prepared m where
  control : m.control.Intact

variable {m : Machine}

/-! ### What the evaluation does -/

lemma Prepared.goto (h : m.Prepared) {c : Control} (hc : c.Intact) : (m.goto c).Intact :=
  ⟨⟨h.functions, h.pending⟩, hc⟩

lemma Prepared.await (h : m.Prepared) {p : Pending} {c : Control} (hp : p.Intact)
    (hc : c.Intact) : (m.await p c).Intact :=
  ⟨⟨h.functions, List.forall_mem_cons.mpr ⟨hp, h.pending⟩⟩, hc⟩

/-- A fault of another kind is benign. -/
lemma Prepared.raise (h : m.Prepared) {kind : FaultKind} {detail : String} {span : Span}
    (hkind : kind ≠ .invalidOperation) : (m.raise kind detail span).Intact :=
  h.goto (Failure.benign_fault fun heq => absurd heq hkind)

lemma Prepared.readVariable (h : m.Prepared) (span : Span) (name : String) :
    (m.readVariable span name).Intact := by
  unfold Machine.readVariable
  split
  · exact h.goto trivial
  · exact h.goto (Failure.benign_fault (by simp))

lemma Prepared.makeList (h : m.Prepared) (done : List Value) : (m.makeList done).Intact :=
  ⟨⟨h.functions, h.pending⟩, trivial⟩

/-- A complete node is an expression, or a statement in the place of one. -/
lemma Prepared.eval (h : m.Prepared) {n : Node} (hn : n.isComplete = true) :
    (m.eval n).Intact := by
  cases n with
  | missing => simp [Node.isComplete] at hn
  | literal span lit =>
      cases lit with
      | unsupported k => simp [Node.isComplete, Literal.isSupported] at hn
      | _ => exact h.goto trivial
  | group span inner =>
      have hinner : inner.isComplete = true := by simpa only [Node.isComplete] using hn
      cases inner with
      | missing => simp [Node.isComplete] at hinner
      | _ => exact h.goto hinner
  | binary span op left right =>
      simp only [Node.isComplete, Bool.and_eq_true] at hn
      exact h.await ⟨hn.1.1, hn.2⟩ hn.1.2
  | negate span operand | not span operand =>
      have hoperand : operand.isComplete = true := by simpa only [Node.isComplete] using hn
      exact h.await trivial hoperand
  | relation span op left right =>
      simp only [Node.isComplete, Bool.and_eq_true] at hn
      exact h.await ⟨hn.1.1, hn.2⟩ hn.1.2
  | identifier span name => exact h.readVariable span name
  | element span list index =>
      cases list with
      | none => simp [Node.isComplete] at hn
      | some list =>
          have hindex : index.isComplete = true := by simpa [Node.isComplete] using hn
          exact h.await trivial hindex
  | list span items =>
      cases items with
      | nil => exact h.makeList []
      | cons item rest =>
          simp only [Node.isComplete, Node.areComplete, Bool.and_eq_true] at hn
          exact h.await hn.2 hn.1
  | call span callee args =>
      cases callee with
      | none => simp [Node.isComplete] at hn
      | some callee =>
          cases args with
          | nil => exact h.goto trivial
          | cons arg rest =>
              simp only [Node.isComplete, Node.areComplete, Bool.and_eq_true] at hn
              exact h.await hn.2.2 hn.2.1
  | _ =>
      -- what is left are the statements
      refine h.goto (Failure.benign_fault fun _ => .inr ⟨_, ?_, rfl⟩)
      simp [Kind.statements]

lemma Prepared.readElement (h : m.Prepared) (span : Span) (name : String) (index : Value) :
    (m.readElement span name index).Intact := by
  unfold Machine.readElement
  split
  · exact h.raise (by decide)
  · split
    · exact h.raise (by decide)
    · split
      · exact h.goto trivial
      · exact h.raise (by decide)
    · exact h.raise (by decide)

lemma Prepared.writeElement (h : m.Prepared) (span : Span) (id : ListId) (p : Int) (v : Value) :
    (m.writeElement span id p v).Intact := by
  unfold Machine.writeElement
  dsimp only
  split
  · exact ⟨⟨h.functions, h.pending⟩, trivial⟩
  · split
    · exact ⟨⟨h.functions, h.pending⟩, trivial⟩
    · exact h.raise (by decide)

lemma Prepared.listForWriting (h : m.Prepared) (name : String) :
    (m.listForWriting name).2.Prepared := by
  unfold Machine.listForWriting
  split
  · exact h
  · exact ⟨h.functions, h.pending⟩

lemma Prepared.commit (h : m.Prepared) (v : Value) (target : Target) :
    (m.commit v target).Intact := by
  cases target with
  | «variable» name => exact ⟨⟨h.functions, h.pending⟩, trivial⟩
  | element span name p =>
      have hwriting := h.listForWriting name
      unfold Machine.commit
      dsimp only
      split
      · rename_i heq
        rw [heq] at hwriting
        exact hwriting.writeElement _ _ _ _
      · rename_i heq
        rw [heq] at hwriting
        exact hwriting.raise (by decide)

lemma Prepared.assign (h : m.Prepared) {target value : Node}
    (htarget : Document.isTarget target = true) (hcomplete : target.isComplete = true)
    (hvalue : value.isComplete = true) : (m.assign target value).Intact := by
  cases target with
  | identifier span name => exact h.await trivial hvalue
  | element span list index =>
      cases list with
      | none => simp [Node.isComplete] at hcomplete
      | some list =>
          have hindex : index.isComplete = true := by simpa [Node.isComplete] using hcomplete
          exact h.await hvalue hindex
  | binary span op left right =>
      -- the kind of such a node is its operator
      have hop : Kind.operators.contains op = true := by
        simp only [Node.isComplete, Bool.and_eq_true] at hcomplete
        exact hcomplete.1.1
      cases op with
      | identifier | listElement => simp [Kind.operators] at hop
      | _ => simp [Document.isTarget, Node.kind?] at htarget
  | _ => simp [Document.isTarget, Node.kind?] at htarget

lemma Prepared.exec (h : m.Prepared) {n : Node} (hn : n.isComplete = true) :
    (m.exec n).Intact := by
  cases n with
  | missing => simp [Node.isComplete] at hn
  | pass span => exact h.goto trivial
  | assignment span target value =>
      simp only [Node.isComplete, Bool.and_eq_true] at hn
      exact h.assign hn.1.1 hn.1.2 hn.2
  | block body =>
      have hbody : body.isComplete = true := by simpa only [Node.isComplete] using hn
      exact h.goto hbody
  | repeatTimes span count body =>
      simp only [Node.isComplete, Bool.and_eq_true] at hn
      exact h.await hn.2 hn.1
  | repeatUntil span cond body =>
      simp only [Node.isComplete, Bool.and_eq_true] at hn
      exact h.await ⟨hn.1, hn.2⟩ trivial
  | ifElse span branches =>
      have hbranches : Branch.areComplete branches = true := by
        simpa only [Node.isComplete] using hn
      exact h.goto hbranches
  | forEach span var source body =>
      cases var with
      | none => simp [Node.isComplete] at hn
      | some var =>
          simp only [Node.isComplete, Bool.and_eq_true] at hn
          exact h.await hn.2 hn.1.2
  | «return» span value =>
      have hvalue : value.isMissing = true ∨ value.isComplete = true := by
        simpa only [Node.isComplete, Bool.or_eq_true] using hn
      cases value with
      | missing => exact h.goto trivial
      | _ => exact h.await trivial (hvalue.resolve_left (by simp [Node.isMissing]))
  | procedure decl => exact h.goto (Failure.benign_fault fun _ => .inl rfl)
  | _ => exact h.await trivial hn

lemma Prepared.block (h : m.Prepared) {b : Block} (hb : b.isComplete = true) :
    (m.block b).Intact := by
  cases b with
  | missing => simp [Block.isComplete] at hb
  | of span statements =>
      have hstatements : Node.areComplete statements = true := by
        simpa only [Block.isComplete] using hb
      exact h.await hstatements trivial

lemma Prepared.choose (h : m.Prepared) {branches : List Branch}
    (hbranches : Branch.areComplete branches = true) : (m.choose branches).Intact := by
  cases branches with
  | nil => exact h.goto trivial
  | cons branch rest =>
      obtain ⟨cond, body⟩ := branch
      simp only [Branch.areComplete, Bool.and_eq_true, Bool.or_eq_true] at hbranches
      obtain ⟨⟨hcond, hbody⟩, hrest⟩ := hbranches
      cases cond with
      | missing => exact h.goto hbody
      | _ => exact h.await ⟨hbody, hrest⟩ (hcond.resolve_left (by simp [Node.isMissing]))

/-- A call of a procedure runs its body, which is complete. -/
lemma Prepared.call (h : m.Prepared) (name : String) (args : List Value) (site : Span) :
    (m.call name args site).Intact := by
  unfold Machine.call
  split
  · exact h.goto (Failure.benign_fault (by simp))
  · rename_i f hf
    have hfunction := h.functions.get hf
    split
    · exact h.raise (by decide)
    · split
      · unfold invoke
        split
        · exact h.raise (by decide)
        · exact ⟨⟨h.functions, List.forall_mem_cons.mpr ⟨trivial, h.pending⟩⟩, hfunction⟩
      · exact h.await trivial (hfunction args)

/-- A known operator has a result. -/
lemma exists_operate {op : Kind}
    (hop : Kind.operators.contains op = true) (heap : Heap) (a b : Value) :
    ∃ r, Value.operate? heap op a b = some r := by
  cases op with
  | add =>
      unfold Value.operate?
      dsimp only
      split
      · exact ⟨_, rfl⟩
      · exact ⟨_, rfl⟩
  | sub | mul | div | mod | and | or => exact ⟨_, rfl⟩
  | _ => simp [Kind.operators] at hop

lemma Prepared.resume (h : m.Prepared) (v : Value) {p : Pending} (hp : p.Intact) :
    (m.resume v p).Intact := by
  cases p with
  | binaryRight span op right => exact h.await hp.1 hp.2
  | binaryApply span op left =>
      obtain ⟨r, hr⟩ := exists_operate hp m.heap left v
      simp only [Machine.resume, hr]
      exact h.goto trivial
  | relationRight span op right => exact h.await hp.1 hp.2
  | relationApply span op left =>
      obtain ⟨r, hr⟩ := Option.isSome_iff_exists.mp hp
      simp only [Machine.resume, hr]
      exact h.goto trivial
  | element span name => exact h.readElement span name v
  | items done rest =>
      cases rest with
      | nil => exact h.makeList _
      | cons item rest =>
          simp only [Pending.Intact, Node.areComplete, Bool.and_eq_true] at hp
          exact h.await hp.2 hp.1
  | args site name done rest =>
      cases rest with
      | nil => exact h.goto trivial
      | cons arg rest =>
          simp only [Pending.Intact, Node.areComplete, Bool.and_eq_true] at hp
          exact h.await hp.2 hp.1
  | targetIndex span name value =>
      unfold Machine.resume
      dsimp only
      split
      · exact h.raise (by decide)
      · exact h.await trivial hp
  | assign target => exact h.commit v target
  | timesCount span body =>
      unfold Machine.resume
      dsimp only
      split
      · exact h.raise (by decide)
      · exact h.await hp trivial
  | untilTest cond body =>
      unfold Machine.resume
      dsimp only
      split
      · exact h.goto trivial
      · exact h.await hp hp.2
  | arm body rest =>
      unfold Machine.resume
      dsimp only
      split
      · exact h.goto hp.1
      · exact h.goto hp.2
  | eachSource span var body =>
      cases v with
      | list id => exact h.await hp trivial
      | _ => exact h.raise (by decide)
  | reenter site depth next =>
      -- leaves make no calls, so none waits for the result of one
      exact hp.elim
  | _ => exact h.goto trivial

lemma Prepared.iterate (h : m.Prepared) (cancelled : Bool) {p : Pending} {c : Control}
    (hp : p.Intact) (hc : c.Intact) : (m.iterate cancelled p c).Intact := by
  unfold Machine.iterate
  split
  · exact h.goto Failure.benign_stopped
  · exact h.await hp hc

lemma Prepared.proceed (h : m.Prepared) (cancelled : Bool) (c : Completion) {p : Pending}
    (hp : p.Intact) : (m.proceed cancelled c p).Intact := by
  cases p with
  | leave outer => exact ⟨⟨h.functions, h.pending⟩, trivial⟩
  | invocation => exact ⟨⟨h.functions, h.pending⟩, trivial⟩
  | sequence rest =>
      cases c with
      | returned v => exact h.goto trivial
      | next =>
          cases rest with
          | nil => exact h.goto trivial
          | cons n rest =>
              simp only [Pending.Intact, Node.areComplete, Bool.and_eq_true] at hp
              exact h.await hp.2 hp.1
  | times i count body =>
      cases c with
      | returned v => exact h.goto trivial
      | next =>
          unfold Machine.proceed
          dsimp only
          split
          · exact h.iterate _ hp hp
          · exact h.goto trivial
  | «until» cond body =>
      cases c with
      | returned v => exact h.goto trivial
      | next => exact h.iterate _ hp hp.1
  | each var cursor i body =>
      cases c with
      | returned v => exact h.goto trivial
      | next =>
          unfold Machine.proceed
          dsimp only
          split
          · exact h.goto trivial
          · split
            · exact h.goto Failure.benign_stopped
            · exact ⟨⟨h.functions, List.forall_mem_cons.mpr ⟨hp, h.pending⟩⟩, hp⟩
  | _ =>
      cases c with
      | returned v => exact h.goto trivial
      | next => exact h.goto trivial

/-- A failure stays benign on its way up. -/
lemma benign_hostFailure (name : String) (site : Span) {e : Failure} (he : e.Benign) :
    (hostFailure name site e).Benign := by
  unfold hostFailure
  split
  · exact he
  · exact Failure.benign_fault (by simp)

lemma Prepared.unwind (h : m.Prepared) {e : Failure} (he : e.Benign)
    (hc : m.control = .fail e) {p : Pending} (hp : p.Intact) : (m.unwind e p).Intact := by
  have hsame : m.Intact := ⟨⟨h.functions, h.pending⟩, by rw [hc]; exact he⟩
  cases p with
  | hostCall name site depth => exact h.goto (benign_hostFailure name site he)
  | reenter site depth next => exact hp.elim
  | _ => exact hsame

end Machine

/-! ### The builtin functions -/

namespace Action

lemma Modest.bind {α β : Type} {a : Action α} {f : α → Action β} (ha : a.Modest)
    (hf : ∀ v, (f v).Modest) : (a.bind f).Modest := by
  induction ha with
  | pure v => exact hf v
  | fail he => exact .fail he
  | ask hq _ ih => exact .ask hq ih

end Action

namespace Builtins

lemma modest_error (text : String) : (Action.error text : Action Value).Modest :=
  .fail (Failure.benign_host _)

lemma modest_fault {kind : FaultKind} {detail : String} (hkind : kind ≠ .invalidOperation) :
    (Action.fault kind detail : Action Value).Modest :=
  .ask rfl fun _ => .fail (Failure.benign_fault fun heq => absurd heq hkind)

lemma modest_withList (name what : String) (args : List Value)
    {next : ListId → List Value → Action Value} (h : ∀ id rest, (next id rest).Modest) :
    (withList name what args next).Modest := by
  unfold withList
  split
  · exact h _ _
  · exact modest_fault (by decide)

lemma modest_display (args : List Value) : (display args).Modest := by
  refine .ask rfl fun h => .ask rfl fun e => ?_
  refine Action.Modest.bind ?_ fun _ => .pure _
  cases e with
  | none => exact .pure _
  | some e => exact .fail (Failure.benign_host _)

lemma modest_input (args : List Value) : (input args).Modest := by
  refine .ask rfl fun h => .ask rfl fun line => ?_
  cases line with
  | ok line => exact .pure _
  | error e => exact .fail (Failure.benign_host _)

lemma modest_random (args : List Value) : (random args).Modest := by
  unfold random
  split
  · split
    · exact modest_error _
    · exact .ask rfl fun k => .pure _
  · exact modest_fault (by decide)

lemma modest_length (args : List Value) : (length args).Modest :=
  modest_withList _ _ _ fun _ _ => .ask rfl fun _ => .pure _

lemma modest_append (args : List Value) : (append args).Modest := by
  refine modest_withList _ _ _ fun id rest => ?_
  cases rest with
  | nil => exact modest_error _
  | cons v _ => exact .ask rfl fun _ => .pure _

lemma modest_insert (args : List Value) : (insert args).Modest := by
  refine modest_withList _ _ _ fun id rest => ?_
  cases rest with
  | nil => exact modest_error _
  | cons p rest =>
      refine .ask rfl fun h => ?_
      split
      · exact modest_fault (by decide)
      · exact modest_error _
      · exact .ask rfl fun _ => .pure _

lemma modest_remove (args : List Value) : (remove args).Modest := by
  refine modest_withList _ _ _ fun id rest => ?_
  cases rest with
  | nil => exact modest_error _
  | cons p rest =>
      refine .ask rfl fun h => ?_
      split
      · exact modest_fault (by decide)
      · exact .ask rfl fun _ => .pure _

/-- The builtin functions do not break down, and they report no invalid operation. -/
theorem modest_plugin : ∀ f ∈ plugin.functions, ∀ args, (f.2 args).Modest := by
  intro f hf
  simp only [plugin, List.mem_cons, List.not_mem_nil, or_false] at hf
  rcases hf with rfl | rfl | rfl | rfl | rfl | rfl | rfl
  · exact modest_display
  · exact modest_input
  · exact modest_random
  · exact modest_length
  · exact modest_append
  · exact modest_insert
  · exact modest_remove

end Builtins

/-! ### Runs -/

namespace Session

open Machine

variable {s : Session}

lemma intact_reach (h : s.machine.Prepared) {n : Node} (hn : n.isComplete = true) :
    (s.reach n).machine.Intact := by
  -- whatever is counted, the boundary adds a task that any machine may have
  have hprepared : ∀ steps, (s.arrived n steps).machine.Prepared :=
    fun _ => ⟨h.functions, List.forall_mem_cons.mpr ⟨trivial, h.pending⟩⟩
  have harrival := s.arrival n
  generalize s.reach n = t at harrival ⊢
  cases harrival with
  | missing absent =>
      cases n with
      | missing => simp [Node.isComplete] at hn
      | _ => simp [Node.isMissing] at absent
  | excess present exceeded => exact (hprepared _).raise (by decide)
  | told counted cancelled => exact (hprepared _).goto Failure.benign_stopped
  | admitted counted cancelled => exact (hprepared _).goto hn

lemma intact_boundary (h : s.machine.Prepared) {n : Node} {p : Standing}
    (hc : s.machine.control = .boundary p n) (hn : n.isComplete = true) :
    s.proceed.machine.Intact := by
  cases p with
  | admitted =>
      have hheeding := heeding_proceed hc
      generalize s.proceed = t at hheeding ⊢
      cases hheeding with
      | _ => exact h.goto hn
  | throttled =>
      rw [proceed_throttled hc]
      split
      · exact h.goto Failure.benign_stopped
      · exact h.goto hn
  | delayed =>
      rw [proceed_delayed hc]
      split
      · exact h.goto Failure.benign_stopped
      · exact h.goto hn
  | paused =>
      have hwaking := waking_proceed hc
      generalize s.proceed = t at hwaking ⊢
      cases hwaking with
      | polls wait | waits wait => exact ⟨h, by rw [hc]; exact hn⟩
      | begun wait => exact h.goto hn
      | told wait => exact h.goto Failure.benign_stopped

/-- A modest function of the host goes on modestly. -/
lemma intact_act (h : s.machine.Prepared) {site : Span} {a : Action Value} (ha : a.Modest) :
    (s.act site a).machine.Intact := by
  cases ha with
  | pure v => exact h.goto trivial
  | fail he => exact h.goto he
  | @ask q next hq hnext =>
      cases q with
      | call _ _ | cancelled | stop | resume _ | status | snapshot | speed | setSpeed _ | hold =>
          simp [Request.isLeaf] at hq
      | _ => exact ⟨⟨h.functions, h.pending⟩, hnext _⟩

lemma intact_finishCompleted (h : s.machine.Prepared) (c : Completion) :
    (s.finishCompleted c).machine.Intact := by
  cases c with
  | returned v => exact h.goto trivial
  | next =>
      simp only [finishCompleted]
      split
      · exact h.goto trivial
      · exact h.goto trivial

lemma intact_finishFailed (h : s.machine.Prepared) {e : Failure} (he : e.Benign) :
    (s.finishFailed e).machine.Intact := by
  unfold finishFailed
  split
  · exact h.goto trivial
  · exact ⟨⟨h.functions, h.pending⟩, he⟩

lemma intact_finish (h : s.machine.Prepared) {o : Outcome} (ho : (Control.ending o).Intact) :
    (s.finish o).machine.Intact := by
  cases o with
  | failed e span => exact h.goto (c := .ended (.failed e span)) ho
  | completed v => exact h.goto (c := .ended (.completed v)) trivial
  | stopped => exact h.goto (c := .ended .stopped) trivial

/-- A result is handed to an intact task, or ends the run. -/
lemma intact_withTask (h : s.machine.Prepared) {next : Machine → Pending → Machine}
    {last : Session → Session} (hlast : (last s).machine.Intact)
    (hnext : ∀ p rest, Prepared { s.machine with pending := rest } → p.Intact →
      (next { s.machine with pending := rest } p).Intact) :
    (s.withTask next last).machine.Intact := by
  cases hp : s.machine.pending with
  | nil =>
      rw [withTask_nil hp]
      exact hlast
  | cons p rest =>
      rw [withTask_cons hp]
      have hpending := h.pending
      rw [hp, List.forall_mem_cons] at hpending
      exact hnext p rest ⟨h.functions, hpending.2⟩ hpending.1

/-- A run that is intact stays so when it goes on. -/
theorem intact_proceed (h : s.machine.Intact) : s.proceed.machine.Intact := by
  have hprepared := h.toPrepared
  have hcontrol := h.control
  cases hc : s.machine.control with
  | idle | ended _ =>
      simp only [Session.proceed, hc]
      exact h
  | ending o =>
      rw [hc] at hcontrol
      simp only [Session.proceed, hc]
      exact intact_finish hprepared hcontrol
  | held _ _ | crash _ =>
      rw [hc] at hcontrol
      exact hcontrol.elim
  | value v =>
      rw [proceed_value hc]
      exact intact_withTask hprepared (intact_finishCompleted hprepared _) fun p rest hrest hp =>
        hrest.resume v hp
  | complete c =>
      rw [proceed_complete hc]
      exact intact_withTask hprepared (intact_finishCompleted hprepared _) fun p rest hrest hp =>
        hrest.proceed _ c hp
  | fail e =>
      rw [hc] at hcontrol
      rw [proceed_fail hc]
      exact intact_withTask hprepared (intact_finishFailed hprepared hcontrol)
        fun p rest hrest hp => hrest.unwind hcontrol hc hp
  | call name args site =>
      simp only [Session.proceed, hc]
      exact hprepared.call name args site
  | eval n =>
      rw [hc] at hcontrol
      simp only [Session.proceed, hc]
      exact hprepared.eval hcontrol
  | exec n =>
      rw [hc] at hcontrol
      simp only [Session.proceed, hc]
      exact hprepared.exec hcontrol
  | block b =>
      rw [hc] at hcontrol
      simp only [Session.proceed, hc]
      exact hprepared.block hcontrol
  | choose branches =>
      rw [hc] at hcontrol
      simp only [Session.proceed, hc]
      exact hprepared.choose hcontrol
  | reach n =>
      rw [hc] at hcontrol
      simp only [Session.proceed, hc]
      exact intact_reach hprepared hcontrol
  | boundary p n =>
      rw [hc] at hcontrol
      exact intact_boundary hprepared hc hcontrol
  | host site a =>
      rw [hc] at hcontrol
      simp only [Session.proceed, hc]
      exact intact_act hprepared hcontrol

/-- So does it at a step, if the observer does not break down. -/
lemma intact_step (h : s.machine.Intact) (hook : s.controller.fragile = false) :
    s.step.machine.Intact :=
  step_cases (P := fun t => t.machine.Intact) (fun _ _ => h)
    (fun _ hfalters => by simp [falters, hook] at hfalters) fun _ => intact_proceed h

lemma intact_happen (h : s.machine.Intact) (hook : s.controller.fragile = false) (e : Event) :
    (s.happen e).machine.Intact := by
  by_cases he : e = .step
  · rw [he]
    exact intact_step h hook
  · rcases happen_command s he with heq | ⟨site, next, hheld, -⟩
    · rw [heq]
      exact h
    · have hcontrol := h.control
      rw [hheld] at hcontrol
      exact hcontrol.elim

lemma intact_after (h : s.machine.Intact) (hs : Sound s.machine)
    (hook : s.controller.fragile = false) (es : List Event) : (s.after es).machine.Intact := by
  induction es generalizing s with
  | nil => exact h
  | cons e es ih =>
      exact ih (intact_happen h hook e) (sound_happen hs e) ((fragile_happen hs e).trans hook)

/-- The run of a complete program with the builtin functions is intact when it begins. -/
lemma intact_launch {s₀ : Session} {program : Program} {l : Launch}
    (hprogram : program.isComplete = true)
    (hl : ∀ p ∈ l.plugins, ∀ f ∈ p.functions, f ∈ Builtins.plugin.functions)
    (h : s₀.launch program l = .ok s) : s.machine.Intact := by
  simp only [Program.isComplete, Bool.and_eq_true, List.all_eq_true] at hprogram
  have hdeclared : ∀ q, some q ∈ program.procedures → ∀ params,
      (Function.declared params q.body).Intact := by
    intro q hq params
    obtain ⟨span, name, params', body⟩ := q
    have hcomplete := hprogram.2 _ hq
    simp only [Option.any_some, Procedure.isComplete, Bool.and_eq_true] at hcomplete
    exact hcomplete.2
  have hfunctions := all_functions_launch (P := Function.Intact)
    (fun p hp f hf => Builtins.modest_plugin f (hl p hp f hf)) hdeclared h
  obtain ⟨machine, hm, rfl⟩ := launch_eq_ok.mp h
  obtain ⟨functions, -, rfl⟩ := freshMachine_eq_ok hm
  exact ⟨⟨hfunctions, List.forall_mem_cons.mpr ⟨hprogram.1, by simp⟩⟩, trivial⟩

/-- **What a document describes can be run.**  Take the program that a document describes.

* Every session can start it, with whatever functions, variables and random numbers.
* Follow any schedule from the start of a run with the builtin functions, in any session with any
  input and any limits.  The observer does not break down.  Then every failure on its way up, and
  every failure with which the run ends, reports no invalid operation but the declaration of a
  procedure among the statements, or a statement in the place of an expression.  Nothing breaks
  down either. -/
theorem documents_run_intact {o : Document.Outline} {program : Program}
    (hprogram : o.toProgram = .ok program) (s₀ : Session) (l : Launch) :
    ((∀ fuel, (s₀.start fuel (some program) l).2 = none) ∧ ∃ t, s₀.launch program l = .ok t) ∧
    ∀ t, s₀.launch program l = .ok t → t.controller.fragile = false →
      (∀ p ∈ l.plugins, ∀ f ∈ p.functions, f ∈ Builtins.plugin.functions) → ∀ es,
        (∀ e, (t.after es).machine.control = .fail e → e.Benign) ∧
        (∀ text, (t.after es).machine.control ≠ .crash text) ∧
        ∀ e span, (t.after es).outcome? = some (.failed e span) → e.Benign := by
  have hcomplete := Document.Outline.isComplete_toProgram hprogram
  refine ⟨⟨fun fuel => ?_, s₀.exists_launch hcomplete l⟩, fun t ht hook hl es => ?_⟩
  · obtain ⟨t, ht⟩ := (s₀.stop fuel).exists_launch hcomplete l
    simp only [start, ht]
  · have hintact := intact_after (intact_launch hcomplete hl ht) (sound_launch ht) hook es
    have hcontrol := hintact.control
    refine ⟨fun e he => ?_, fun text htext => ?_, fun e span ho => ?_⟩
    · rwa [he] at hcontrol
    · rwa [htext] at hcontrol
    · rwa [outcome?_eq_some.mp ho] at hcontrol

/-- A statement, and an expression of which it is the operand. -/
def restingDraft : Document.Draft := { kind := "pass", span := [2, 3] }

def restlessDraft : Document.Draft := { kind := "negate", operand := some restingDraft }

/-- A document with the statement in the place of the operand. -/
def restless : Document.Outline where
  statements := [some restlessDraft]

/-- The program that it describes. -/
def restlessProgram : Program where
  statements := [.negate (.point 0 0) (.pass (.point 2 3))]

open Document in
lemma toProgram_restless : restless.toProgram = .ok restlessProgram := by
  have hresting : ∀ parent what, required parent what (some restingDraft) =
      .ok (.pass (.point 2 3)) := by
    intro parent what
    rw [required]
    change restingDraft.convert .pass = _
    rw [Draft.convert]
    rfl
  have hrestless : restlessDraft.convert .negate =
      .ok (.negate (.point 0 0) (.pass (.point 2 3))) := by
    rw [Draft.convert]
    simp only [restlessDraft, hresting]
    rfl
  have hstatements : nodes restless.statements = .ok restlessProgram.statements := by
    simp only [restless, nodes]
    change (restlessDraft.convert .negate >>= fun n => pure [n]) = _
    rw [hrestless]
    rfl
  unfold Outline.toProgram
  rw [hstatements]
  rfl

/-- It is accepted, and the run ends with one of the invalid operations that are left. -/
theorem documents_run_intact_restless :
    restless.toProgram = .ok restlessProgram ∧
    ∃ t f span, launch {} restlessProgram { plugins := [Builtins.plugin] } = .ok t ∧
      (t.after (List.replicate 13 .step)).outcome? = some (.failed (.fault f) span) ∧
      f.kind = .invalidOperation ∧ f.detail = "pass is not an expression" ∧
      (Failure.fault f).Benign := by
  have ht : launch {} restlessProgram { plugins := [Builtins.plugin] } =
    .ok (begun restlessProgram { plugins := [Builtins.plugin] }) := rfl
  obtain ⟨-, hrun⟩ := documents_run_intact toProgram_restless {} { plugins := [Builtins.plugin] }
  obtain ⟨-, -, hends⟩ := hrun _ ht rfl (by simp) (List.replicate 13 .step)
  exact ⟨toProgram_restless, _, _, _, ht, rfl, rfl, rfl, hends _ _ rfl⟩

end Session

end Pseudocode
