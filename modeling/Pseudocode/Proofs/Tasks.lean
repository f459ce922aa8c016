/-
# The discipline of pending tasks

Every pending task waits for a result of one kind, and has a result of one kind for the task
below it.  In a run the control and the tasks always agree on these kinds, and the number of
frames is the number of procedure calls that the tasks will leave, plus one for the global
frame.  The exception is a failure on its way up, which finds the frames of the calls it has
passed still in place.

The main results are

* `Machine.Sound`: the agreement between control, tasks and frames;
* `Machine.Plain`: what the evaluation does between two calls, with the lemmas that the
  functions of the machine do nothing else.
-/
import Pseudocode.Proofs.Frames
import Pseudocode.Run.Machine

namespace Pseudocode

/-- What a task waits for: a value, the completion of a statement, or the outcome of a host
function. -/
inductive Due where
  | value | completion | action
deriving DecidableEq, Repr

namespace Pending

/-- The kind of result that a task waits for. -/
def takes : Pending → Due
  | .times _ _ _ | .until _ _ | .each _ _ _ _ | .sequence _ | .leave _ | .invocation =>
      .completion
  | .hostCall _ _ _ => .action
  | _ => .value

/-- The kind of result that a task has for the task below it. -/
def yields : Pending → Due
  | .binaryRight _ _ _ | .binaryApply _ _ _ | .relationRight _ _ _ | .relationApply _ _ _
  | .negate | .not | .element _ _ | .items _ _ | .args _ _ _ _
  | .invocation | .hostCall _ _ _ => .value
  | .reenter _ _ _ => .action
  | _ => .completion

/-- Whether a task is a piece of work inside one statement of one call.  The others mark where
a statement, a call, or a call of a host function begins. -/
def isPlain : Pending → Bool
  | .leave _ | .invocation | .hostCall _ _ _ | .reenter _ _ _ => false
  | _ => true

lemma yields_ne_action {p : Pending} (h : p.isPlain = true) : p.yields ≠ .action := by
  cases p <;> simp_all [isPlain, yields]

lemma takes_ne_action {p : Pending} (h : p.isPlain = true) : p.takes ≠ .action := by
  cases p <;> simp_all [isPlain, takes]

end Pending

/-- The kind of result that the control is about to have, if it is to have one. -/
def Control.due? : Control → Option Due
  | .eval _ | .value _ | .call _ _ _ => some .value
  | .reach _ | .boundary _ _ | .exec _ | .block _ | .choose _ | .complete _ => some .completion
  | .host _ _ | .held _ _ => some .action
  | .idle | .fail _ | .crash _ | .ending _ | .ended _ => none

/-- The same for what the evaluation can turn to by itself.  It is left to the session whether a
statement that has reached its boundary is executed, and to a host function what it does. -/
def Control.plain? : Control → Option Due
  | .boundary _ _ | .exec _ | .host _ _ | .held _ _ => none
  | c => c.due?

lemma Control.due?_of_plain? {c : Control} {d : Due} (h : c.plain? = some d) :
    c.due? = some d := by
  cases c <;> first | exact h | simp [plain?] at h

/-- The same for a piece of work that does not begin with handing something to a task, nor with a
statement at its boundary or a host function. -/
def Control.work? : Control → Option Due
  | .eval _ | .call _ _ _ => some .value
  | .exec _ | .block _ | .choose _ => some .completion
  | _ => none

lemma Control.due?_of_work? {c : Control} {d : Due} (h : c.work? = some d) :
    c.due? = some d ∧ d ≠ .action ∧ ∀ v, c ≠ .value v := by
  cases c <;> simp_all [work?, due?] <;> simp [← h]

/-- The number of frames that belong to tasks: the global one, and one for each procedure that
is to be left. -/
def height : List Pending → Nat
  | [] => 1
  | .invocation :: rest => height rest + 1
  | _ :: rest => height rest

lemma one_le_height (K : List Pending) : 1 ≤ height K := by
  fun_induction height K <;> omega

lemma height_cons_of_isPlain {p : Pending} (h : p.isPlain = true) (K : List Pending) :
    height (p :: K) = height K := by
  cases p <;> first | rfl | simp [Pending.isPlain] at h

lemma height_le_cons (p : Pending) (K : List Pending) : height K ≤ height (p :: K) := by
  cases p <;> simp [height]

/-- Tasks below others belong to no more frames. -/
lemma height_le_of_suffix {K L : List Pending} (h : K <:+ L) : height K ≤ height L := by
  obtain ⟨M, rfl⟩ := h
  induction M with
  | nil => exact Nat.le_refl _
  | cons p M ih => exact Nat.le_trans ih (height_le_cons p (M ++ K))

/-- Tasks that can be handed a result of the given kind: each has a result of the kind that the
next one waits for, and the run as a whole waits for the completion of its last statement.
Tasks that keep a number of frames keep the right one. -/
inductive Fits : Due → List Pending → Prop where
  | nil : Fits .completion []
  | plain {p : Pending} {K : List Pending} (hp : p.isPlain = true) (h : Fits p.yields K) :
      Fits p.takes (p :: K)
  | leave {outer : Span} {K : List Pending} (h : Fits .completion K) :
      Fits .completion (.leave outer :: K)
  | invocation {K : List Pending} (h : Fits .value K) : Fits .completion (.invocation :: K)
  | hostCall {name : String} {site : Span} {K : List Pending} (h : Fits .value K) :
      Fits .action (.hostCall name site (height K) :: K)
  | reenter {site : Span} {next : Except Failure Value → Action Value} {K : List Pending}
      (h : Fits .action K) : Fits .value (.reenter site (height K) next :: K)

/-- Only the call of a host function waits for what a host function does. -/
lemma Fits.exists_hostCall {K : List Pending} (h : Fits .action K) :
    ∃ name site rest, K = .hostCall name site (height rest) :: rest ∧ Fits .value rest := by
  generalize hd : Due.action = d at h
  cases h with
  | nil => simp at hd
  | plain hp _ => exact absurd hd.symm (Pending.takes_ne_action hp)
  | leave _ => simp at hd
  | invocation _ => simp at hd
  | hostCall h => exact ⟨_, _, _, rfl, h⟩
  | reenter _ => simp at hd

/-- The task on top of others that fit waits for a result, and so do the tasks below it. -/
lemma Fits.tail {d : Due} {p : Pending} {K : List Pending} (h : Fits d (p :: K)) :
    p.takes = d ∧ Fits p.yields K := by
  cases h with
  | plain _ h => exact ⟨rfl, h⟩
  | leave h => exact ⟨rfl, h⟩
  | invocation h => exact ⟨rfl, h⟩
  | hostCall h => exact ⟨rfl, h⟩
  | reenter h => exact ⟨rfl, h⟩

/-- The call of a host function keeps the number of frames that belong to the tasks below it. -/
lemma Fits.hostCall_depth {d : Due} {name : String} {site : Span} {depth : Nat}
    {K : List Pending} (h : Fits d (.hostCall name site depth :: K)) : depth = height K := by
  generalize hd : d = d' at h
  cases h with
  | plain hp _ => simp [Pending.isPlain] at hp
  | hostCall _ => rfl

/-- So does the call that a host function makes. -/
lemma Fits.reenter_depth {d : Due} {site : Span} {depth : Nat}
    {next : Except Failure Value → Action Value} {K : List Pending}
    (h : Fits d (.reenter site depth next :: K)) : depth = height K := by
  generalize hd : d = d' at h
  cases h with
  | plain hp _ => simp [Pending.isPlain] at hp
  | reenter _ => rfl

namespace Machine

/-- The agreement between the control, the tasks and the frames of a run. -/
inductive Sound (m : Machine) : Prop where
  /-- Something is being done whose result the tasks wait for. -/
  | active {d : Due} (control : m.control.due? = some d) (fits : Fits d m.pending)
      (depth : m.store.depth = height m.pending)
  /-- A host function hands on its result. -/
  | handing {v : Value} (control : m.control = .value v) (fits : Fits .action m.pending)
      (depth : m.store.depth = height m.pending)
  /-- A failure is on its way up.  The frames of the calls it has passed are still there, but
  none of them when it leaves a host function. -/
  | failing {e : Failure} {d : Due} (control : m.control = .fail e) (fits : Fits d m.pending)
      (depth : height m.pending ≤ m.store.depth)
      (host : d = .action → m.store.depth = height m.pending)
  /-- A breakdown is on its way up. -/
  | broken {text : String} {d : Due} (control : m.control = .crash text)
      (fits : Fits d m.pending) (depth : height m.pending ≤ m.store.depth)
  /-- The run is over, or that is about to be shown. -/
  | ended {o : Outcome} (control : m.control = .ending o ∨ m.control = .ended o)

/-! ### What is done between two calls -/

/-- How the control and the tasks of `m'` come from those of `m`, when something whose result
is of kind `d` goes on. -/
inductive Shape (d : Due) (m m' : Machine) : Prop where
  /-- It fails with a failure of the evaluation. -/
  | fails {e : Failure} (control : m'.control = .fail e) (own : e.isOwn = true)
      (pending : m'.pending = m.pending)
  /-- It goes on to something with the same kind of result. -/
  | goes (control : m'.control.plain? = some d) (pending : m'.pending = m.pending)
  /-- It does something else first and keeps a task for the result. -/
  | awaits {p : Pending} (plain : p.isPlain = true) (yields : p.yields = d)
      (control : m'.control.plain? = some p.takes) (pending : m'.pending = p :: m.pending)

/-- What the evaluation does between two calls: the frames, the current statement, the count of
statements and the functions stay. -/
structure Plain (d : Due) (m m' : Machine) : Prop where
  frames : m'.store.frameIds = m.store.frameIds
  current : m'.current = m.current
  steps : m'.steps = m.steps
  functions : m'.functions = m.functions
  shape : Shape d m m'

lemma Plain.depth {d : Due} {m m' : Machine} (h : Plain d m m') :
    m'.store.depth = m.store.depth := by
  rw [← Store.length_frameIds, h.frames, Store.length_frameIds]

lemma Plain.fails_or_due {d : Due} {m m' : Machine} (h : Plain d m m') :
    (∃ e, m'.control = .fail e) ∨ ∃ d', m'.control.due? = some d' := by
  cases h.shape with
  | fails control _ _ => exact .inl ⟨_, control⟩
  | goes control _ => exact .inr ⟨_, Control.due?_of_plain? control⟩
  | awaits _ _ control _ => exact .inr ⟨_, Control.due?_of_plain? control⟩

/-- What goes on between two calls keeps a machine sound. -/
lemma Plain.sound {d : Due} {m m' : Machine} (h : Plain d m m') (hfits : Fits d m.pending)
    (hdepth : m.store.depth = height m.pending) (hd : d ≠ .action) : Sound m' := by
  cases h.shape with
  | fails control _ pending =>
      refine .failing control (pending ▸ hfits) (Nat.le_of_eq ?_) (fun ha => absurd ha hd)
      rw [pending, h.depth, hdepth]
  | goes control pending =>
      have hdue := Control.due?_of_plain? control
      exact .active hdue (pending ▸ hfits) (by rw [pending, h.depth, hdepth])
  | @awaits p plain yields control pending =>
      refine .active (Control.due?_of_plain? control) ?_ ?_
      · rw [pending]
        exact .plain plain (yields ▸ hfits)
      · rw [pending, height_cons_of_isPlain plain, h.depth, hdepth]

variable {d : Due} (m : Machine)

lemma plain_raise (kind : FaultKind) (detail : String) (span : Span) :
    Plain d m (m.raise kind detail span) :=
  ⟨rfl, rfl, rfl, rfl, .fails rfl rfl rfl⟩

lemma plain_fail {e : Failure} (he : e.isOwn = true) : Plain d m (m.goto (.fail e)) :=
  ⟨rfl, rfl, rfl, rfl, .fails rfl he rfl⟩

lemma plain_goto {c : Control} (h : c.plain? = some d) : Plain d m (m.goto c) :=
  ⟨rfl, rfl, rfl, rfl, .goes h rfl⟩

lemma plain_give (v : Value) : Plain .value m (m.give v) := plain_goto m rfl

lemma plain_finish (c : Completion) : Plain .completion m (m.finish c) := plain_goto m rfl

lemma plain_await {p : Pending} {c : Control} (hp : p.isPlain = true) (hy : p.yields = d)
    (hc : c.plain? = some p.takes) : Plain d m (m.await p c) :=
  ⟨rfl, rfl, rfl, rfl, .awaits hp hy hc rfl⟩

/-! ### Expressions -/

lemma plain_readVariable (span : Span) (name : String) :
    Plain .value m (m.readVariable span name) := by
  unfold readVariable
  split
  · exact plain_give m _
  · exact plain_fail m rfl

lemma plain_makeList (done : List Value) : Plain .value m (m.makeList done) :=
  ⟨rfl, rfl, rfl, rfl, .goes rfl rfl⟩

lemma plain_eval (n : Node) : Plain .value m (m.eval n) := by
  unfold eval
  split
  · exact plain_raise m _ _ _
  · split
    · exact plain_give m _
    · exact plain_raise m _ _ _
  · exact plain_raise m _ _ _
  · exact plain_goto m rfl
  · exact plain_await m rfl rfl rfl
  · exact plain_await m rfl rfl rfl
  · exact plain_await m rfl rfl rfl
  · exact plain_await m rfl rfl rfl
  · exact plain_readVariable m _ _
  · exact plain_raise m _ _ _
  · exact plain_await m rfl rfl rfl
  · exact plain_makeList m _
  · exact plain_await m rfl rfl rfl
  · exact plain_raise m _ _ _
  · exact plain_goto m rfl
  · exact plain_await m rfl rfl rfl
  · exact plain_raise m _ _ _

lemma plain_readElement (span : Span) (name : String) (index : Value) :
    Plain .value m (m.readElement span name index) := by
  unfold readElement
  split
  · exact plain_raise m _ _ _
  · split
    · exact plain_raise m _ _ _
    · split
      · exact plain_give m _
      · exact plain_raise m _ _ _
    · exact plain_raise m _ _ _

/-! ### Assignments -/

lemma plain_writeElement (span : Span) (id : ListId) (p : Int) (v : Value) :
    Plain .completion m (m.writeElement span id p v) := by
  unfold writeElement
  dsimp only
  split
  · exact ⟨rfl, rfl, rfl, rfl, .goes rfl rfl⟩
  · split
    · exact ⟨rfl, rfl, rfl, rfl, .goes rfl rfl⟩
    · exact plain_raise m _ _ _

/-- Looking for a list to write to may bind a name, and changes nothing else that matters here. -/
lemma listForWriting_keeps (name : String) :
    (m.listForWriting name).2.store.frameIds = m.store.frameIds ∧
      (m.listForWriting name).2.current = m.current ∧
      (m.listForWriting name).2.steps = m.steps ∧
      (m.listForWriting name).2.functions = m.functions ∧
      (m.listForWriting name).2.pending = m.pending := by
  unfold listForWriting
  split
  · exact ⟨rfl, rfl, rfl, rfl, rfl⟩
  · exact ⟨Store.frameIds_assign _ _ _, rfl, rfl, rfl, rfl⟩

lemma plain_commit (v : Value) (target : Target) :
    Plain .completion m (m.commit v target) := by
  cases target with
  | «variable» name => exact ⟨Store.frameIds_assign _ _ _, rfl, rfl, rfl, .goes rfl rfl⟩
  | element span name p =>
      obtain ⟨hframes, hcurrent, hsteps, hfunctions, hpending⟩ := listForWriting_keeps m name
      have htrans : ∀ m' : Machine, Plain .completion (m.listForWriting name).2 m' →
          Plain .completion m m' := by
        intro m' h
        refine ⟨h.frames.trans hframes, h.current.trans hcurrent, h.steps.trans hsteps,
          h.functions.trans hfunctions, ?_⟩
        cases h.shape with
        | fails control own pending => exact .fails control own (pending.trans hpending)
        | goes control pending => exact .goes control (pending.trans hpending)
        | awaits plain yields control pending =>
            exact .awaits plain yields control (by rw [pending, hpending])
      unfold commit
      dsimp only
      split
      · rename_i heq
        rw [heq] at htrans
        exact htrans _ (plain_writeElement _ _ _ _ _)
      · rename_i heq
        rw [heq] at htrans
        exact htrans _ (plain_raise _ _ _ _)

lemma plain_assign (target value : Node) : Plain .completion m (m.assign target value) := by
  unfold assign
  split
  · exact plain_await m rfl rfl rfl
  · exact plain_raise m _ _ _
  · exact plain_await m rfl rfl rfl
  · exact plain_raise m _ _ _

/-! ### Statements -/

lemma plain_exec (n : Node) : Plain .completion m (m.exec n) := by
  unfold exec
  split
  · exact plain_finish m _
  · exact plain_assign m _ _
  · exact plain_goto m rfl
  · exact plain_await m rfl rfl rfl
  · exact plain_await m rfl rfl rfl
  · exact plain_goto m rfl
  · exact plain_raise m _ _ _
  · exact plain_await m rfl rfl rfl
  · exact plain_finish m _
  · exact plain_await m rfl rfl rfl
  · exact plain_raise m _ _ _
  · exact plain_raise m _ _ _
  · exact plain_await m rfl rfl rfl

lemma plain_block (b : Block) : Plain .completion m (m.block b) := by
  cases b with
  | missing => exact plain_raise m _ _ _
  | of span statements => exact plain_await m rfl rfl rfl

lemma plain_choose (branches : List Branch) : Plain .completion m (m.choose branches) := by
  unfold choose
  split
  · exact plain_finish m _
  · exact plain_goto m rfl
  · exact plain_await m rfl rfl rfl

/-! ### Passing on results -/

/-- A plain task that waits for a value goes on with it. -/
lemma plain_resume (v : Value) {p : Pending} (hp : p.isPlain = true) (ht : p.takes = .value) :
    Plain p.yields m (m.resume v p) := by
  cases p with
  | binaryRight span op right => exact plain_await m rfl rfl rfl
  | binaryApply span op left =>
      simp only [resume]
      split
      · exact plain_give m _
      · exact plain_raise m _ _ _
  | relationRight span op right => exact plain_await m rfl rfl rfl
  | relationApply span op left =>
      simp only [resume]
      split
      · exact plain_give m _
      · exact plain_raise m _ _ _
  | negate => exact plain_give m _
  | not => exact plain_give m _
  | element span name => exact plain_readElement m _ _ _
  | items done rest =>
      cases rest with
      | nil => exact plain_makeList m _
      | cons item rest => exact plain_await m rfl rfl rfl
  | args site name done rest =>
      cases rest with
      | nil => exact plain_goto m rfl
      | cons arg rest => exact plain_await m rfl rfl rfl
  | targetIndex span name value =>
      simp only [resume]
      split
      · exact plain_raise m _ _ _
      · exact plain_await m rfl rfl rfl
  | assign target => exact plain_commit m v target
  | discard => exact plain_finish m _
  | returned => exact plain_finish m _
  | timesCount span body =>
      simp only [resume]
      split
      · exact plain_raise m _ _ _
      · exact plain_await m rfl rfl rfl
  | untilTest cond body =>
      simp only [resume]
      split
      · exact plain_finish m _
      · exact plain_await m rfl rfl rfl
  | arm body rest =>
      simp only [resume]
      split
      · exact plain_goto m rfl
      · exact plain_goto m rfl
  | eachSource span var body =>
      simp only [resume]
      split
      · exact plain_await m rfl rfl rfl
      · exact plain_raise m _ _ _
  | times _ _ _ | «until» _ _ | each _ _ _ _ | sequence _ => simp [Pending.takes] at ht
  | leave _ | invocation | hostCall _ _ _ | reenter _ _ _ => simp [Pending.isPlain] at hp

lemma plain_iterate (cancelled : Bool) {p : Pending} {c : Control} (hp : p.isPlain = true)
    (hy : p.yields = d) (hc : c.plain? = some p.takes) :
    Plain d m (m.iterate cancelled p c) := by
  unfold iterate
  split
  · exact plain_fail m rfl
  · exact plain_await m hp hy hc

/-- A plain task that waits for the completion of a statement goes on after it. -/
lemma plain_proceed (cancelled : Bool) (c : Completion) {p : Pending} (hp : p.isPlain = true)
    (ht : p.takes = .completion) : Plain p.yields m (m.proceed cancelled c p) := by
  cases p with
  | sequence rest =>
      cases c with
      | returned v => exact plain_finish m _
      | next =>
          cases rest with
          | nil => exact plain_finish m _
          | cons n rest => exact plain_await m rfl rfl rfl
  | times i count body =>
      cases c with
      | returned v => exact plain_finish m _
      | next =>
          simp only [proceed]
          split
          · exact plain_iterate m cancelled rfl rfl rfl
          · exact plain_finish m _
  | «until» cond body =>
      cases c with
      | returned v => exact plain_finish m _
      | next => exact plain_iterate m cancelled rfl rfl rfl
  | each var cursor i body =>
      cases c with
      | returned v => exact plain_finish m _
      | next =>
          simp only [proceed]
          split
          · exact plain_finish m _
          · split
            · exact plain_fail m rfl
            · refine ⟨Store.frameIds_assign _ _ _, rfl, rfl, rfl, ?_⟩
              exact .awaits (p := .each var cursor (i + 1) body) rfl rfl rfl rfl
  | leave _ | invocation | hostCall _ _ _ | reenter _ _ _ => simp [Pending.isPlain] at hp
  | _ => simp [Pending.takes] at ht

end Machine

end Pseudocode
