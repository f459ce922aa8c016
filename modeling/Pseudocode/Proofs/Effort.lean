/-
# What there is to do before the next statement

The evaluation of an expression, and the execution of a statement up to the boundary of the next
one, take a number of steps that the program bounds: each part of the tree is gone through once.  A
conditional or counted loop goes round without an end to it, but if its body is not empty, each
round begins a statement.  A loop over a list may have an empty body, but it has at most as many
rounds as the list had elements when it began.

So what there is to do is measured by an effort, which counts the parts of the tree that are not
gone through yet, and by a slack, which counts the elements not looped over yet and the tasks.  The
statements that a task will begin do not count, and when a run is about to come to the boundary of
a statement nothing else counts.

The main results are

* `Machine.spends_eval`, `Machine.spends_exec`, `Machine.spends_resume`, `Machine.spends_proceed`:
  what the functions of the machine go on to takes less effort, or as much effort and less slack,
  than what they were called for.
-/
import Pseudocode.Proofs.Limits

namespace Pseudocode

/-! ### Loops that do something -/

/-- Whether a block is present and has no statements. -/
def Block.isEmpty : Block → Bool
  | .of _ [] => true
  | _ => false

mutual

/-- Whether no counted or conditional loop among the statements of a node has an empty body. -/
def Node.busy : Node → Bool
  | .block b => b.busy
  | .repeatTimes _ _ body => !body.isEmpty && body.busy
  | .repeatUntil _ _ body => !body.isEmpty && body.busy
  | .ifElse _ branches => Branch.busyAll branches
  | .forEach _ _ _ body => body.busy
  | _ => true

def Block.busy : Block → Bool
  | .missing => true
  | .of _ statements => Node.busyAll statements

def Node.busyAll : List Node → Bool
  | [] => true
  | n :: rest => n.busy && Node.busyAll rest

def Branch.busyAll : List Branch → Bool
  | [] => true
  | .of _ body :: rest => body.busy && Branch.busyAll rest

end

/-- Whether no counted or conditional loop of a program has an empty body. -/
def Program.busy (p : Program) : Bool :=
  Node.busyAll p.statements &&
    p.procedures.all fun
      | some q => q.body.busy
      | none => true

/-- The loops of a function are busy. -/
def Function.Busy : Function → Prop
  | .host _ _ => True
  | .declared _ body => body.busy = true

/-- The loops of what is being done are busy. -/
def Control.Busy : Control → Prop
  | .reach n | .boundary _ n | .exec n => n.busy = true
  | .block b => b.busy = true
  | .choose branches => Branch.busyAll branches = true
  | _ => True

lemma Control.busy_of_isResult {c : Control} (h : c.isResult = true) : c.Busy := by
  cases c with
  | value _ | complete _ | fail _ | crash _ => trivial
  | _ => simp [isResult] at h

/-- The loops of what remains to be done are busy, and so is the task if it is one. -/
def Pending.Busy : Pending → Prop
  | .timesCount _ body | .times _ _ body | .until _ body | .untilTest _ body =>
      body.isEmpty = false ∧ body.busy = true
  | .arm body rest => body.busy = true ∧ Branch.busyAll rest = true
  | .eachSource _ _ body | .each _ _ _ body => body.busy = true
  | .sequence rest => Node.busyAll rest = true
  | _ => True

/-! ### How much there is to do before the next statement -/

mutual

/-- A bound on what there is to do for an expression, or for a statement up to the next boundary,
apart from the calls in it. -/
def Node.cost : Node → Nat
  | .assignment _ target value => target.cost + value.cost + 1
  | .group _ inner => inner.cost + 1
  | .binary _ _ left right => left.cost + right.cost + 2
  | .negate _ operand => operand.cost + 1
  | .not _ operand => operand.cost + 1
  | .relation _ _ left right => left.cost + right.cost + 2
  | .element _ _ index => index.cost + 1
  | .list _ items => Node.costs items + 1
  | .call _ _ args => Node.costs args + 3
  | .repeatTimes _ count _ => count.cost + 1
  | .repeatUntil _ cond _ => cond.cost + 2
  | .ifElse _ branches => Branch.costs branches + 1
  | .forEach _ _ source _ => source.cost + 1
  | .return _ value => value.cost + 1
  | _ => 1

def Node.costs : List Node → Nat
  | [] => 0
  | n :: rest => n.cost + Node.costs rest + 1

def Branch.costs : List Branch → Nat
  | [] => 0
  | .of cond _ :: rest => cond.cost + Branch.costs rest + 2

end

/-- How many steps a statement is away from its execution that does not wait for a token. -/
def Standing.effort : Standing → Nat
  | .admitted => 3
  | .throttled => 2
  | .delayed => 1
  | .paused => 0

def Control.effort : Control → Nat
  | .eval n => n.cost
  | .boundary p n => n.cost + 1 + p.effort
  | .exec n => n.cost + 1
  | .choose branches => Branch.costs branches + 1
  | .call _ _ _ => 2
  | .host _ _ => 1
  | _ => 0

/-- What a task adds to the effort; the statements that it will begin are not counted. -/
def Pending.effort : Pending → Nat
  | .binaryRight _ _ right | .relationRight _ _ right => right.cost + 1
  | .items _ rest => Node.costs rest + 1
  | .args _ _ _ rest => Node.costs rest + 3
  | .targetIndex _ _ value => value.cost + 1
  | .timesCount _ _ | .eachSource _ _ _ | .untilTest _ _ => 1
  | .until cond _ => cond.cost + 2
  | .arm _ rest => Branch.costs rest + 2
  | _ => 0

def Control.slack : Control → Nat
  | .ended _ => 0
  | .block _ => 3
  | _ => 1

lemma Control.effort_of_isResult {c : Control} (h : c.isResult = true) :
    c.effort = 0 ∧ c.slack = 1 := by
  cases c with
  | value _ | complete _ | fail _ | crash _ => exact ⟨rfl, rfl⟩
  | _ => simp [isResult] at h

/-- A loop over a list may go round without a statement, but only as often as the list is long. -/
def Pending.slack : Pending → Nat
  | .each _ cursor i _ => 4 * (cursor.length - i) + 1
  | _ => 1

lemma Pending.one_le_slack (p : Pending) : 1 ≤ p.slack := by
  cases p with
  | each _ _ _ _ => exact Nat.succ_le_succ (Nat.zero_le _)
  | _ => exact Nat.le_refl 1

/-- The efforts of tasks, all together. -/
def efforts : List Pending → Nat
  | [] => 0
  | p :: K => p.effort + efforts K

def slacks : List Pending → Nat
  | [] => 0
  | p :: K => p.slack + slacks K

@[simp] lemma efforts_cons (p : Pending) (K : List Pending) :
    efforts (p :: K) = p.effort + efforts K := rfl

@[simp] lemma slacks_cons (p : Pending) (K : List Pending) :
    slacks (p :: K) = p.slack + slacks K := rfl

/-- How many steps a run is away from the boundary of a statement, if it is on the way there
whatever is pending.  A run that fails is closer still, and one that is over closest. -/
def near? : Control → List Pending → Option Nat
  | .ending _, _ | .ended _, _ => some 0
  | .fail _, _ | .crash _, _ => some 1
  | .reach _, _ => some 2
  | .block .missing, _ => some 2
  | .complete .next, .sequence (_ :: _) :: _ => some 3
  | .block (.of _ (_ :: _)), _ => some 4
  | _, _ => none

lemma near?_le {c : Control} {K : List Pending} {k : Nat} (h : near? c K = some k) : k ≤ 4 := by
  unfold near? at h
  split at h
  all_goals simp at h
  all_goals omega

/-- After a statement the run is near the boundary of the next one in the block, if there is one. -/
lemma near?_complete {c : Completion} {p : Pending} {K : List Pending} {k : Nat}
    (h : near? (.complete c) (p :: K) = some k) :
    c = .next ∧ ∃ n rest, p = .sequence (n :: rest) := by
  cases c with
  | returned v => simp [near?] at h
  | next =>
      cases p with
      | sequence rest =>
          cases rest with
          | nil => simp [near?] at h
          | cons n rest => exact ⟨rfl, n, rest, rfl⟩
      | _ => simp [near?] at h

lemma near?_block {b : Block} (h : b.isEmpty = false) (K : List Pending) :
    ∃ k, near? (.block b) K = some k := by
  cases b with
  | missing => exact ⟨2, rfl⟩
  | of span statements =>
      cases statements with
      | nil => simp [Block.isEmpty] at h
      | cons n rest => exact ⟨4, rfl⟩

lemma Cursor.lt_of_read? {c : Cursor} {h : Heap} {i : Nat} {v : Value}
    (hv : c.read? h i = some v) : i < c.length := by
  unfold read? at hv
  split at hv
  · assumption
  · simp at hv

namespace Machine

/-- How much there is to do before the next statement reaches its boundary. -/
def effort (m : Machine) : Nat :=
  (near? m.control m.pending).getD (5 + (m.control.effort + efforts m.pending))

def slack (m : Machine) : Nat := m.control.slack + slacks m.pending

lemma effort_le (m : Machine) : m.effort ≤ 5 + (m.control.effort + efforts m.pending) := by
  unfold effort
  cases h : near? m.control m.pending with
  | none => exact Nat.le_refl _
  | some k =>
      have hk := near?_le h
      simp only [Option.getD_some]
      omega

lemma effort_lt_of_near? {m : Machine} {k : Nat} (h : near? m.control m.pending = some k) :
    m.effort < 5 := by
  have hk := near?_le h
  simp only [effort, h, Option.getD_some]
  omega

variable {m m' : Machine} {a l : Nat}

/-- The machine `m'` has less to do than `m` together with something else that has the effort `a`
and the slack `l`, and its loops are busy. -/
structure Spends (a l : Nat) (m m' : Machine) : Prop where
  control : m'.control.Busy
  pending : ∀ p ∈ m'.pending, p.Busy
  less : m'.effort < 5 + (a + efforts m.pending) ∨
    m'.effort ≤ 5 + (a + efforts m.pending) ∧ m'.slack < l + slacks m.pending

section

variable (hK : ∀ p ∈ m.pending, p.Busy)

include hK

lemma spends_fail {e : Failure} (hc : m'.control = .fail e) (hp : m'.pending = m.pending) :
    Spends a l m m' := by
  refine ⟨by rw [hc]; trivial, hp ▸ hK, .inl ?_⟩
  have hnear : near? m'.control m'.pending = some 1 := by rw [hc]; rfl
  have hlt := effort_lt_of_near? hnear
  omega

lemma spends_raise (kind : FaultKind) (detail : String) (span : Span) :
    Spends a l m (m.raise kind detail span) := spends_fail hK rfl rfl

/-- It goes on to something that takes less effort. -/
lemma spends_goes (hp : m'.pending = m.pending) (hc : m'.control.Busy)
    (hlt : m'.control.effort < a) : Spends a l m m' := by
  refine ⟨hc, hp ▸ hK, .inl ?_⟩
  have hle := effort_le m'
  rw [hp] at hle
  omega

/-- It hands on a result to the task below. -/
lemma spends_hands (hl : 1 < l) (hp : m'.pending = m.pending)
    (hc : m'.control.isResult = true) : Spends a l m m' := by
  obtain ⟨heffort, hslack⟩ := Control.effort_of_isResult hc
  refine ⟨Control.busy_of_isResult hc, hp ▸ hK, .inr ⟨?_, ?_⟩⟩
  · have hle := effort_le m'
    rw [hp] at hle
    omega
  · simp only [slack, hp]
    omega

/-- It does something else first, and both together take less effort. -/
lemma spends_awaits {p : Pending} (hp : m'.pending = p :: m.pending) (hpbusy : p.Busy)
    (hc : m'.control.Busy) (hlt : m'.control.effort + p.effort < a) : Spends a l m m' := by
  refine ⟨hc, hp ▸ List.forall_mem_cons.mpr ⟨hpbusy, hK⟩, .inl ?_⟩
  have hle := effort_le m'
  rw [hp, efforts_cons] at hle
  omega

/-- A loop that is busy begins its body. -/
lemma spends_begins {p : Pending} {b : Block} (hc : m'.control = .block b)
    (hp : m'.pending = p :: m.pending) (hpbusy : p.Busy)
    (hb : b.isEmpty = false ∧ b.busy = true) : Spends a l m m' := by
  refine ⟨by rw [hc]; exact hb.2, hp ▸ List.forall_mem_cons.mpr ⟨hpbusy, hK⟩, .inl ?_⟩
  obtain ⟨k, hk⟩ := near?_block hb.1 m'.pending
  rw [← hc] at hk
  have hlt := effort_lt_of_near? hk
  omega

end

/-! ### What the functions of the machine spend -/

section

variable (m) (hK : ∀ p ∈ m.pending, p.Busy)

include hK

lemma spends_readVariable (span : Span) (name : String) :
    Spends (a + 1) l m (m.readVariable span name) := by
  unfold readVariable
  split
  · exact spends_goes hK rfl trivial (Nat.succ_pos a)
  · exact spends_fail hK rfl rfl

lemma spends_eval (n : Node) : Spends n.cost l m (m.eval n) := by
  -- each part of an expression costs less than the whole
  have hfirst : ∀ {p : Pending} {n' : Node}, p.Busy → n'.cost + p.effort < n.cost →
      Spends n.cost l m (m.await p (.eval n')) :=
    fun hp hlt => spends_awaits hK rfl hp trivial hlt
  unfold eval
  split
  · exact spends_raise hK _ _ _
  · split
    · exact spends_goes hK rfl trivial Nat.zero_lt_one
    · exact spends_raise hK _ _ _
  · exact spends_raise hK _ _ _
  · exact spends_goes hK rfl trivial (Nat.lt_succ_self _)
  · refine hfirst trivial ?_
    simp only [Pending.effort, Node.cost]
    omega
  · exact hfirst trivial (Nat.lt_succ_self _)
  · exact hfirst trivial (Nat.lt_succ_self _)
  · refine hfirst trivial ?_
    simp only [Pending.effort, Node.cost]
    omega
  · exact spends_readVariable m hK _ _
  · exact spends_raise hK _ _ _
  · exact hfirst trivial (Nat.lt_succ_self _)
  · exact spends_goes hK rfl trivial (Nat.succ_pos _)
  · refine hfirst trivial ?_
    simp only [Pending.effort, Node.cost, Node.costs]
    omega
  · exact spends_raise hK _ _ _
  · refine spends_goes hK rfl trivial ?_
    simp only [goto, Control.effort, Node.cost]
    omega
  · refine hfirst trivial ?_
    simp only [Pending.effort, Node.cost, Node.costs]
    omega
  · exact spends_raise hK _ _ _

lemma spends_assign (target value : Node) :
    Spends (target.cost + value.cost + 2) l m (m.assign target value) := by
  unfold assign
  split
  · refine spends_awaits hK rfl trivial trivial ?_
    simp only [await, Control.effort, Pending.effort]
    omega
  · exact spends_raise hK _ _ _
  · refine spends_awaits hK rfl trivial trivial ?_
    simp only [await, Control.effort, Pending.effort, Node.cost]
    omega
  · exact spends_raise hK _ _ _

lemma spends_exec {n : Node} (hn : n.busy = true) : Spends (n.cost + 1) l m (m.exec n) := by
  have hfirst : ∀ {p : Pending} {n' : Node}, p.Busy → n'.cost + p.effort < n.cost + 1 →
      Spends (n.cost + 1) l m (m.await p (.eval n')) :=
    fun hp hlt => spends_awaits hK rfl hp trivial hlt
  unfold exec
  split
  · exact spends_goes hK rfl trivial (Nat.succ_pos _)
  · exact spends_assign m hK _ _
  · simp only [Node.busy] at hn
    exact spends_goes hK rfl hn (Nat.succ_pos _)
  · simp only [Node.busy, Bool.and_eq_true, Bool.not_eq_true'] at hn
    exact hfirst hn (Nat.lt_succ_self _)
  · simp only [Node.busy, Bool.and_eq_true, Bool.not_eq_true'] at hn
    refine spends_awaits hK rfl hn trivial ?_
    simp only [await, Control.effort, Pending.effort, Node.cost]
    omega
  · simp only [Node.busy] at hn
    exact spends_goes hK rfl hn (Nat.lt_succ_self _)
  · exact spends_raise hK _ _ _
  · simp only [Node.busy] at hn
    exact hfirst hn (Nat.lt_succ_self _)
  · exact spends_goes hK rfl trivial (Nat.succ_pos _)
  · refine hfirst trivial ?_
    simp only [Pending.effort, Node.cost]
    omega
  · exact spends_raise hK _ _ _
  · exact spends_raise hK _ _ _
  · exact hfirst trivial (Nat.lt_succ_self _)

lemma spends_choose {branches : List Branch} (hb : Branch.busyAll branches = true) :
    Spends (Branch.costs branches + 1) l m (m.choose branches) := by
  unfold choose
  split
  · exact spends_goes hK rfl trivial (Nat.succ_pos _)
  · simp only [Branch.busyAll, Bool.and_eq_true] at hb
    exact spends_goes hK rfl hb.1 (Nat.succ_pos _)
  · simp only [Branch.busyAll, Bool.and_eq_true] at hb
    refine spends_awaits hK rfl hb trivial ?_
    simp only [await, Control.effort, Pending.effort, Branch.costs]
    omega

lemma spends_readElement (hl : 1 < l) (span : Span) (name : String) (index : Value) :
    Spends a l m (m.readElement span name index) := by
  unfold readElement
  split
  · exact spends_raise hK _ _ _
  · split
    · exact spends_raise hK _ _ _
    · split
      · exact spends_hands hK hl rfl rfl
      · exact spends_raise hK _ _ _
    · exact spends_raise hK _ _ _

lemma spends_writeElement (hl : 1 < l) (span : Span) (id : ListId) (p : Int) (v : Value) :
    Spends a l m (m.writeElement span id p v) := by
  unfold writeElement
  dsimp only
  split
  · exact spends_hands hK hl rfl rfl
  · split
    · exact spends_hands hK hl rfl rfl
    · exact spends_raise hK _ _ _

lemma spends_commit (hl : 1 < l) (v : Value) (target : Target) :
    Spends a l m (m.commit v target) := by
  cases target with
  | «variable» name => exact spends_hands hK hl rfl rfl
  | element span name p =>
      have hpending := (listForWriting_keeps m name).2.2.2.2
      have htrans : ∀ m' : Machine, Spends a l (m.listForWriting name).2 m' →
          Spends a l m m' := by
        intro m' h
        have hless := h.less
        rw [hpending] at hless
        exact ⟨h.control, h.pending, hless⟩
      unfold commit
      dsimp only
      split
      · rename_i heq
        rw [heq] at htrans hpending
        exact htrans _ (spends_writeElement _ (hpending ▸ hK) hl _ _ _ _)
      · rename_i heq
        rw [heq] at htrans hpending
        exact htrans _ (spends_raise (hpending ▸ hK) _ _ _)

/-- A task that goes on with a value spends what it adds to the effort. -/
lemma spends_resume (v : Value) {p : Pending} (hp : p.Busy) (hy : p.yields ≠ .action) :
    Spends p.effort (1 + p.slack) m (m.resume v p) := by
  have hl : 1 < 1 + p.slack := Nat.lt_add_of_pos_right p.one_le_slack
  have hfirst : ∀ {q : Pending} {n : Node}, q.Busy → n.cost + q.effort < p.effort →
      Spends p.effort (1 + p.slack) m (m.await q (.eval n)) :=
    fun hq hlt => spends_awaits hK rfl hq trivial hlt
  cases p with
  | binaryRight span op right => exact hfirst trivial (Nat.lt_succ_self _)
  | binaryApply span op left =>
      simp only [resume]
      split
      · exact spends_hands hK hl rfl rfl
      · exact spends_raise hK _ _ _
  | relationRight span op right => exact hfirst trivial (Nat.lt_succ_self _)
  | relationApply span op left =>
      simp only [resume]
      split
      · exact spends_hands hK hl rfl rfl
      · exact spends_raise hK _ _ _
  | element span name => exact spends_readElement m hK hl _ _ _
  | items done rest =>
      cases rest with
      | nil => exact spends_hands hK hl rfl rfl
      | cons item rest =>
          refine hfirst trivial ?_
          simp only [Pending.effort, Node.costs]
          omega
  | args site name done rest =>
      cases rest with
      | nil =>
          refine spends_goes hK rfl trivial ?_
          simp [resume, goto, Control.effort, Pending.effort, Node.costs]
      | cons arg rest =>
          refine hfirst trivial ?_
          simp only [Pending.effort, Node.costs]
          omega
  | targetIndex span name value =>
      simp only [resume]
      split
      · exact spends_raise hK _ _ _
      · exact hfirst trivial (Nat.lt_succ_self _)
  | assign target => exact spends_commit m hK hl v target
  | timesCount span body =>
      simp only [resume]
      split
      · exact spends_raise hK _ _ _
      · exact spends_awaits hK rfl hp trivial Nat.zero_lt_one
  | untilTest cond body =>
      simp only [resume]
      split
      · exact spends_hands hK hl rfl rfl
      · exact spends_begins hK rfl rfl hp hp
  | arm body rest =>
      simp only [resume]
      split
      · exact spends_goes hK rfl hp.1 (Nat.succ_pos _)
      · exact spends_goes hK rfl hp.2 (Nat.lt_succ_self _)
  | eachSource span var body =>
      simp only [resume]
      split
      · exact spends_awaits hK rfl hp trivial Nat.zero_lt_one
      · exact spends_raise hK _ _ _
  | reenter site depth next => exact absurd rfl hy
  | _ => exact spends_hands hK hl rfl rfl

/-- So does a task that goes on after the completion of a statement, unless it begins the next
statement. -/
lemma spends_proceed (cancelled : Bool) (c : Completion) {p : Pending} (hp : p.Busy)
    (hnear : near? (.complete c) (p :: m.pending) = none) :
    Spends p.effort (1 + p.slack) m (m.proceed cancelled c p) := by
  have hl : 1 < 1 + p.slack := Nat.lt_add_of_pos_right p.one_le_slack
  cases p with
  | leave outer => exact spends_hands hK hl rfl rfl
  | invocation => exact spends_hands hK hl rfl rfl
  | sequence rest =>
      cases c with
      | returned v => exact spends_hands hK hl rfl rfl
      | next =>
          cases rest with
          | nil => exact spends_hands hK hl rfl rfl
          | cons n rest => simp [near?] at hnear
  | times i count body =>
      cases c with
      | returned v => exact spends_hands hK hl rfl rfl
      | next =>
          simp only [proceed, iterate]
          split
          · split
            · exact spends_fail hK rfl rfl
            · exact spends_begins hK rfl rfl hp hp
          · exact spends_hands hK hl rfl rfl
  | «until» cond body =>
      cases c with
      | returned v => exact spends_hands hK hl rfl rfl
      | next =>
          simp only [proceed, iterate]
          split
          · exact spends_fail hK rfl rfl
          · exact spends_awaits hK rfl hp trivial (Nat.lt_succ_self _)
  | each var cursor i body =>
      cases c with
      | returned v => exact spends_hands hK hl rfl rfl
      | next =>
          simp only [proceed]
          split
          · exact spends_hands hK hl rfl rfl
          · split
            · exact spends_fail hK rfl rfl
            · -- one element of the list has been used up
              rename_i v hread _
              have hi := Cursor.lt_of_read? hread
              refine ⟨hp, List.forall_mem_cons.mpr ⟨hp, hK⟩, .inr ⟨?_, ?_⟩⟩
              · refine Nat.le_trans (effort_le _) ?_
                simp [Control.effort, Pending.effort]
              · simp only [slack, Control.slack, slacks_cons, Pending.slack]
                omega
  | _ =>
      cases c with
      | returned v => exact spends_hands hK hl rfl rfl
      | next => exact spends_hands hK hl rfl rfl

lemma spends_call (hf : m.functions.All Function.Busy) (name : String) (args : List Value)
    (site : Span) : Spends 2 l m (m.call name args site) := by
  unfold call
  split
  · exact spends_fail hK rfl rfl
  · rename_i f hget
    have hbusy := hf.get hget
    split
    · exact spends_raise hK _ _ _
    · split
      · unfold invoke
        split
        · exact spends_raise hK _ _ _
        · exact spends_awaits hK rfl trivial hbusy Nat.zero_lt_two
      · exact spends_awaits hK rfl trivial trivial Nat.one_lt_two

end

end Machine

end Pseudocode
