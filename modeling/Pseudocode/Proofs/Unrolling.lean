/-
# Loops written out

A loop that repeats its body a given number of times does what the statements of the body do when
they are written one after another as often.  The loop takes some steps more: it counts its rounds,
and it enters and leaves its body in each.  With every other step both do the same.  So the loop is
behind by a number of steps that is known at all times, and it catches up before anything else
happens.

The main results are

* `CountedLoop.Abreast.onward`: what one step of the loop does, against one step of the block or
  none;
* `CountedLoop.Abreast.forth`, `CountedLoop.Abreast.back`: every schedule of one is mirrored by a
  schedule of the other;
* `Session.repeatTimes_unrolls`: this for every loop, whatever it does in its rounds.
-/
import Pseudocode.Proofs.Footing
import Pseudocode.Proofs.Taking

namespace Pseudocode

/-- The statements, written out so many times. -/
def repeated (n : Nat) (statements : List Node) : List Node := (List.replicate n statements).flatten

@[simp] lemma repeated_zero (statements : List Node) : repeated 0 statements = [] := rfl

lemma repeated_succ (n : Nat) (statements : List Node) :
    repeated (n + 1) statements = statements ++ repeated n statements := by
  simp [repeated, List.replicate_succ]

namespace Session

open Machine

variable {s t a b : Session} {K : List Pending} {es es' : List Event}

/-! ### What is seen of a piece of a run -/

/-- The statement before which the session waits. -/
def pausedAt? (s : Session) : Option Node :=
  match s.machine.control with
  | .boundary .paused n => some n
  | _ => none

/-- The statement before which a wait begins with an event. -/
def pausing (s : Session) (e : Event) : List Node :=
  match s.pausedAt? with
  | some _ => []
  | none => (s.happen e).pausedAt?.toList

/-- The statements before which waits begin during a schedule, in their order. -/
def pauses : Session → List Event → List Node
  | _, [] => []
  | s, e :: es => s.pausing e ++ (s.happen e).pauses es

/-- Nothing begins to wait where nothing changes. -/
lemma pausing_eq_nil {e : Event} (h : (s.happen e).pausedAt? = s.pausedAt?) : s.pausing e = [] := by
  unfold pausing
  rw [h]
  cases s.pausedAt? <;> rfl

lemma pausing_congr {e : Event} (h : s.pausedAt? = t.pausedAt?)
    (hnext : (s.happen e).pausedAt? = (t.happen e).pausedAt?) : s.pausing e = t.pausing e := by
  unfold pausing
  rw [h, hnext]

/-- The run is not told to end at any moment of the schedule. -/
def Unstopped (s : Session) (es : List Event) : Prop :=
  ∀ es', es' <+: es → (s.after es').controller.cancelled = false

lemma Unstopped.start (h : Unstopped s es) : s.controller.cancelled = false := h [] List.nil_prefix

lemma Unstopped.tail {e : Event} (h : Unstopped s (e :: es)) : Unstopped (s.happen e) es :=
  fun es' hes' => h (e :: es') (List.cons_prefix_cons.mpr ⟨rfl, hes'⟩)

/-- The sessions differ in what is left to do, if at all. -/
def SameButTasks (s t : Session) : Prop :=
  ∃ c L, t = { s with machine := { s.machine with control := c, pending := L } }

lemma SameButTasks.symm (h : SameButTasks s t) : SameButTasks t s := by
  obtain ⟨c, L, rfl⟩ := h
  exact ⟨s.machine.control, s.machine.pending, rfl⟩

/-- What is done above the tasks `K` from `a` on in the first schedule is done from `b` on in the
second, with the same commands in between.  When it is over in the first with one step more, the
outcome is the same. -/
structure Mirrors (K : List Pending) (a : Session) (es : List Event) (b : Session)
    (es' : List Event) : Prop where
  commands : es'.filter (· ≠ .step) = es.filter (· ≠ .step)
  lasts : Lasts K b es'
  pauses : b.pauses es' = a.pauses es
  same : SameButTasks (a.after es) (b.after es')
  ends : Resolved K (a.after es).step → (b.after es').step = (a.after es).step

namespace Mirrors

lemma cons {e : Event} (hp : K <:+ b.machine.pending) (hb : ¬ Resolved K b)
    (hpausing : b.pausing e = a.pausing e) (h : Mirrors K (a.happen e) es (b.happen e) es') :
    Mirrors K a (e :: es) b (e :: es') where
  commands := by simp only [List.filter_cons, h.commands]
  lasts := h.lasts.cons hp hb
  pauses := by simp only [Session.pauses, hpausing, h.pauses]
  same := h.same
  ends := h.ends

/-- The first takes a step that the second needs not take. -/
lemma ahead (hpausing : a.pausing .step = []) (h : Mirrors K a.step es b es') :
    Mirrors K a (.step :: es) b es' where
  commands := by rw [h.commands, List.filter_cons_of_neg (by simp)]
  lasts := h.lasts
  pauses := by
    rw [h.pauses, Session.pauses, hpausing]
    rfl
  same := h.same
  ends := h.ends

/-- The second takes a step that the first needs not take. -/
lemma behind (hp : K <:+ b.machine.pending) (hb : ¬ Resolved K b) (hpausing : b.pausing .step = [])
    (h : Mirrors K a es b.step es') : Mirrors K a es b (.step :: es') where
  commands := by rw [List.filter_cons_of_neg (by simp), h.commands]
  lasts := Lasts.cons (e := .step) hp hb h.lasts
  pauses := by
    rw [Session.pauses, hpausing]
    exact h.pauses
  same := h.same
  ends := h.ends

end Mirrors

/-! ### Steps with nothing left above -/

/-- What happens aside leaves a result in hand. -/
lemma machine_aside {e : Event} (he : s.goesOn e = false)
    (hresult : s.machine.control.isResult = true) : (s.happen e).machine = s.machine := by
  rcases happen_cases s e with ⟨hgoes, -⟩ | ⟨-, hside⟩
  · simp [he] at hgoes
  · refine hside.machine_eq (fun site next hc => ?_) fun n hc => ?_
    · simp [hc, Control.isResult] at hresult
    · simp [hc, Control.isResult] at hresult

/-- What happens aside does not depend on what is being done, unless the run rests. -/
lemma aside_goto {e : Event} {c : Control} (he : s.goesOn e = false)
    (hresult : s.machine.control.isResult = true) (hc : c.rests = false) :
    (s.goto c).happen e = (s.happen e).goto c := by
  have hheld : ∀ d : Control, d.rests = false → (s.goto d).release? = none := by
    intro d hd
    simp only [release?, control_goto]
    split
    · simp [Control.rests] at hd
    · rfl
  cases e with
  | step =>
      have hr : s.controller.reporting = true := by simpa [goesOn] using he
      have hfalters : ∀ d : Control, d.rests = false → (s.goto d).falters = false := by
        intro d hd
        unfold falters isPaused
        rw [control_goto]
        split
        · simp [Control.rests] at hd
        · rfl
      have hself : s.falters = false := by
        rw [← goto_self (s := s) rfl]
        exact hfalters _ (by cases hcontrol : s.machine.control <;>
          simp_all [Control.isResult, Control.rests])
      change (s.goto c).step = s.step.goto c
      rw [step_of_reporting hr, step_of_reporting (s := s.goto c) hr, report_eq, report_eq, hself,
        hfalters c hc]
      rfl
  | setSpeed _ | favour _ => rfl
  | stop =>
      simp only [happen, askStop, controller_goto, apply_ite (goto · c)]
      rfl
  | report =>
      simp only [happen, reportCall, controller_goto, apply_ite (goto · c)]
      rfl
  | resume stepping =>
      rw [happen_resume, happen_resume]
      rfl
  | cancel =>
      obtain ⟨controller, machine, console, program, maxSteps, maxDepth⟩ := s
      cases program <;> rfl
  | release =>
      have hself : s.release? = none := by
        rw [← goto_self (s := s) rfl]
        exact hheld _ (by cases hcontrol : s.machine.control <;>
          simp_all [Control.isResult, Control.rests])
      simp only [happen, hself, hheld c hc, Option.getD_none]

/-- A block begins with its first statement. -/
lemma proceed_onto_block {X : List Pending} {span : Span} {statements : List Node}
    (hpending : a.machine.pending = []) :
    ((a.goto (.block (.of span statements))).onto X).proceed =
      (a.goto (.complete .next)).onto (.sequence statements :: X) := by
  rw [proceeding_onto _ _ (.inr rfl)]
  change Session.onto { a.goto (.block (.of span statements)) with
    machine := (a.goto _).machine.await (.sequence statements) (.complete .next) } X = _
  rw [await_onto X (by exact hpending)]
  rfl

/-- All but the end of a statement goes through blocks and counted loops. -/
lemma proceed_onto_passing {p : Pending} {X : List Pending}
    (hp : (∃ rest, p = .sequence rest) ∨ ∃ i count body, p = .times i count body)
    (hpending : a.machine.pending = []) (hresult : a.machine.control.isResult = true)
    (hnext : a.machine.control ≠ .complete .next) : (a.onto (p :: X)).proceed = a.onto X := by
  cases hc : a.machine.control with
  | value v =>
      rw [proceed_value_onto X hpending hc]
      rcases hp with ⟨rest, rfl⟩ | ⟨i, count, body, rfl⟩
      · exact congrArg (Session.onto · X) (goto_self hc)
      · exact congrArg (Session.onto · X) (goto_self hc)
  | complete c =>
      rw [proceed_complete_onto X hpending hc]
      cases c with
      | next => exact absurd hc hnext
      | returned v =>
          rcases hp with ⟨rest, rfl⟩ | ⟨i, count, body, rfl⟩
          · exact congrArg (Session.onto · X) (goto_self hc)
          · exact congrArg (Session.onto · X) (goto_self hc)
  | fail e =>
      rw [proceed_fail_onto X hpending hc]
      rcases hp with ⟨rest, rfl⟩ | ⟨i, count, body, rfl⟩
      · rfl
      · rfl
  | crash text =>
      rw [proceed_crash_onto X hpending hc]
      rcases hp with ⟨rest, rfl⟩ | ⟨i, count, body, rfl⟩
      · rfl
      · rfl
  | _ => simp [hc, Control.isResult] at hresult

end Session

/-! ### A loop beside the block -/

/-- A loop that has its count, which admits so many rounds and no more. -/
structure CountedLoop where
  count : Number
  /-- The span of the body. -/
  span : Span
  statements : List Node
  rounds : Nat
  /-- The tasks below the loop. -/
  below : List Pending
  nonneg : count.lt 0 = false
  admits : ∀ i < rounds, (Number.ofNat i).lt count = true
  exhausts : (Number.ofNat rounds).lt count = false

namespace CountedLoop

open Session Machine

variable (L : CountedLoop)

def body : Block := .of L.span L.statements

/-- What is left of the loop when its body has been begun `i` times. -/
def looping (i : Nat) : List Pending := .times i L.count L.body :: L.below

/-- What is left of the block at this time, if `rest` is left of the round. -/
def flat (i : Nat) (rest : List Node) : List Pending :=
  .sequence (rest ++ repeated (L.rounds - i) L.statements) :: L.below

variable {L} {i m : Nat} {rest : List Node}

/-- In the block, a round is over when the next one begins. -/
lemma flat_next (hi : i < L.rounds) : L.flat i [] = L.flat (i + 1) L.statements := by
  simp only [flat, List.nil_append]
  rw [← repeated_succ, Nat.sub_add_eq, Nat.sub_add_cancel (Nat.sub_pos_of_lt hi)]

lemma flat_last : L.flat L.rounds [] = .sequence [] :: L.below := by
  simp [flat]

variable (L)

/-- The loop is in the first session where the block is in the second, save that it may take so many
steps before anything else happens.  Each round costs it three: it is counted, and its body is
entered and left. -/
inductive Abreast : Nat → Session → Session → Prop where
  /-- The loop has its count. -/
  | start {a : Session} {v : Value} {span span' : Span} (pending : a.machine.pending = [])
      (control : a.machine.control = .complete .next) (count : v.asNumber = L.count) :
      Abreast 0 ((a.goto (.value v)).onto (.timesCount span L.body :: L.below))
        ((a.goto (.block (.of span' (repeated L.rounds L.statements)))).onto L.below)
  /-- Something is done in a round. -/
  | within {a : Session} {i : Nat} {rest : List Node} (le : i ≤ L.rounds) :
      Abreast (3 * (L.rounds - i) + 2) (a.onto (.sequence rest :: L.looping i))
        (a.onto (L.flat i rest))
  /-- A round is over. -/
  | between {a : Session} {i : Nat} (le : i ≤ L.rounds) (pending : a.machine.pending = [])
      (control : a.machine.control = .complete .next) :
      Abreast (3 * (L.rounds - i) + 1) (a.onto (L.looping i)) (a.onto (L.flat i []))
  /-- A round begins. -/
  | entering {a : Session} {i : Nat} (lt : i < L.rounds) (pending : a.machine.pending = [])
      (control : a.machine.control = .complete .next) :
      Abreast (3 * (L.rounds - i)) ((a.goto (.block L.body)).onto (L.looping (i + 1)))
        (a.onto (L.flat i []))
  /-- A round has ended the loop with a return, a failure or a breakdown. -/
  | leaving {a : Session} {i : Nat} {rest : List Node} (pending : a.machine.pending = [])
      (result : a.machine.control.isResult = true)
      (breaks : a.machine.control ≠ .complete .next) :
      Abreast 0 (a.onto (L.looping i)) (a.onto (L.flat i rest))

variable {L}

namespace Abreast

variable {s t : Session}

lemma same (h : L.Abreast m s t) : SameButTasks s t := by
  cases h <;> exact ⟨_, _, rfl⟩

lemma controller_eq (h : L.Abreast m s t) : t.controller = s.controller := by
  obtain ⟨c, M, rfl⟩ := h.same
  rfl

lemma pausedAt?_eq (h : L.Abreast m s t) : t.pausedAt? = s.pausedAt? := by
  cases h with
  | start _ _ _ | within _ | between _ _ _ | leaving _ _ _ => rfl
  | entering _ _ control => simp [pausedAt?, control]

/-- Neither the loop nor the block is over. -/
lemma lasting (h : L.Abreast m s t) :
    (L.below <:+ s.machine.pending ∧ ¬ Resolved L.below s) ∧
      (L.below <:+ t.machine.pending ∧ ¬ Resolved L.below t) := by
  have habove : ∀ (a : Session) (M : List Pending) (p : Pending),
      L.below <:+ (a.onto (M ++ p :: L.below)).machine.pending ∧
        ¬ Resolved L.below (a.onto (M ++ p :: L.below)) := by
    intro a M p
    rw [machine_onto, pending_onto, ← List.append_assoc]
    refine ⟨(List.suffix_cons p _).trans (List.suffix_append _ _), not_resolved (.inl ?_)⟩
    simp only [machine_onto, pending_onto, List.length_append, List.length_cons]
    omega
  cases h with
  | start _ _ _ =>
      refine ⟨habove _ [] _, List.suffix_append _ _, not_resolved (.inr rfl)⟩
  | within _ => exact ⟨habove _ [_] _, habove _ [] _⟩
  | between _ _ _ | entering _ _ _ | leaving _ _ _ => exact ⟨habove _ [] _, habove _ [] _⟩

/-- What happens aside leaves the loop and the block where they are. -/
lemma aside (h : L.Abreast m s t) {e : Event} (he : s.goesOn e = false) :
    L.Abreast m (s.happen e) (t.happen e) := by
  cases h with
  | @start a v span span' pending control count =>
      change a.goesOn e = false at he
      have ha : a.machine.control.isResult = true := by rw [control]; rfl
      rw [aside_onto (a.goto (.value v)) _ he, aside_onto (a.goto (.block _)) _ he,
        aside_goto he ha rfl, aside_goto he ha rfl]
      exact .start (by rw [machine_aside he ha, pending]) (by rw [machine_aside he ha, control])
        count
  | @within a i rest le =>
      change a.goesOn e = false at he
      rw [aside_onto _ _ he, aside_onto _ _ he]
      exact .within le
  | @between a i le pending control =>
      change a.goesOn e = false at he
      have ha : a.machine.control.isResult = true := by rw [control]; rfl
      rw [aside_onto _ _ he, aside_onto _ _ he]
      exact .between le (by rw [machine_aside he ha, pending])
        (by rw [machine_aside he ha, control])
  | @entering a i lt pending control =>
      change a.goesOn e = false at he
      have ha : a.machine.control.isResult = true := by rw [control]; rfl
      rw [aside_onto (a.goto (.block L.body)) _ he, aside_onto a _ he, aside_goto he ha rfl]
      exact .entering lt (by rw [machine_aside he ha, pending])
        (by rw [machine_aside he ha, control])
  | @leaving a i rest pending result breaks =>
      change a.goesOn e = false at he
      have hmachine := machine_aside he result
      rw [aside_onto _ _ he, aside_onto _ _ he]
      rw [← hmachine] at pending result breaks
      exact .leaving pending result breaks

/-- What the loop goes on with: it ends, and the block does the same, or the loop catches up on the
block, or both go on. -/
inductive Onward (L : CountedLoop) (m : Nat) (s t : Session) : Prop where
  | ends (resolved : Resolved L.below s.proceed) (proceed : t.proceed = s.proceed)
  | closer {k : Nat} (lt : k < m) (abreast : L.Abreast k s.proceed t)
  | both {k : Nat} (abreast : L.Abreast k s.proceed t.proceed)

/-- In a round, the loop does what the block does until the round is over. -/
lemma onward_within {a : Session} (hi : i ≤ L.rounds) :
    Onward L (3 * (L.rounds - i) + 2) (a.onto (.sequence rest :: L.looping i))
      (a.onto (L.flat i rest)) := by
  by_cases hlive : a.machine.pending ≠ [] ∨ a.machine.control.isResult = false
  · refine .both (k := 3 * (L.rounds - i) + 2) ?_
    rw [proceeding_onto a _ hlive, proceeding_onto a _ hlive]
    exact .within hi
  rw [not_or, Classical.not_not, Bool.not_eq_false] at hlive
  obtain ⟨hpending, hresult⟩ := hlive
  by_cases hnext : a.machine.control = .complete .next
  · cases rest with
    | nil =>
        refine .closer (k := 3 * (L.rounds - i) + 1) (by omega) ?_
        rw [proceed_complete_onto _ hpending hnext]
        change L.Abreast _ ((a.goto (.complete .next)).onto (L.looping i)) _
        rw [goto_self hnext]
        exact .between hi hpending hnext
    | cons n rest =>
        refine .both (k := 3 * (L.rounds - i) + 2) ?_
        rw [flat, List.cons_append, proceed_complete_onto _ hpending hnext,
          proceed_complete_onto _ hpending hnext]
        change L.Abreast _
          ({ a with machine := a.machine.await (.sequence rest) (.reach n) }.onto _)
          ({ a with machine := a.machine.await (.sequence _) (.reach n) }.onto _)
        rw [await_onto _ hpending, await_onto _ hpending]
        exact .within hi
  · refine .closer (k := 0) (by omega) ?_
    rw [proceed_onto_passing (.inl ⟨_, rfl⟩) hpending hresult hnext]
    exact .leaving hpending hresult hnext

/-- After a round, the loop begins the next one or is over with the block. -/
lemma onward_between {a : Session} (hi : i ≤ L.rounds) (hpending : a.machine.pending = [])
    (hnext : a.machine.control = .complete .next) (hcancelled : a.controller.cancelled = false) :
    Onward L (3 * (L.rounds - i) + 1) (a.onto (L.looping i)) (a.onto (L.flat i [])) := by
  rcases Nat.lt_or_eq_of_le hi with hlt | rfl
  · have hiterates : a.machine.proceed false .next (.times i L.count L.body) =
        a.machine.await (.times (i + 1) L.count L.body) (.block L.body) := by
      simp [Machine.proceed, iterate, L.admits i hlt]
    refine .closer (k := 3 * (L.rounds - i)) (by omega) ?_
    rw [looping, proceed_complete_onto _ hpending hnext, hcancelled, hiterates,
      await_onto _ hpending]
    exact .entering hlt hpending hnext
  · have hiterates : a.machine.proceed false .next (.times L.rounds L.count L.body) =
        a.machine.goto (.complete .next) := by
      simp [Machine.proceed, L.exhausts, Machine.finish]
    have hproceed : (a.onto (L.looping L.rounds)).proceed = a.onto L.below := by
      rw [looping, proceed_complete_onto _ hpending hnext, hcancelled, hiterates]
      exact congrArg (Session.onto · L.below) (goto_self hnext)
    have hproceed' : (a.onto (L.flat L.rounds [])).proceed = a.onto L.below := by
      rw [flat_last, proceed_complete_onto _ hpending hnext]
      exact congrArg (Session.onto · L.below) (goto_self hnext)
    refine .ends ?_ (hproceed'.trans hproceed.symm)
    rw [hproceed]
    exact ⟨by simp [hpending], by simp [hnext, Control.isResult]⟩

/-- What the loop goes on with, against the block. -/
theorem onward (h : L.Abreast m s t) (hcancelled : s.controller.cancelled = false) :
    Onward L m s t := by
  cases h with
  | @start a v span span' pending control count =>
      refine .both (k := 3 * (L.rounds - 0) + 1) ?_
      have hresume : (a.goto (.value v)).machine.resume v (.timesCount span L.body) =
          (a.goto (.value v)).machine.await (.times 0 L.count L.body) (.complete .next) := by
        simp [resume, count, L.nonneg]
      rw [proceed_value_onto _ (by exact pending) rfl, hresume, await_onto _ (by exact pending),
        proceed_onto_block pending]
      exact .between (a := a.goto (.complete .next)) (Nat.zero_le _) pending rfl
  | within le => exact onward_within le
  | between le pending control => exact onward_between le pending control hcancelled
  | @entering a i lt pending control =>
      refine .closer (k := 3 * (L.rounds - (i + 1)) + 2) (by omega) ?_
      rw [body, proceed_onto_block pending, goto_self control, flat_next lt]
      exact .within lt
  | @leaving a i rest pending result breaks =>
      have hproceed : (a.onto (L.looping i)).proceed = a.onto L.below :=
        proceed_onto_passing (.inr ⟨_, _, _, rfl⟩) pending result breaks
      have hproceed' : (a.onto (L.flat i rest)).proceed = a.onto L.below :=
        proceed_onto_passing (.inl ⟨_, rfl⟩) pending result breaks
      refine .ends ?_ (hproceed'.trans hproceed.symm)
      rw [hproceed]
      exact ⟨by simp [pending], result⟩

/-- The loop and the block begin side by side. -/
lemma of_count {v : Value} {span span' : Span} (control : s.machine.control = .value v)
    (pending : s.machine.pending = .timesCount span L.body :: L.below)
    (count : v.asNumber = L.count) :
    L.Abreast 0 s { s with machine := { s.machine with
      pending := L.below
      control := .block (.of span' (repeated L.rounds L.statements)) } } := by
  let a : Session :=
    { s with machine := { s.machine with control := .complete .next, pending := [] } }
  have hs : s = (a.goto (.value v)).onto (.timesCount span L.body :: L.below) := by
    change s = { s with machine := { s.machine with
      control := .value v, pending := .timesCount span L.body :: L.below } }
    rw [← control, ← pending]
  rw [hs]
  exact .start (a := a) rfl rfl count

/-- No wait begins while the loop catches up. -/
lemma pausing_of_closer {m' : Nat} (h : L.Abreast m s t) (hnext : L.Abreast m' s.step t) :
    s.pausing .step = [] :=
  pausing_eq_nil (hnext.pausedAt?_eq.symm.trans h.pausedAt?_eq)

lemma pausing_of_both {m' : Nat} {e : Event} (h : L.Abreast m s t)
    (hnext : L.Abreast m' (s.happen e) (t.happen e)) : s.pausing e = t.pausing e :=
  pausing_congr h.pausedAt?_eq.symm hnext.pausedAt?_eq.symm

/-- The loop has a change of phase to report if the block has. -/
lemma goesOn_eq (h : L.Abreast m s t) (e : Event) : t.goesOn e = s.goesOn e := by
  rw [goesOn, goesOn, h.controller_eq]

/-- A step ends neither if there is something to report. -/
lemma not_resolved_of_reporting (h : L.Abreast m s t) (hr : s.controller.reporting = true) :
    ¬ Resolved L.below s.step ∧ ¬ Resolved L.below t.step := by
  have hnext := h.aside (e := .step) (by simp [goesOn, hr])
  exact ⟨hnext.lasting.1.2, hnext.lasting.2.2⟩

/-- The loop ends with the block. -/
lemma step_eq (h : L.Abreast m s t) (hcancelled : s.controller.cancelled = false)
    (hresolved : Resolved L.below s.step) : t.step = s.step := by
  cases hr : s.controller.reporting with
  | true => exact absurd hresolved (h.not_resolved_of_reporting hr).1
  | false =>
      have hr' : t.controller.reporting = false := by rwa [h.controller_eq]
      rw [step_of_not_reporting hr] at hresolved ⊢
      rw [step_of_not_reporting hr']
      cases h.onward hcancelled with
      | ends _ proceed => exact proceed
      | closer _ abreast => exact absurd hresolved abreast.lasting.1.2
      | both abreast => exact absurd hresolved abreast.lasting.1.2

variable {es es' : List Event}

/-- The block does what the loop does.  It takes a step whenever the loop does more than to catch
up. -/
theorem forth (h : L.Abreast m s t) (hl : Lasts L.below s es) (hu : Unstopped s es) :
    ∃ es', Mirrors L.below s es t es' := by
  induction es generalizing m s t with
  | nil =>
      exact ⟨[], rfl, .nil h.lasting.2.1 h.lasting.2.2, rfl, h.same, h.step_eq hu.start⟩
  | cons e es ih =>
      have hboth : ∀ {k : Nat}, L.Abreast k (s.happen e) (t.happen e) →
          ∃ es', Mirrors L.below s (e :: es) t es' := by
        intro k abreast
        obtain ⟨es', hmirrors⟩ := ih abreast hl.tail hu.tail
        exact ⟨e :: es', .cons h.lasting.2.1 h.lasting.2.2 (h.pausing_of_both abreast).symm
          hmirrors⟩
      rcases happen_cases s e with ⟨hgoes, heq⟩ | ⟨haside, -⟩
      · have heq' : t.happen e = t.proceed := by
          rcases happen_cases t e with ⟨-, heq'⟩ | ⟨haside, -⟩
          · exact heq'
          · simp [h.goesOn_eq, hgoes] at haside
        cases h.onward hu.start with
        | ends resolved _ =>
            exact absurd (heq ▸ resolved) (hl.tail.before [] List.nil_prefix)
        | both abreast => exact hboth (by rwa [heq, heq'])
        | closer _ abreast =>
            obtain ⟨rfl, -⟩ : e = .step ∧ _ := by simpa [goesOn] using hgoes
            rw [← heq] at abreast
            obtain ⟨es', hmirrors⟩ := ih abreast hl.tail hu.tail
            exact ⟨es', hmirrors.ahead (h.pausing_of_closer abreast)⟩
      · exact hboth (h.aside haside)

/-- It suffices that the loop does what the block does when it has caught up. -/
lemma of_caught_up (h : L.Abreast m s t) (hcancelled : t.controller.cancelled = false)
    (hr : t.controller.reporting = false)
    (hready : ∀ m s, L.Abreast m s t →
      (Resolved L.below s.step ∧ t.step = s.step ∨ ∃ m', L.Abreast m' s.step t.step) →
        ∃ es', Mirrors L.below t es s es') :
    ∃ es', Mirrors L.below t es s es' := by
  induction m using Nat.strongRecOn generalizing s with
  | ind m ih =>
      have hstep : s.step = s.proceed := step_of_not_reporting (h.controller_eq ▸ hr)
      have hstep' : t.step = t.proceed := step_of_not_reporting hr
      cases h.onward (h.controller_eq ▸ hcancelled) with
      | ends resolved proceed =>
          exact hready m s h (.inl ⟨by rwa [hstep], by rw [hstep, hstep', proceed]⟩)
      | both abreast => exact hready m s h (.inr ⟨_, by rwa [hstep, hstep']⟩)
      | closer lt abreast =>
          rw [← hstep] at abreast
          obtain ⟨es', hmirrors⟩ := ih _ lt abreast
          exact ⟨.step :: es', hmirrors.behind h.lasting.1.1 h.lasting.1.2
            (h.pausing_of_closer abreast)⟩

/-- The loop does what the block does.  Before each step it catches up. -/
theorem back (h : L.Abreast m s t) (hl : Lasts L.below t es) (hu : Unstopped t es) :
    ∃ es', Mirrors L.below t es s es' := by
  have hdone : ∀ {m : Nat} {s t : Session}, L.Abreast m s t → ¬ Resolved L.below t.step →
      ∃ es', Mirrors L.below t [] s es' := fun h hnot =>
    ⟨[], rfl, .nil h.lasting.1.1 h.lasting.1.2, rfl, h.same.symm, fun hresolved =>
      absurd hresolved hnot⟩
  induction es generalizing m s t with
  | nil =>
      cases hr : t.controller.reporting with
      | true => exact hdone h (h.not_resolved_of_reporting (h.controller_eq ▸ hr)).2
      | false =>
          refine h.of_caught_up hu.start hr fun m s h hnext => ?_
          rcases hnext with ⟨-, hstep⟩ | ⟨m', abreast⟩
          · exact ⟨[], rfl, .nil h.lasting.1.1 h.lasting.1.2, rfl, h.same.symm, fun _ => hstep.symm⟩
          · exact hdone h abreast.lasting.2.2
  | cons e es ih =>
      have hboth : ∀ {m k : Nat} {s : Session}, L.Abreast m s t →
          L.Abreast k (s.happen e) (t.happen e) → ∃ es', Mirrors L.below t (e :: es) s es' := by
        intro m k s h abreast
        obtain ⟨es', hmirrors⟩ := ih abreast hl.tail hu.tail
        exact ⟨e :: es', .cons h.lasting.1.1 h.lasting.1.2 (h.pausing_of_both abreast) hmirrors⟩
      cases hgoes : s.goesOn e with
      | false => exact hboth h (h.aside hgoes)
      | true =>
          obtain ⟨rfl, hr⟩ : e = .step ∧ s.controller.reporting = false := by
            simpa [goesOn] using hgoes
          rw [← h.controller_eq] at hr
          refine h.of_caught_up hu.start hr fun m s h hnext => ?_
          rcases hnext with ⟨hresolved, hstep⟩ | ⟨m', abreast⟩
          · rw [← hstep] at hresolved
            exact absurd hresolved (hl.tail.before [] List.nil_prefix)
          · exact hboth h abreast

end Abreast

end CountedLoop

namespace Session

open Machine

/-- **A loop is its body, written out.**  A loop that repeats its body first evaluates its count,
when it is executed.  When that is `v` and `v` is negative, the loop fails with the next step, and
nothing else has changed.  Otherwise let `n` be the number of rounds, which are the numbers `i` with
`i < v`.  Then every schedule in which the loop is executed and not stopped is mirrored by a
schedule of the block that has the statements of the body `n` times, and the other way round: with
the same commands they pause before the same statements, write and read the same, and have the same
frames, lists and number of steps; at the end they have the same outcome. -/
theorem repeatTimes_unrolls {a : Session} {span bspan : Span} {count : Node}
    {statements : List Node}
    (hc : a.machine.control = .exec (.repeatTimes span count (.of bspan statements)))
    {K : List Pending} (hp : a.machine.pending = K) :
    a.onward.machine.control = .eval count ∧
    a.onward.machine.pending = .timesCount span (.of bspan statements) :: K ∧
    ∀ es, Taken (.timesCount span (.of bspan statements)) K a.onward es →
    ∀ s v, s = a.onward.after es → s.machine.control = .value v →
      (v.asNumber.lt 0 = true → s.step = { s with machine := { s.machine with
        pending := K
        control := .fail (.fault
          { kind := .invalidRepeatCount, detail := v.asNumber.format, span }) } }) ∧
      ∀ n, v.asNumber.lt 0 = false → (∀ i < n, (Number.ofNat i).lt v.asNumber = true) →
        (Number.ofNat n).lt v.asNumber = false →
        ∀ span' t, t = { s with machine := { s.machine with
          pending := K
          control := .block (.of span' (repeated n statements)) } } →
          (∀ es, Lasts K s es → Unstopped s es → ∃ es', Mirrors K s es t es') ∧
          (∀ es, Lasts K t es → Unstopped t es → ∃ es', Mirrors K t es s es') := by
  have hproceed : a.onward.machine =
      a.machine.await (.timesCount span (.of bspan statements)) (.eval count) := by
    obtain ⟨c, -, honward⟩ := exists_onward (s := a) (by simp [hc])
    rw [honward]
    simp only [Session.proceed, hc]
    rfl
  refine ⟨by rw [hproceed]; rfl, by rw [hproceed, ← hp]; rfl, fun es htaken s v hs hv =>
    ⟨fun hneg => ?_, fun n hpos hmore hlast span' t ht => ?_⟩⟩
  · have hpending : s.machine.pending = .timesCount span (.of bspan statements) :: K := by
      rw [hs, htaken.pending]
    have hgoes : s.controller.reporting = false := by
      rw [hs, htaken.goes]
    rw [step_of_not_reporting hgoes, proceed_value hv, withTask_cons hpending]
    simp [resume, hneg, raise, Machine.goto]
  · have hpending : s.machine.pending = .timesCount span (.of bspan statements) :: K := by
      rw [hs, htaken.pending]
    let L : CountedLoop := ⟨v.asNumber, bspan, statements, n, K, hpos, hmore, hlast⟩
    have habreast : L.Abreast 0 s t := ht ▸ .of_count hv hpending rfl
    exact ⟨fun es => habreast.forth, fun es => habreast.back⟩

/-- This assigns a number to `x`. -/
def becomes (x : Number) : Node :=
  .assignment .none (.identifier .none "x") (.literal .none (.number x))

/-- The body of the loop changes the variable that its count comes from. -/
def recounting (count : Number) : Program where
  statements := [
    becomes count,
    .repeatTimes .none (.identifier .none "x") (.of .none [becomes (.ofNat 5)])]

/-- The session after some steps. -/
def recountingAfter (count : Number) (n : Nat) : Session :=
  (begun (recounting count) {}).after (List.replicate n .step)

/-- The moment at which the body is about to be executed twice, without a loop. -/
def writtenOut : Session :=
  { recountingAfter (.ofNat 2) 13 with machine := { (recountingAfter (.ofNat 2) 13).machine with
    pending := (recountingAfter (.ofNat 2) 11).machine.pending
    control := .block (.of .none (repeated 2 [becomes (.ofNat 5)])) } }

/-- With the count 2 there are two rounds, although `x` is 5 after the first one; the count -1 is an
error. -/
theorem repeatTimes_unrolls_recounting :
    let K := (recountingAfter (.ofNat 2) 11).machine.pending
    let loop := List.replicate 21 Event.step
    let block := List.replicate 15 Event.step
    Lasts K (recountingAfter (.ofNat 2) 13) loop ∧ Lasts K writtenOut block ∧
    (∃ es, Mirrors K (recountingAfter (.ofNat 2) 13) loop writtenOut es ∧
      (writtenOut.after es).step = recountingAfter (.ofNat 2) 35) ∧
    (∃ es, Mirrors K writtenOut block (recountingAfter (.ofNat 2) 13) es ∧
      ((recountingAfter (.ofNat 2) 13).after es).step = (writtenOut.after block).step) ∧
    (recountingAfter (Number.ofNat 1).neg 14).machine.control =
      .fail (.fault { kind := .invalidRepeatCount, detail := "-1", span := .none }) := by
  intro K loop block
  have htaken : ∀ (s : Session) (p : Pending) (K : List Pending), s.machine.pending = p :: K →
      s.step.machine.pending = p :: K → s.step.machine.control.isResult = true →
      s.step.controller.reporting = false → Taken p K s [.step] :=
    fun s p K hp hnext hresult hgoes => .cons (hp ▸ List.suffix_rfl)
      ⟨within_nil.mpr (hnext ▸ List.suffix_rfl), hnext, hresult, hgoes⟩
  have hloop : Lasts K (recountingAfter (.ofNat 2) 13) loop := by
    iterate 21 refine .cons (List.suffix_iff_eq_drop.mpr rfl) (not_resolved (by decide)) ?_
    exact .nil (List.suffix_iff_eq_drop.mpr rfl) (not_resolved (by decide))
  have hblock : Lasts K writtenOut block := by
    iterate 15 refine .cons (List.suffix_iff_eq_drop.mpr rfl) (not_resolved (by decide)) ?_
    exact .nil (List.suffix_iff_eq_drop.mpr rfl) (not_resolved (by decide))
  have hunstopped : ∀ (s : Session) (k : Nat), (∀ j ≤ k,
      (s.after (List.replicate j .step)).controller.cancelled = false) →
      Unstopped s (List.replicate k .step) := by
    intro s k hall es' hes'
    obtain ⟨hle, hes⟩ := List.prefix_replicate_iff.mp hes'
    rw [hes]
    exact hall _ hle
  obtain ⟨-, -, htwo⟩ := repeatTimes_unrolls (a := recountingAfter (.ofNat 2) 11) rfl rfl
  obtain ⟨hforth, hback⟩ := (htwo _ (htaken _ _ _ rfl rfl rfl rfl) (recountingAfter (.ofNat 2) 13)
    (.number (.ofNat 2)) rfl rfl).2 2 (by decide) (by decide) (by decide) .none writtenOut rfl
  obtain ⟨-, -, hone⟩ := repeatTimes_unrolls (a := recountingAfter (Number.ofNat 1).neg 11) rfl rfl
  refine ⟨hloop, hblock, ?_, ?_, ?_⟩
  · obtain ⟨es, hes⟩ := hforth loop hloop (hunstopped _ 21 (by decide +kernel))
    exact ⟨es, hes, hes.ends ⟨rfl, rfl⟩⟩
  · obtain ⟨es, hes⟩ := hback block hblock (hunstopped _ 15 (by decide +kernel))
    exact ⟨es, hes, hes.ends ⟨rfl, rfl⟩⟩
  · have hfails := (hone _ (htaken _ _ _ rfl rfl rfl rfl) (recountingAfter (Number.ofNat 1).neg 13)
      (.number (Number.ofNat 1).neg) rfl rfl).1 (by decide)
    have hstep : recountingAfter (Number.ofNat 1).neg 14 =
      (recountingAfter (Number.ofNat 1).neg 13).step := rfl
    rw [hstep, hfails]
    rfl

end Session

end Pseudocode
