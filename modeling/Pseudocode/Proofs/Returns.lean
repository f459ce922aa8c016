/-
# Returns

A return statement ends the invocation that it belongs to, which is the call of a procedure or the
run as a whole.  What is left to do for this invocation are the statements around the return: the
rest of blocks, and loops.  Each of them is dropped with one step when the return comes to it, so
that nothing is evaluated or executed any more until the call has the value that was returned.
Every call has a task of its own that stops the return, and puts the frames of the caller back.

The main results are

* `Session.after_returned`: what happens from a return to the end of the invocation;
* `Session.returning_of_returned`: an invocation that is left by a return has executed one itself;
* `Session.return_ends_invocation`: both together, for every return, every call and every schedule.
-/
import Mathlib.Data.List.Induction
import Pseudocode.Proofs.Balance
import Pseudocode.Proofs.Taking

namespace Pseudocode

/-- Whether a task belongs to a statement around the one that is being executed. -/
def Pending.encloses : Pending → Bool
  | .times _ _ _ | .until _ _ | .each _ _ _ _ | .sequence _ | .leave _ => true
  | _ => false

/-- The tasks for the completion of a statement are those of the statements around it, and below
them the one that leaves the invocation, if that is not the run as a whole. -/
lemma Fits.split {L : List Pending} (h : Fits .completion L) :
    ∃ inner base, L = inner ++ base ∧ (∀ p ∈ inner, p.encloses = true) ∧
      (base = [] ∨ ∃ K, base = .invocation :: K) := by
  induction L with
  | nil => exact ⟨[], [], rfl, by simp, .inl rfl⟩
  | cons p L ih =>
      obtain ⟨htakes, htail⟩ := h.tail
      have henclosing : p.encloses = true → p.yields = .completion →
          ∃ inner base, p :: L = inner ++ base ∧ (∀ p ∈ inner, p.encloses = true) ∧
            (base = [] ∨ ∃ K, base = .invocation :: K) := by
        intro hp hyields
        obtain ⟨inner, base, rfl, hinner, hbase⟩ := ih (hyields ▸ htail)
        exact ⟨p :: inner, base, rfl, List.forall_mem_cons.mpr ⟨hp, hinner⟩, hbase⟩
      cases p with
      | invocation => exact ⟨[], .invocation :: L, rfl, by simp, .inr ⟨L, rfl⟩⟩
      | times _ _ _ | «until» _ _ | each _ _ _ _ | sequence _ | leave _ => exact henclosing rfl rfl
      | _ => simp [Pending.takes] at htakes

/-- Whether a statement has completed with a return. -/
def Control.isReturn : Control → Bool
  | .complete (.returned _) => true
  | _ => false

/-- What a call has for the caller when its body has completed. -/
def Completion.result : Completion → Value
  | .next => .nothing
  | .returned v => v

/-! ### Where returns come from -/

namespace Machine

variable (m : Machine)

lemma isReturn_eval (n : Node) : (m.eval n).control.isReturn = false := by
  unfold eval readVariable
  repeat' split
  all_goals rfl

lemma isReturn_block (b : Block) : (m.block b).control.isReturn = false := by
  cases b with
  | missing => rfl
  | of span statements => rfl

lemma isReturn_choose (branches : List Branch) : (m.choose branches).control.isReturn = false := by
  unfold choose
  repeat' split
  all_goals rfl

lemma isReturn_call (name : String) (args : List Value) (site : Span) :
    (m.call name args site).control.isReturn = false := by
  unfold call invoke
  repeat' split
  all_goals rfl

lemma isReturn_commit (v : Value) (target : Target) :
    (m.commit v target).control.isReturn = false := by
  unfold commit writeElement
  dsimp only
  repeat' split
  all_goals rfl

lemma isReturn_readElement (span : Span) (name : String) (index : Value) :
    (m.readElement span name index).control.isReturn = false := by
  unfold readElement
  repeat' split
  all_goals rfl

lemma isReturn_assign (target value : Node) : (m.assign target value).control.isReturn = false := by
  unfold assign
  repeat' split
  all_goals rfl

/-- Only a return without a value returns at once. -/
lemma isReturn_exec {n : Node} (hn : ∀ span, n ≠ .return span .missing) :
    (m.exec n).control.isReturn = false := by
  cases n with
  | «return» span value =>
      cases value with
      | missing => exact absurd rfl (hn span)
      | _ => rfl
  | assignment span target value => exact isReturn_assign m target value
  | forEach span var source body => cases var <;> rfl
  | _ => rfl

/-- Only the value of a return is returned. -/
lemma isReturn_resume (v : Value) {p : Pending} (hp : p ≠ .returned) :
    (m.resume v p).control.isReturn = false := by
  cases p with
  | returned => exact absurd rfl hp
  | assign target => exact isReturn_commit m v target
  | element span name => exact isReturn_readElement m span name v
  | items _ rest | args _ _ _ rest => cases rest <;> rfl
  | binaryApply _ _ _ | relationApply _ _ _ | targetIndex _ _ _ | timesCount _ _ | untilTest _ _
  | arm _ _ | eachSource _ _ _ =>
      simp only [resume]
      split <;> rfl
  | _ => rfl

/-- No statement makes a return of what comes to its end otherwise. -/
lemma isReturn_proceed_next (cancelled : Bool) (p : Pending) :
    (m.proceed cancelled .next p).control.isReturn = false := by
  cases p with
  | sequence statements => cases statements <;> rfl
  | times i count body =>
      simp only [proceed, iterate]
      repeat' split
      all_goals rfl
  | «until» cond body =>
      simp only [proceed, iterate]
      split <;> rfl
  | each var cursor i body =>
      simp only [proceed]
      repeat' split
      all_goals rfl
  | _ => rfl

variable {m}

lemma isReturn_unwind {e : Failure} (hc : m.control = .fail e) (p : Pending) :
    (m.unwind e p).control.isReturn = false := by
  unfold unwind
  repeat' split
  · rfl
  · rfl
  · rfl
  · rw [hc]
    rfl

lemma isReturn_collapse {text : String} (hc : m.control = .crash text) (p : Pending) :
    (m.collapse text p).control.isReturn = false := by
  unfold collapse
  split
  · rfl
  · rw [hc]
    rfl

variable {v : Value}

/-- The statements around a return are dropped. -/
lemma proceed_returned {p : Pending} (hp : p.encloses = true) (cancelled : Bool) :
    ∃ span, m.proceed cancelled (.returned v) p =
      { m with current := span, control := .complete (.returned v) } := by
  cases p with
  | leave outer => exact ⟨outer, rfl⟩
  | times _ _ _ | «until» _ _ | each _ _ _ _ | sequence _ => exact ⟨m.current, rfl⟩
  | _ => simp [Pending.encloses] at hp

end Machine

namespace Session

open Machine

variable {s : Session}

lemma isReturn_reach (n : Node) : (s.reach n).machine.control.isReturn = false := by
  have h := s.arrival n
  generalize s.reach n = t at h ⊢
  cases h with
  | _ => rfl

lemma isReturn_boundary {n : Node} {p : Standing} (hc : s.machine.control = .boundary p n) :
    s.proceed.machine.control.isReturn = false := by
  cases p with
  | admitted =>
      have h := heeding_proceed hc
      generalize s.proceed = t at h ⊢
      cases h with
      | _ => rfl
  | throttled =>
      rw [proceed_throttled hc]
      split <;> rfl
  | delayed =>
      rw [proceed_delayed hc]
      split <;> rfl
  | paused =>
      have h := waking_proceed hc
      generalize s.proceed = t at h ⊢
      cases h with
      | polls _ | waits _ =>
          rw [hc]
          rfl
      | begun _ | told _ => rfl

lemma isReturn_act (site : Span) (a : Action Value) :
    (s.act site a).machine.control.isReturn = false := by
  cases a with
  | ask q next =>
      cases q with
      | resume stepping =>
          simp only [act, perform]
          split <;> rfl
      | _ => rfl
  | _ => rfl

lemma isReturn_finishCompleted (c : Completion) :
    (s.finishCompleted c).machine.control.isReturn = false := by
  unfold finishCompleted
  repeat' split
  all_goals rfl

lemma isReturn_finishFailed (e : Failure) :
    (s.finishFailed e).machine.control.isReturn = false := by
  unfold finishFailed
  split <;> rfl

/-- The run is about to complete a return statement with the value `v`, which then comes to the
tasks `L`. -/
inductive Returning (v : Value) (L : List Pending) (s : Session) : Prop where
  | bare {span : Span} (control : s.machine.control = .exec (.return span .missing))
      (pending : s.machine.pending = L) (nothing : v = .nothing)
  | value (control : s.machine.control = .value v) (pending : s.machine.pending = .returned :: L)

variable {v : Value} {L : List Pending}

lemma Returning.proceed (h : Returning v L s) :
    s.proceed.machine = { s.machine with control := .complete (.returned v), pending := L } := by
  cases h with
  | bare control pending nothing =>
      simp only [Session.proceed, control, nothing, ← pending]
      rfl
  | value control pending =>
      rw [proceed_value control, withTask_cons pending]
      rfl

/-- A return comes from a return statement, or from a statement inside the one it comes to. -/
lemma returning_or_returned (hs : Sound s.machine)
    (h : s.proceed.machine.control = .complete (.returned v)) :
    Returning v s.proceed.machine.pending s ∨
      ∃ p, p.encloses = true ∧ s.machine.control = .complete (.returned v) ∧
        s.machine.pending = p :: s.proceed.machine.pending := by
  have hreturn : s.proceed.machine.control.isReturn = true := by rw [h]; rfl
  cases hc : s.machine.control with
  | idle | ended _ | held _ _ =>
      simp only [Session.proceed, hc, reduceCtorEq] at h
  | reach n => simp [Session.proceed, hc, isReturn_reach] at hreturn
  | boundary p n => simp [isReturn_boundary hc] at hreturn
  | ending o =>
      simp only [Session.proceed, hc] at hreturn
      cases hreturn
  | eval n => simp [Session.proceed, hc, isReturn_eval] at hreturn
  | block b => simp [Session.proceed, hc, isReturn_block] at hreturn
  | choose branches => simp [Session.proceed, hc, isReturn_choose] at hreturn
  | call name args site => simp [Session.proceed, hc, isReturn_call] at hreturn
  | host site a => simp [Session.proceed, hc, isReturn_act] at hreturn
  | exec n =>
      by_cases hn : ∃ span, n = .return span .missing
      · obtain ⟨span, rfl⟩ := hn
        simp only [Session.proceed, hc] at h ⊢
        cases h
        exact .inl (.bare hc rfl rfl)
      · simp [Session.proceed, hc, isReturn_exec _ fun span heq => hn ⟨span, heq⟩] at hreturn
  | value w =>
      cases hp : s.machine.pending with
      | nil =>
          rw [proceed_value hc, withTask_nil hp, isReturn_finishCompleted] at hreturn
          cases hreturn
      | cons p rest =>
          rw [proceed_value hc, withTask_cons hp] at h hreturn ⊢
          by_cases hq : p = .returned
          · subst hq
            cases h
            exact .inl (.value hc hp)
          · simp [isReturn_resume _ w hq] at hreturn
  | complete c =>
      cases hp : s.machine.pending with
      | nil =>
          rw [proceed_complete hc, withTask_nil hp, isReturn_finishCompleted] at hreturn
          cases hreturn
      | cons p rest =>
          rw [proceed_complete hc, withTask_cons hp] at h hreturn ⊢
          cases c with
          | next => simp [isReturn_proceed_next] at hreturn
          | returned w =>
              have hfits := (hs.of_due (d := .completion) (by rw [hc]; rfl) (by simp [hc])).1
              rw [hp] at hfits
              by_cases henclosing : p.encloses = true
              · obtain ⟨span, hproceed⟩ := proceed_returned
                  (m := { s.machine with pending := rest }) (v := w) henclosing
                  s.controller.cancelled
                simp only [hproceed, Control.complete.injEq, Completion.returned.injEq] at h ⊢
                exact .inr ⟨p, henclosing, by rw [h], rfl⟩
              · have htakes := hfits.tail.1
                cases p <;> first | simp [Pending.encloses] at henclosing; done
                                  | simp [Pending.takes] at htakes; done
                                  | cases hreturn
  | fail e =>
      cases hp : s.machine.pending with
      | nil =>
          rw [proceed_fail hc, withTask_nil hp, isReturn_finishFailed] at hreturn
          cases hreturn
      | cons p rest =>
          rw [proceed_fail hc, withTask_cons hp] at hreturn
          cases hreturn.symm.trans (isReturn_unwind (m := { s.machine with pending := rest }) hc p)
  | crash text =>
      cases hp : s.machine.pending with
      | nil =>
          rw [proceed_crash hc, withTask_nil hp] at hreturn
          cases hreturn
      | cons p rest =>
          rw [proceed_crash hc, withTask_cons hp] at hreturn
          cases hreturn.symm.trans
            (isReturn_collapse (m := { s.machine with pending := rest }) hc p)

/-! ### Returns on their way -/

/-- A return of `v` is on its way to the tasks `base`, where it is after `n` steps. -/
inductive Passing (v : Value) (base : List Pending) (n : Nat) (s : Session) : Prop where
  | returning {inner : List Pending} (encloses : ∀ p ∈ inner, p.encloses = true)
      (returning : Returning v (inner ++ base) s) (length : n = inner.length + 1)
  | passing {inner : List Pending} (encloses : ∀ p ∈ inner, p.encloses = true)
      (control : s.machine.control = .complete (.returned v))
      (pending : s.machine.pending = inner ++ base) (length : n = inner.length)

variable {base K : List Pending} {n : Nat} {es : List Event}

lemma Passing.suffix (h : Passing v base n s) : base <:+ s.machine.pending := by
  cases h with
  | @returning inner _ returning _ =>
      cases returning with
      | bare _ pending _ =>
          rw [pending]
          exact List.suffix_append _ _
      | value _ pending =>
          rw [pending]
          exact List.suffix_append (.returned :: inner) base
  | passing _ _ pending _ =>
      rw [pending]
      exact List.suffix_append _ _

/-- It has arrived when no steps are left. -/
lemma Passing.arrived (h : Passing v base 0 s) :
    s.machine.control = .complete (.returned v) ∧ s.machine.pending = base := by
  cases h with
  | returning _ _ length => cases length
  | @passing inner _ control pending length =>
      cases List.eq_nil_of_length_eq_zero length.symm
      exact ⟨control, pending⟩

/-- With everything that the run goes on with, one of the statements around the return is dropped,
and nothing else happens. -/
lemma Passing.proceed (h : Passing v base (n + 1) s) :
    Passing v base n s.proceed ∧ s.proceed.machine.control = .complete (.returned v) ∧
      s.proceed.machine.store = s.machine.store ∧ s.proceed.controller = s.controller := by
  cases h with
  | @returning inner encloses returning length =>
      refine ⟨.passing encloses ?_ ?_ (Nat.succ.inj length), ?_, ?_, ?_⟩
      · rw [returning.proceed]
      · rw [returning.proceed]
      · rw [returning.proceed]
      · rw [returning.proceed]
      · cases returning with
        | bare control _ _ => simp only [Session.proceed, control]
        | value control pending => rw [proceed_value control, withTask_cons pending]
  | @passing inner encloses control pending length =>
      cases inner with
      | nil => cases length
      | cons p inner =>
          obtain ⟨hp, hinner⟩ := List.forall_mem_cons.mp encloses
          obtain ⟨span, hproceed⟩ := proceed_returned
            (m := { s.machine with pending := inner ++ base }) (v := v) hp s.controller.cancelled
          have hstep : s.proceed = { s with machine :=
              { s.machine with
                pending := inner ++ base, current := span, control := .complete (.returned v) } } := by
            rw [proceed_complete control, withTask_cons pending]
            exact congrArg (fun m => { s with machine := m }) hproceed
          rw [hstep]
          exact ⟨.passing hinner rfl rfl (Nat.succ.inj length), rfl, rfl, rfl⟩

/-- The run neither waits nor is held up meanwhile. -/
lemma Passing.moves (h : Passing v base n s) :
    (∀ site next, s.machine.control ≠ .held site next) ∧
      ∀ n, s.machine.control ≠ .boundary .paused n := by
  cases h with
  | returning _ returning _ =>
      cases returning with
      | bare control _ _ => simp [control]
      | value control _ => simp [control]
  | passing _ control _ _ => simp [control]

/-- It is a matter of the machine. -/
lemma Passing.of_machine_eq {t : Session} (h : Passing v base n s)
    (hmachine : t.machine = s.machine) : Passing v base n t := by
  cases h with
  | returning encloses returning length =>
      refine .returning encloses ?_ length
      cases returning with
      | bare control pending nothing =>
          exact .bare (hmachine ▸ control) (hmachine ▸ pending) nothing
      | value control pending => exact .value (hmachine ▸ control) (hmachine ▸ pending)
  | passing encloses control pending length =>
      exact .passing encloses (hmachine ▸ control) (hmachine ▸ pending) length

/-- What happens aside has no influence on a return. -/
lemma Passing.aside {t : Session} (h : Passing v base n s) (hside : Aside s t) :
    Passing v base n t ∧ t.machine = s.machine := by
  have hmachine := hside.machine_eq h.moves.1 h.moves.2
  exact ⟨h.of_machine_eq hmachine, hmachine⟩

/-- Commands have no influence on a return either. -/
lemma Passing.command (h : Passing v base n s) {e : Event} (he : e ≠ .step) :
    Passing v base n (s.happen e) ∧ (s.happen e).machine = s.machine := by
  rcases happen_cases s e with ⟨hgoes, -⟩ | ⟨-, hside⟩
  · simp [goesOn, he] at hgoes
  · exact h.aside hside

/-- What happens from a return until it arrives, if there is nothing to report. -/
theorem Passing.after (h : Passing v base n s) (hr : s.controller.reporting = false)
    (hes : es.count .step ≤ n) :
    Passing v base (n - es.count .step) (s.after es) ∧
      (s.after es).controller.reporting = false ∧
      (s.after es).machine.store = s.machine.store ∧
      (s.machine.control = .complete (.returned v) ∨ 0 < es.count .step →
        (s.after es).machine.control = .complete (.returned v)) := by
  induction es generalizing s n with
  | nil => exact ⟨h, hr, rfl, fun hc => hc.resolve_right (Nat.lt_irrefl 0)⟩
  | cons e es ih =>
      by_cases he : e = .step
      · subst he
        rw [List.count_cons_self] at hes ⊢
        cases n with
        | zero => omega
        | succ n =>
            obtain ⟨hnext, hcontrol, hstore, hcontroller⟩ := h.proceed
            obtain ⟨hrest, hr', hsame, hreturned⟩ := ih (n := n) hnext (by rwa [hcontroller])
              (by omega)
            rw [Nat.succ_sub_succ, after_cons, happen, step_of_not_reporting hr]
            exact ⟨hrest, hr', hsame.trans hstore, fun _ => hreturned (.inl hcontrol)⟩
      · rw [List.count_cons_of_ne he] at hes ⊢
        obtain ⟨hnext, hmachine⟩ := h.command he
        have hrest := ih hnext (by rwa [reporting_of_command he]) hes
        rwa [hmachine] at hrest

/-- The task that leaves the invocation has the value that is returned for the caller, and takes
its frame away. -/
lemma Passing.leaves (h : Passing v (.invocation :: K) 0 s) :
    s.proceed.machine.control = .value v ∧ s.proceed.machine.pending = K ∧
      s.proceed.machine.store = s.machine.store.pop := by
  obtain ⟨hcontrol, hpending⟩ := h.arrived
  rw [proceed_complete hcontrol, withTask_cons hpending]
  exact ⟨rfl, rfl, rfl⟩

/-- A return outside every procedure settles the outcome of the run. -/
lemma Passing.ends (h : Passing v [] 0 s) :
    s.proceed.machine.control = .ending (.completed v) ∧ s.proceed.controller = s.controller := by
  obtain ⟨hcontrol, hpending⟩ := h.arrived
  rw [proceed_complete hcontrol, withTask_nil hpending]
  exact ⟨rfl, rfl⟩

/-- Commands have no influence on an outcome that is settled. -/
lemma after_ending {o : Outcome} (hc : s.machine.control = .ending o)
    (hr : s.controller.reporting = false) (hes : es.count .step = 0) :
    (s.after es).machine.control = .ending o ∧ (s.after es).controller.reporting = false := by
  induction es generalizing s with
  | nil => exact ⟨hc, hr⟩
  | cons e es ih =>
      by_cases he : e = .step
      · simp [he] at hes
      · rw [List.count_cons_of_ne he] at hes
        refine ih ?_ (by rwa [reporting_of_command he]) hes
        rcases happen_command s he with heq | ⟨site, next, hheld, -⟩
        · rw [heq]
          exact hc
        · simp [hc] at hheld

/-- So the run ends with what is returned. -/
lemma Passing.ended (h : Passing v [] n s) (hr : s.controller.reporting = false)
    (hes : es.count .step = n + 1) : (s.after es).step.machine.control = .ended (.completed v) := by
  suffices hending : (s.after es).machine.control = .ending (.completed v) ∧
      (s.after es).controller.reporting = false by
    rw [step_of_not_reporting hending.2]
    simp only [Session.proceed, hending.1]
    rfl
  induction es generalizing s n with
  | nil => simp at hes
  | cons e es ih =>
      by_cases he : e = .step
      · subst he
        rw [List.count_cons_self, Nat.add_right_cancel_iff] at hes
        rw [after_cons, happen, step_of_not_reporting hr]
        cases n with
        | zero =>
            obtain ⟨hcontrol, hcontroller⟩ := h.ends
            exact after_ending hcontrol (by rwa [hcontroller]) hes
        | succ n =>
            obtain ⟨hnext, -, -, hcontroller⟩ := h.proceed
            exact ih hnext (by rwa [hcontroller]) hes
      · rw [List.count_cons_of_ne he] at hes
        exact ih (h.command he).1 (by rwa [reporting_of_command he]) hes

/-- A return is on its way as long as the invocation lasts. -/
lemma Passing.lasts {a : Session} (h : Passing v (.invocation :: K) n a) (hl : Lasts K a es) :
    ∃ m, Passing v (.invocation :: K) m (a.after es) := by
  induction es generalizing a n with
  | nil => exact ⟨n, h⟩
  | cons e es ih =>
      rcases happen_cases a e with ⟨-, heq⟩ | ⟨-, hside⟩
      · cases n with
        | zero =>
            obtain ⟨hcontrol, hpending, -⟩ := h.leaves
            refine absurd ⟨?_, ?_⟩ (hl.tail.before [] List.nil_prefix)
            · rw [after_nil, heq]
              exact hpending
            · rw [after_nil, heq, hcontrol]
              rfl
        | succ n => exact ih (heq ▸ h.proceed.1) hl.tail
      · exact ih (h.aside hside).1 hl.tail

/-- The run is about to complete a return statement of the invocation above the tasks `K`. -/
def ReturnsAbove (K : List Pending) (v : Value) (s : Session) : Prop :=
  ∃ inner : List Pending, (∀ p ∈ inner, p.encloses = true) ∧
    Returning v (inner ++ .invocation :: K) s

/-- The invocation has the value that one of its return statements has returned. -/
lemma ReturnsAbove.yields {a : Session} {es₁ : List Event} (hl : Ends K a es) (hes : es₁ <+: es)
    (h : ReturnsAbove K v (a.after es₁)) : (a.after es).step.machine.control = .value v := by
  obtain ⟨es₂, rfl⟩ := hes
  obtain ⟨inner, hinner, hreturning⟩ := h
  obtain ⟨m, hm⟩ := (Passing.returning hinner hreturning rfl).lasts hl.drop.toLasts
  rw [← after_append] at hm
  -- the task that leaves the invocation would still be there otherwise
  have hstays : ∀ {k : Nat}, ¬ Passing v (.invocation :: K) k (a.after (es₁ ++ es₂)).step := by
    intro k hk
    have hsuffix := hk.suffix.length_le
    rw [hl.resolved.1] at hsuffix
    exact absurd hsuffix (Nat.not_le.mpr (Nat.lt_succ_self _))
  rcases happen_cases (a.after (es₁ ++ es₂)) .step with ⟨-, heq⟩ | ⟨-, hside⟩
  · cases m with
    | zero => exact (congrArg (·.machine.control) heq).trans hm.leaves.1
    | succ m => exact absurd (heq ▸ hm.proceed.1) hstays
  · exact absurd (hm.aside hside).1 hstays

/-- A return that comes to the statements of an invocation comes from one of them. -/
theorem returning_of_returned {a : Session} (hs : Sound a.machine)
    (hstart : a.machine.control.isReturn = false) {inner : List Pending}
    (hinner : ∀ p ∈ inner, p.encloses = true)
    (hc : (a.after es).machine.control = .complete (.returned v))
    (hp : (a.after es).machine.pending = inner ++ .invocation :: K) :
    ∃ es₁, es₁ <+: es ∧ ReturnsAbove K v (a.after es₁) := by
  induction es using List.reverseRecOn generalizing inner with
  | nil =>
      rw [after_nil] at hc
      rw [hc] at hstart
      cases hstart
  | append_singleton es e ih =>
      have hlater : (∃ es₁, es₁ <+: es ∧ ReturnsAbove K v (a.after es₁)) →
          ∃ es₁, es₁ <+: es ++ [e] ∧ ReturnsAbove K v (a.after es₁) :=
        fun ⟨es₁, hes₁, h⟩ => ⟨es₁, hes₁.trans (List.prefix_append _ _), h⟩
      rw [after_append] at hc hp
      change ((a.after es).happen e).machine.control = _ at hc
      change ((a.after es).happen e).machine.pending = _ at hp
      rcases happen_cases (a.after es) e with ⟨-, heq⟩ | ⟨-, hside⟩
      · rw [heq] at hc hp
        rcases returning_or_returned (sound_after hs es) hc with hreturning | ⟨p, hq, hc', hp'⟩
        · rw [hp] at hreturning
          exact ⟨es, List.prefix_append _ _, inner, hinner, hreturning⟩
        · rw [hp] at hp'
          exact hlater (ih (List.forall_mem_cons.mpr ⟨hq, hinner⟩) hc' hp')
      · generalize (a.after es).happen e = t at hside hc hp
        cases hside with
        | controls c => exact hlater (ih hinner hc hp)
        | release _ => cases hc
        | falter c _ => cases hc

/-! ### The end of an invocation -/

/-- The task that leaves an invocation has the result of its body for the caller, or lets a failure
or a breakdown pass. -/
lemma proceed_invocation (hs : Sound s.machine) (hp : s.machine.pending = .invocation :: K)
    (hresult : s.machine.control.isResult = true) :
    s.proceed.machine.pending = K ∧
      ((∃ c, s.machine.control = .complete c ∧ s.proceed.machine.control = .value c.result) ∨
        s.proceed.machine.control.isBroken = true) := by
  cases hc : s.machine.control with
  | value v =>
      rcases hs.of_value hc with hfits | hfits
      · rw [hp] at hfits
        cases hfits.tail.1
      · rw [hp] at hfits
        cases hfits.tail.1
  | complete c =>
      rw [proceed_complete hc, withTask_cons hp]
      cases c with
      | next => exact ⟨rfl, .inl ⟨_, rfl, rfl⟩⟩
      | returned v => exact ⟨rfl, .inl ⟨_, rfl, rfl⟩⟩
  | fail e =>
      rw [proceed_fail hc, withTask_cons hp]
      refine ⟨rfl, .inr ?_⟩
      change s.machine.control.isBroken = true
      rw [hc]
      rfl
  | crash text =>
      rw [proceed_crash hc, withTask_cons hp]
      refine ⟨rfl, .inr ?_⟩
      change s.machine.control.isBroken = true
      rw [hc]
      rfl
  | _ => simp [hc, Control.isResult] at hresult

/-- What is evaluated for a return statement. -/
lemma returning_of_ends {a : Session} (hs : Sound a.machine) {L : List Pending}
    (hl : Ends (.returned :: L) a es) :
    (∃ v, Returning v L (a.after es).step) ∨
      (a.after es).step.machine.control.isBroken = true := by
  obtain ⟨hpending, hresult⟩ := hl.resolved
  have hs' := sound_happen (sound_after hs es) .step
  change Sound (a.after es).step.machine at hs'
  cases hc : (a.after es).step.machine.control with
  | value v => exact .inl ⟨v, .value hc hpending⟩
  | complete c =>
      have hfits := (hs'.of_due (d := .completion) (by rw [hc]; rfl) (by simp [hc])).1
      rw [hpending] at hfits
      cases hfits.tail.1
  | fail e => exact .inr rfl
  | crash text => exact .inr rfl
  | _ => simp [hc, Control.isResult] at hresult

/-- What comes of an invocation. -/
lemma invocation_ends {a : Session} (hs : Sound a.machine)
    (hstart : a.machine.control.isReturn = false)
    (hp : .invocation :: K <:+ a.machine.pending) (hl : Ends K a es) :
    (∃ v es₁, es₁ <+: es ∧ ReturnsAbove K v (a.after es₁)) ∨
      (a.after es).step.machine.control = .value .nothing ∨
      (a.after es).step.machine.control.isBroken = true := by
  obtain ⟨es', htaken, hafter⟩ := hl.taken hs hp
  have hs' := sound_after hs es'
  obtain ⟨hpending, houtcome⟩ := proceed_invocation hs' htaken.pending htaken.result
  have hresolved : Resolved K (a.after es').proceed := by
    refine ⟨hpending, ?_⟩
    rcases houtcome with ⟨c, -, hc⟩ | hbroken
    · rw [hc]
      rfl
    · exact Control.isResult_of_isBroken hbroken
  cases hafter.eq hresolved
  rw [step_of_not_reporting hafter.1]
  rcases houtcome with ⟨c, hc, hvalue⟩ | hbroken
  · cases c with
    | next => exact .inr (.inl hvalue)
    | returned v =>
        have hnone : ∀ p ∈ ([] : List Pending), p.encloses = true := by simp
        obtain ⟨es₁, hes₁, hreturns⟩ :=
          returning_of_returned hs hstart hnone hc htaken.pending
        exact .inl ⟨v, es₁, hes₁, hreturns⟩
  · exact .inr (.inr hbroken)

/-- The tasks that a return comes to wait for the completion of a statement. -/
lemma Returning.fits (hs : Sound s.machine) (h : Returning v L s) : Fits .completion L := by
  cases h with
  | bare control pending _ =>
      have hfits := (hs.of_due (d := .completion) (by rw [control]; rfl) (by simp [control])).1
      rwa [pending] at hfits
  | value control pending =>
      rcases hs.of_value control with hfits | hfits
      · rw [pending] at hfits
        exact hfits.tail.2
      · rw [pending] at hfits
        cases hfits.tail.1

/-- A call that is over with a value has the frames of the caller. -/
lemma frameIds_of_ends {a : Session} (hs : Sound a.machine) {name : String} {args : List Value}
    {site : Span} (hcall : a.machine.control = .call name args site)
    (hl : Ends a.machine.pending a.step es)
    (hvalue : (a.step.after es).step.machine.control.isBroken = false) :
    (a.step.after es).step.machine.store.frameIds = a.machine.store.frameIds := by
  obtain ⟨hpending, hresult⟩ := hl.resolved
  have hwithin : Within a.machine.pending a (Event.step :: es ++ [Event.step]) := by
    refine within_cons.mpr ⟨List.suffix_rfl, fun es' hes' => ?_⟩
    rcases List.prefix_concat_iff.mp hes' with rfl | hes'
    · rw [after_append]
      exact hpending ▸ List.suffix_rfl
    · exact hl.within es' hes'
  have hsettles : Settles a.machine.pending a (a.step.after es).step :=
    ⟨_, hwithin, by rw [List.cons_append, after_cons, after_append]; rfl, hpending⟩
  have hs' := hsettles.sound hs
  have hfinishes : (a.step.after es).step.machine.control.finishes = true := by
    cases hc : (a.step.after es).step.machine.control <;>
      simp_all [Control.isResult, Control.isBroken, Control.finishes]
  obtain ⟨d, hd⟩ := Control.due?_of_finishes hfinishes
  have hdepth := (hs'.balanced hd).2
  rw [hpending] at hdepth
  exact hsettles.frameIds_eq hs (hs.balanced (d := .value) (by rw [hcall]; rfl)).2 hdepth

/-- **A return ends its invocation.**  Take any moment `a` of any run.

* If a return statement is executed at `a`, it returns nothing if it has no value, and otherwise
  what its value is evaluated to, unless that fails.
* If a return statement completes with `v` at `a`, with any statements around it, all that happens
  until its invocation is over is that the return is passed on by these statements, one with each
  step, after the report if one is due at `a`.  Then the run is completed with `v`, which it shows
  with one step more, or the call has the value `v`, and the frame of the procedure is gone.
* If a procedure is entered at `a`, its call is over at `b` and none of its own statements has
  returned anything, then the call has failed or it has no value, whatever has been returned by
  calls that the procedure made.  If one of them has returned `v`, the call has the value `v`.  A
  call that has not failed goes on with the tasks and in the frames of the caller. -/
theorem return_ends_invocation {a : Session} (ha : a.Reachable) :
    (∀ span value, a.machine.control = .exec (.return span value) →
      (value = .missing → Returning .nothing a.machine.pending a) ∧
      (value ≠ .missing → a.onward.machine.control = .eval value ∧
        ∀ es, Ends (.returned :: a.machine.pending) a.onward es →
          (∃ v, Returning v a.machine.pending (a.onward.after es).step) ∨
            (a.onward.after es).step.machine.control.isBroken = true)) ∧
    (∀ v L, Returning v L a → ∃ inner base, L = inner ++ base ∧
      (∀ p ∈ inner, p.encloses = true) ∧
      let due := a.controller.reporting.toNat
      (∀ es, due < es.count .step → es.count .step ≤ inner.length + 1 + due →
        (a.after es).machine.control = .complete (.returned v)) ∧
      (base = [] ∧ (∀ es, es.count .step = inner.length + 2 + due →
          (a.after es).step.machine.control = .ended (.completed v)) ∨
        ∃ K, base = .invocation :: K ∧ ∀ es, es.count .step = inner.length + 1 + due →
          (a.after es).step.machine.control = .value v ∧
          (a.after es).step.machine.pending = K ∧
          (a.after es).step.machine.store = a.machine.store.pop)) ∧
    (∀ name args site es, a.machine.control = .call name args site →
      a.step.machine.pending = .invocation :: a.machine.pending →
      Ends a.machine.pending a.step es → ∀ b, b = (a.step.after es).step →
      b.machine.pending = a.machine.pending ∧
      (∀ v es₁, es₁ <+: es → ReturnsAbove a.machine.pending v (a.step.after es₁) →
        b.machine.control = .value v) ∧
      ((∀ v es₁, es₁ <+: es → ¬ ReturnsAbove a.machine.pending v (a.step.after es₁)) →
        b.machine.control = .value .nothing ∨ b.machine.control.isBroken = true) ∧
      (b.machine.control.isBroken = false →
        b.machine.store.frameIds = a.machine.store.frameIds)) := by
  have hs := ha.sound
  refine ⟨fun span value hc => ⟨?_, fun hvalue => ⟨?_, fun es hl => ?_⟩⟩, fun v L h => ?_,
    fun name args site es hc hp hl b hb => ⟨?_, ?_, ?_, ?_⟩⟩
  · rintro rfl
    exact .bare hc rfl rfl
  · obtain ⟨c, -, honward⟩ := exists_onward (s := a) (by simp [hc])
    rw [honward]
    simp only [Session.proceed, hc]
    cases value <;> first | rfl | exact absurd rfl hvalue
  · exact returning_of_ends (sound_after hs _) hl
  · obtain ⟨inner, base, rfl, hinner, hbase⟩ := (h.fits hs).split
    have hpassing := Passing.returning hinner h rfl
    -- from when the report has been made
    have hgoes {es : List Event} (hdue : a.controller.reporting.toNat ≤ es.count .step) :=
      exists_goes hpassing.moves.1 hpassing.moves.2 hdue
    refine ⟨inner, base, rfl, hinner, fun es hdue hle => ?_, ?_⟩
    · obtain ⟨b, es', hafter, hcount, hmachine, hr⟩ := hgoes (Nat.le_of_lt hdue)
      rw [hafter]
      exact ((hpassing.of_machine_eq hmachine).after hr (by omega)).2.2.2 (.inr (by omega))
    · rcases hbase with rfl | ⟨K, rfl⟩
      · refine .inl ⟨rfl, fun es hes => ?_⟩
        obtain ⟨b, es', hafter, hcount, hmachine, hr⟩ := @hgoes es (by omega)
        rw [hafter]
        exact (hpassing.of_machine_eq hmachine).ended hr (by omega)
      · refine .inr ⟨K, rfl, fun es hes => ?_⟩
        obtain ⟨b, es', hafter, hcount, hmachine, hr⟩ := @hgoes es (by omega)
        obtain ⟨hrest, hr', hstore, -⟩ :=
          @Passing.after _ _ _ _ es' (hpassing.of_machine_eq hmachine) hr (by omega)
        rw [show inner.length + 1 - es'.count .step = 0 by omega] at hrest
        rw [hafter, step_of_not_reporting hr', ← hmachine, ← hstore]
        exact hrest.leaves
  · rw [hb]
    exact hl.resolved.1
  · intro v es₁ hes₁ hreturns
    rw [hb]
    exact hreturns.yields hl hes₁
  · intro hnone
    rw [hb]
    have hstart : a.step.machine.control.isReturn = false := by
      rw [ha.step_eq (by rw [hc]; rfl)]
      simp only [Session.proceed, hc]
      exact isReturn_call _ _ _ _
    have hsuffix : .invocation :: a.machine.pending <:+ a.step.machine.pending :=
      hp ▸ List.suffix_rfl
    refine (invocation_ends (sound_happen hs .step) hstart hsuffix hl).resolve_left ?_
    rintro ⟨v, es₁, hes₁, hreturns⟩
    exact hnone v es₁ hes₁ hreturns
  · rw [hb]
    exact frameIds_of_ends hs hc hl

/-- Whether the run is about to complete a return statement. -/
def returnsNext (s : Session) : Bool :=
  match s.machine.control, s.machine.pending with
  | .exec (.return _ .missing), _ => true
  | .value _, .returned :: _ => true
  | _, _ => false

lemma ReturnsAbove.returnsNext (h : ReturnsAbove K v s) : s.returnsNext = true := by
  obtain ⟨inner, -, hreturning⟩ := h
  cases hreturning with
  | bare control pending _ => simp [Session.returnsNext, control]
  | value control pending => simp [Session.returnsNext, control, pending]

/-- Inside a loop and a conditional, `g` returns a text; `f` calls it, but returns nothing
itself. -/
def relaying : Program where
  statements := [.call .none (some ⟨.none, "f"⟩) []]
  procedures := [
    some (.of .none (some ⟨.none, "f"⟩) [] (.of .none [.call .none (some ⟨.none, "g"⟩) []])),
    some (.of .none (some ⟨.none, "g"⟩) [] (.of .none [
      .repeatUntil .none (.literal .none (.bool false)) (.of .none [
        .ifElse .none [.of .missing (.of .none [.return .none (.literal .none (.text "a"))])],
        .pass .none])]))]

/-- The session after some steps. -/
def relayingAfter (n : Nat) : Session := (begun relaying {}).after (List.replicate n .step)

lemma relayingAfter_step (n : Nat) : (relayingAfter n).step = relayingAfter (n + 1) := by
  rw [relayingAfter, relayingAfter, List.replicate_succ', after_append]
  rfl

lemma relayingAfter_step_after (n k : Nat) :
    (relayingAfter n).step.after (List.replicate k .step) = relayingAfter (n + 1 + k) := by
  rw [relayingAfter_step, relayingAfter, relayingAfter, ← after_append,
    List.replicate_append_replicate]

set_option maxRecDepth 1000 in
/-- The text that `g` returns comes to the end of `g` through seven statements, and `f` goes on with
it; the call of `f` itself has no value. -/
theorem return_ends_invocation_relayed :
    (relayingAfter 13).Reachable ∧ (relayingAfter 6).Reachable ∧
    Ends (relayingAfter 13).machine.pending (relayingAfter 13).step (List.replicate 28 .step) ∧
    Ends (relayingAfter 6).machine.pending (relayingAfter 6).step (List.replicate 39 .step) ∧
    ReturnsAbove (relayingAfter 13).machine.pending (.text "a") (relayingAfter 34) ∧
    (relayingAfter 43).machine.control = .value (.text "a") ∧
    (relayingAfter 43).machine.store.frameIds = [(globalLabel, 0), ("f", 1)] ∧
    (relayingAfter 47).machine.control = .value .nothing := by
  have hreachable : ∀ n, (relayingAfter n).Reachable := fun n =>
    (reachable_begun (t := begun relaying {}) rfl).after _
  have hg : Ends (relayingAfter 13).machine.pending (relayingAfter 13).step
      (List.replicate 28 .step) := by
    refine ⟨?_, rfl, rfl⟩
    iterate 28 refine .cons (List.suffix_iff_eq_drop.mpr rfl) (not_resolved (by decide)) ?_
    exact .nil (List.suffix_iff_eq_drop.mpr rfl) (not_resolved (by decide))
  have hf : Ends (relayingAfter 6).machine.pending (relayingAfter 6).step
      (List.replicate 39 .step) := by
    refine ⟨?_, rfl, rfl⟩
    iterate 39 refine .cons (List.suffix_iff_eq_drop.mpr rfl) (not_resolved (by decide)) ?_
    exact .nil (List.suffix_iff_eq_drop.mpr rfl) (not_resolved (by decide))
  have hreturns : ReturnsAbove (relayingAfter 13).machine.pending (.text "a") (relayingAfter 34) :=
    ⟨(relayingAfter 34).machine.pending.tail.take 7, by decide, .value rfl rfl⟩
  obtain ⟨-, -, hcalls⟩ := return_ends_invocation (hreachable 13)
  obtain ⟨-, hvalue, -, hframes⟩ := hcalls "g" [] .none _ rfl rfl hg (relayingAfter 43)
    (by rw [relayingAfter_step_after, relayingAfter_step])
  refine ⟨hreachable 13, hreachable 6, hg, hf, hreturns, ?_, ?_, ?_⟩
  · refine hvalue _ (List.replicate 20 .step) ⟨List.replicate 8 .step, rfl⟩ ?_
    rwa [relayingAfter_step_after]
  · exact hframes rfl
  · obtain ⟨-, -, hcalls⟩ := return_ends_invocation (hreachable 6)
    obtain ⟨-, -, hnothing, -⟩ := hcalls "f" [] .none _ rfl rfl hf (relayingAfter 47)
      (by rw [relayingAfter_step_after, relayingAfter_step])
    refine (hnothing fun v es₁ hes₁ h => ?_).resolve_right Bool.false_ne_true
    obtain ⟨hle, hes⟩ := List.prefix_replicate_iff.mp hes₁
    have hnone : ∀ k ≤ 39, k ≠ 27 →
        ((relayingAfter 6).step.after (List.replicate k .step)).returnsNext = false := by
      decide +kernel
    by_cases hk : es₁.length = 27
    · -- this is the return of `g`, and below it is the task that leaves `g`
      rw [hes, hk] at h
      obtain ⟨inner, hinner, hreturning⟩ := h
      cases hreturning with
      | bare control _ _ => cases control
      | value _ pending =>
          have hlength : inner.length = 11 := by
            have hlengths := congrArg List.length pending
            have hall : ((relayingAfter 6).step.after
              (List.replicate 27 .step)).machine.pending.length = 16 := rfl
            have hbelow : (relayingAfter 6).machine.pending.length = 3 := rfl
            simp only [List.length_cons, List.length_append, hall, hbelow] at hlengths
            omega
          have htake := congrArg (fun L => L.tail.take 11) pending
          simp only [List.tail_cons, ← hlength, List.take_left] at htake
          rw [← htake, hlength] at hinner
          exact absurd (List.all_eq_true.mpr hinner) (by decide)
    · have hnext := h.returnsNext
      rw [hes, hnone _ hle hk] at hnext
      cases hnext

end Session

end Pseudocode
