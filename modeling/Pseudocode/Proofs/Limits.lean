/-
# Limits

A run may be limited in the number of statements it begins and in the number of calls in progress.
The limits are looked at when a statement reaches its boundary and when a procedure is entered, and
nothing else depends on them.  So under laxer limits a run takes the same steps, up to the moment
at which it would have come to the tighter ones.  With the builtin functions it fails then, since
nothing catches the failure, and writes nothing more.

The main results are

* `Session.step_withLimits`: a run under laxer limits takes the same step, unless the tighter
  limits end it;
* `Session.limits_transparent`: what the run under the tighter limits comes to is what the run
  under the laxer limits comes to, or a part of it.
-/
import Pseudocode.Proofs.Stepping

namespace Pseudocode
namespace Machine

/-- The machine under other limits. -/
def withLimits (m : Machine) (steps depth : Nat) : Machine :=
  { m with maxSteps := steps, maxDepth := depth }

variable (m : Machine) (k d : Nat)

@[simp] lemma control_withLimits : (m.withLimits k d).control = m.control := rfl

@[simp] lemma store_withLimits : (m.withLimits k d).store = m.store := rfl

@[simp] lemma heap_withLimits : (m.withLimits k d).heap = m.heap := rfl

@[simp] lemma functions_withLimits : (m.withLimits k d).functions = m.functions := rfl

@[simp] lemma random_withLimits : (m.withLimits k d).random = m.random := rfl

@[simp] lemma lastDisplay_withLimits : (m.withLimits k d).lastDisplay = m.lastDisplay := rfl

lemma readVariable_withLimits (span : Span) (name : String) :
    (m.withLimits k d).readVariable span name = (m.readVariable span name).withLimits k d := by
  unfold readVariable
  rw [store_withLimits]
  split
  · rfl
  · rfl

lemma eval_withLimits (n : Node) : (m.withLimits k d).eval n = (m.eval n).withLimits k d := by
  unfold eval
  split
  · rfl
  · split
    · rfl
    · rfl
  · rfl
  · rfl
  · rfl
  · rfl
  · rfl
  · rfl
  · exact readVariable_withLimits m k d _ _
  · rfl
  · rfl
  · rfl
  · rfl
  · rfl
  · rfl
  · rfl
  · rfl

lemma readElement_withLimits (span : Span) (name : String) (index : Value) :
    (m.withLimits k d).readElement span name index =
      (m.readElement span name index).withLimits k d := by
  unfold readElement
  rw [store_withLimits, heap_withLimits]
  split
  · rfl
  · split
    · rfl
    · split
      · rfl
      · rfl
    · rfl

lemma writeElement_withLimits (span : Span) (id : ListId) (p : Int) (v : Value) :
    (m.withLimits k d).writeElement span id p v = (m.writeElement span id p v).withLimits k d := by
  unfold writeElement
  rw [heap_withLimits]
  dsimp only
  split
  · rfl
  · split
    · rfl
    · rfl

lemma listForWriting_withLimits (name : String) :
    (m.withLimits k d).listForWriting name =
      ((m.listForWriting name).1, (m.listForWriting name).2.withLimits k d) := by
  unfold listForWriting
  rw [store_withLimits]
  split
  · rfl
  · rfl

lemma commit_withLimits (v : Value) (target : Target) :
    (m.withLimits k d).commit v target = (m.commit v target).withLimits k d := by
  cases target with
  | «variable» name => rfl
  | element span name p =>
      simp only [commit, listForWriting_withLimits]
      obtain ⟨w, m'⟩ := m.listForWriting name
      cases w with
      | list id => exact writeElement_withLimits m' k d span id p v
      | _ => rfl

lemma assign_withLimits (target value : Node) :
    (m.withLimits k d).assign target value = (m.assign target value).withLimits k d := by
  unfold assign
  split
  · rfl
  · rfl
  · rfl
  · rfl

lemma exec_withLimits (n : Node) : (m.withLimits k d).exec n = (m.exec n).withLimits k d := by
  unfold exec
  split
  · rfl
  · exact assign_withLimits m k d _ _
  · rfl
  · rfl
  · rfl
  · rfl
  · rfl
  · rfl
  · rfl
  · rfl
  · rfl
  · rfl
  · rfl

lemma block_withLimits (b : Block) : (m.withLimits k d).block b = (m.block b).withLimits k d := by
  cases b with
  | missing => rfl
  | of span statements => rfl

lemma choose_withLimits (branches : List Branch) :
    (m.withLimits k d).choose branches = (m.choose branches).withLimits k d := by
  unfold choose
  split
  · rfl
  · rfl
  · rfl

lemma resume_withLimits (v : Value) (p : Pending) :
    (m.withLimits k d).resume v p = (m.resume v p).withLimits k d := by
  unfold resume
  split
  · rfl
  · rw [heap_withLimits]
    split
    · rfl
    · rfl
  · rfl
  · split
    · rfl
    · rfl
  · rfl
  · rfl
  · exact readElement_withLimits m k d _ _ _
  · rfl
  · rfl
  · rfl
  · rfl
  · split
    · rfl
    · rfl
  · exact commit_withLimits m k d _ _
  · rfl
  · rfl
  · dsimp only
    split
    · rfl
    · rfl
  · split
    · rfl
    · rfl
  · split
    · rfl
    · rfl
  · split
    · rfl
    · rfl
  · rfl
  · rfl
  · rfl

lemma iterate_withLimits (cancelled : Bool) (p : Pending) (c : Control) :
    (m.withLimits k d).iterate cancelled p c = (m.iterate cancelled p c).withLimits k d := by
  unfold iterate
  split
  · rfl
  · rfl

lemma proceed_withLimits (cancelled : Bool) (c : Completion) (p : Pending) :
    (m.withLimits k d).proceed cancelled c p = (m.proceed cancelled c p).withLimits k d := by
  unfold proceed
  split
  · rfl
  · rfl
  · split
    · rfl
    · split
      · rfl
      · rfl
      · split
        · exact iterate_withLimits m k d _ _ _
        · rfl
      · exact iterate_withLimits m k d _ _ _
      · rw [heap_withLimits]
        split
        · rfl
        · split
          · rfl
          · rfl
      · rfl

lemma unwind_withLimits (e : Failure) (p : Pending) :
    (m.withLimits k d).unwind e p = (m.unwind e p).withLimits k d := by
  unfold unwind
  split
  · rfl
  · rw [store_withLimits]
    split
    · rfl
    · rfl
  · rfl

lemma collapse_withLimits (text : String) (p : Pending) :
    (m.withLimits k d).collapse text p = (m.collapse text p).withLimits k d := by
  unfold collapse
  split
  · rfl
  · rfl

end Machine

/-! ### Coming to a limit -/

/-- A limit allows what another one allows; zero stands for no limit. -/
def Admits (large small : Nat) : Prop := large = 0 ∨ 0 < small ∧ small ≤ large

lemma admits_refl (n : Nat) : Admits n n := by
  unfold Admits
  omega

/-- Whether a failure is that of a run which has come to one of its limits. -/
def Failure.exceeds (e : Failure) : Bool :=
  match e.fault? with
  | some f => f.kind == .maxStepsExceeded || f.kind == .callDepthExceeded
  | none => false

/-- A failure with a fault in it is not that of a stopped run. -/
lemma Failure.isStopped_of_fault? {e : Failure} {f : Fault} (h : e.fault? = some f) :
    e.isStopped = false := by
  induction e with
  | fault f' => rfl
  | stopped => simp [fault?] at h
  | host e => rfl
  | wrapped context inner ih => exact ih h

lemma Failure.exists_fault_of_exceeds {e : Failure} (h : e.exceeds = true) :
    ∃ f, e.fault? = some f := by
  unfold exceeds at h
  split at h
  · rename_i f hf
    exact ⟨f, hf⟩
  · simp at h

/-- Whether a run has ended because it came to one of its limits. -/
def Outcome.exceeds : Outcome → Bool
  | .failed e _ => e.exceeds
  | _ => false

namespace Machine

variable (m : Machine) {k d : Nat}

/-- Under a laxer limit a call goes on in the same way, unless the tighter limit ends it. -/
lemma call_withLimits (hd : Admits d m.maxDepth) (name : String) (args : List Value)
    (site : Span) :
    (m.withLimits k d).call name args site = (m.call name args site).withLimits k d ∨
      ∃ e, e.exceeds = true ∧ m.call name args site = m.goto (.fail e) := by
  unfold call
  rw [functions_withLimits]
  split
  · exact .inl rfl
  · split
    · exact .inl rfl
    · split
      · unfold invoke
        by_cases hdeep : 0 < m.maxDepth ∧ m.maxDepth < m.store.depth
        · refine .inr ⟨_, ?_, if_pos hdeep⟩
          rfl
        · have hdeep' : ¬(0 < d ∧ d < m.store.depth) := by
            unfold Admits at hd
            omega
          refine .inl ?_
          rw [if_neg hdeep]
          exact if_neg hdeep'
      · exact .inl rfl

end Machine

namespace Session

/-- The session under other limits. -/
def withLimits (s : Session) (steps depth : Nat) : Session :=
  { s with
    machine := s.machine.withLimits steps depth
    maxSteps := steps
    maxDepth := depth }

open Machine

variable {s t : Session} {k d : Nat}

/-- What the run goes on with brings it to one of its limits. -/
structure Strikes (s : Session) : Prop where
  control : ∃ e, e.exceeds = true ∧ s.proceed.machine.control = .fail e
  /-- Nothing else happens. -/
  rest : s.proceed =
    { s with machine := s.proceed.machine.withLimits s.machine.maxSteps s.machine.maxDepth }

@[simp] lemma machine_withLimits : (s.withLimits k d).machine = s.machine.withLimits k d := rfl

@[simp] lemma console_withLimits : (s.withLimits k d).console = s.console := rfl

@[simp] lemma controller_withLimits : (s.withLimits k d).controller = s.controller := rfl

lemma withMachine_withLimits {m m' : Machine} (h : m' = m.withLimits k d) :
    { s.withLimits k d with machine := m' } = { s with machine := m }.withLimits k d := by
  rw [h]
  rfl

lemma withTask_withLimits {next : Machine → Pending → Machine} {last : Session → Session}
    (hnext : ∀ m p, next (m.withLimits k d) p = (next m p).withLimits k d)
    (hlast : last (s.withLimits k d) = (last s).withLimits k d) :
    (s.withLimits k d).withTask next last = (s.withTask next last).withLimits k d := by
  cases hp : s.machine.pending with
  | nil =>
      have hp' : (s.withLimits k d).machine.pending = [] := hp
      rw [withTask_nil hp, withTask_nil hp', hlast]
  | cons p rest =>
      have hp' : (s.withLimits k d).machine.pending = p :: rest := hp
      rw [withTask_cons hp, withTask_cons hp']
      have hnext' := hnext { s.machine with pending := rest } p
      simp only [withLimits]
      rw [← hnext']
      rfl

lemma finishCompleted_withLimits (c : Completion) :
    (s.withLimits k d).finishCompleted c = (s.finishCompleted c).withLimits k d := by
  unfold finishCompleted
  rw [controller_withLimits]
  split
  · rfl
  · split
    · rfl
    · rfl

lemma finishFailed_withLimits (e : Failure) :
    (s.withLimits k d).finishFailed e = (s.finishFailed e).withLimits k d := by
  unfold finishFailed
  rw [controller_withLimits]
  split
  · rfl
  · rfl

lemma wake_withLimits (n : Node) :
    (s.withLimits k d).wake n = (s.wake n).withLimits k d := by
  unfold wake
  rw [controller_withLimits]
  split
  · rfl
  · rfl
  · rfl
  · rfl

/-- At its boundary a statement is no concern of the limits. -/
lemma pass_withLimits (n : Node) (p : Standing) :
    (s.withLimits k d).pass n p = (s.pass n p).withLimits k d := by
  cases p with
  | admitted =>
      simp only [pass, heed, controller_withLimits]
      by_cases hstepping : s.controller.stepping = true
      · by_cases htoken : s.controller.token = true
        · simp only [hstepping, htoken, if_true]
          rfl
        · by_cases hphase : s.controller.phase = .running
          · simp only [hstepping, htoken, hphase, if_true]
            rfl
          · simp only [hstepping, htoken, hphase, if_true, if_false]
            rfl
      · simp only [hstepping]
        rfl
  | throttled => rfl
  | delayed => rfl
  | paused => exact wake_withLimits n

lemma perform_withLimits (site : Span) (q : Request) (next : q.Answer → Action Value) :
    (s.withLimits k d).perform site q next = (s.perform site q next).withLimits k d := by
  cases q with
  | resume stepping =>
      simp only [perform, controller_withLimits]
      split
      · rfl
      · rfl
  | write text =>
      simp only [perform, console_withLimits]
      obtain ⟨e, console⟩ := s.console.write text
      rfl
  | display text =>
      simp only [perform, console_withLimits]
      obtain ⟨e, console⟩ := s.console.write text
      rfl
  | prompt text =>
      simp only [perform, console_withLimits, machine_withLimits, Machine.lastDisplay_withLimits]
      obtain ⟨line, console⟩ := s.console.prompt s.machine.lastDisplay text
      rfl
  | draw n =>
      rw [perform_draw, perform_draw, machine_withLimits, Machine.random_withLimits]
      generalize s.machine.random.below n = drawn
      rfl
  | _ => rfl

lemma act_withLimits (site : Span) (a : Action Value) :
    (s.withLimits k d).act site a = (s.act site a).withLimits k d := by
  cases a with
  | ask q next => exact perform_withLimits site q next
  | _ => rfl

lemma proceed_call_withLimits {name : String} {args : List Value} {site : Span}
    (hc : s.machine.control = .call name args site) (hd : Admits d s.machine.maxDepth) :
    (s.withLimits k d).proceed = s.proceed.withLimits k d ∨ Strikes s := by
  have hc' : (s.withLimits k d).machine.control = .call name args site := hc
  rcases Machine.call_withLimits s.machine hd name args site with h | ⟨e, he, h⟩
  · refine .inl ?_
    simp only [proceed, hc, hc']
    exact withMachine_withLimits h
  · have hproceed : s.proceed = { s with machine := s.machine.goto (.fail e) } := by
      simp only [proceed, hc, h]
    exact .inr ⟨⟨e, he, by rw [hproceed]; rfl⟩, by rw [hproceed]; rfl⟩

/-- At the boundary of a statement the laxer limit lets it pass, unless the tighter one does not. -/
lemma proceed_reach_withLimits {n : Node} (hc : s.machine.control = .reach n)
    (hk : Admits k s.machine.maxSteps) :
    (s.withLimits k d).proceed = s.proceed.withLimits k d ∨ Strikes s := by
  have hcounted : Counted s n → Counted (s.withLimits k d) n := by
    rintro ⟨hpresent, hwithin⟩
    refine ⟨hpresent, ?_⟩
    show ¬(0 < k ∧ k < s.machine.steps + 1)
    unfold Admits at hk
    omega
  have h := arrival_proceed hc
  rw [proceed_reach (s := s.withLimits k d) hc]
  generalize heq : s.proceed = t at h ⊢
  cases h with
  | missing absent => exact .inl (Arrival.reach_eq (.missing absent))
  | excess present exceeded =>
      refine .inr ⟨⟨_, ?_, by rw [heq]; rfl⟩, by rw [heq]; rfl⟩
      rfl
  | told counted cancelled => exact .inl (Arrival.reach_eq (.told (hcounted counted) cancelled))
  | admitted counted cancelled =>
      exact .inl (Arrival.reach_eq (.admitted (hcounted counted) cancelled))

/-- Away from statement boundaries and calls the limits do not matter. -/
lemma proceed_withLimits_of_work (hreach : ∀ n, s.machine.control ≠ .reach n)
    (hcall : ∀ name args site, s.machine.control ≠ .call name args site) :
    (s.withLimits k d).proceed = s.proceed.withLimits k d := by
  unfold proceed
  rw [machine_withLimits, Machine.control_withLimits]
  split
  · rfl
  · rfl
  · rfl
  · rename_i hc
    exact absurd hc (hreach _)
  · exact pass_withLimits _ _
  · exact act_withLimits _ _
  · exact withMachine_withLimits (Machine.eval_withLimits _ k d _)
  · exact withMachine_withLimits (Machine.exec_withLimits _ k d _)
  · exact withMachine_withLimits (Machine.block_withLimits _ k d _)
  · exact withMachine_withLimits (Machine.choose_withLimits _ k d _)
  · rename_i hc
    exact absurd hc (hcall _ _ _)
  · exact withTask_withLimits (fun m p => Machine.resume_withLimits m k d _ p)
      (finishCompleted_withLimits _)
  · exact withTask_withLimits (fun m p => Machine.proceed_withLimits m k d _ _ p)
      (finishCompleted_withLimits _)
  · exact withTask_withLimits (fun m p => Machine.unwind_withLimits m k d _ p)
      (finishFailed_withLimits _)
  · exact withTask_withLimits (fun m p => Machine.collapse_withLimits m k d _ p) rfl
  · rfl

lemma proceed_withLimits (hk : Admits k s.machine.maxSteps) (hd : Admits d s.machine.maxDepth) :
    (s.withLimits k d).proceed = s.proceed.withLimits k d ∨ Strikes s := by
  cases hc : s.machine.control with
  | reach n => exact proceed_reach_withLimits hc hk
  | call name args site => exact proceed_call_withLimits hc hd
  | _ => exact .inl (proceed_withLimits_of_work (by simp [hc]) (by simp [hc]))

lemma report_withLimits (s : Session) (k d : Nat) :
    (s.withLimits k d).report = s.report.withLimits k d := by
  rw [report_eq, report_eq]
  have hfalters : (s.withLimits k d).falters = s.falters := rfl
  rw [hfalters]
  split
  · rfl
  · rfl

/-- Under laxer limits a run takes the same step, unless it comes to one of its own limits. -/
theorem step_withLimits (hk : Admits k s.machine.maxSteps) (hd : Admits d s.machine.maxDepth) :
    (s.withLimits k d).step = s.step.withLimits k d ∨
      s.controller.reporting = false ∧ Strikes s := by
  cases hr : s.controller.reporting with
  | true =>
      left
      rw [step_of_reporting hr, step_of_reporting (s := s.withLimits k d) hr]
      exact report_withLimits s k d
  | false =>
      rw [step_of_not_reporting hr, step_of_not_reporting (s := s.withLimits k d) hr]
      exact (proceed_withLimits hk hd).imp_right fun h => ⟨rfl, h⟩

/-! ### The limits of a run -/

/-- The session runs under the given limits. -/
def Under (steps depth : Nat) (s : Session) : Prop := s.withLimits steps depth = s

lemma Under.limits (h : Under k d s) : s.machine.maxSteps = k ∧ s.machine.maxDepth = d := by
  rw [← h]
  exact ⟨rfl, rfl⟩

lemma Under.proceed (h : Under k d s) : Under k d s.proceed := by
  obtain ⟨hk, hd⟩ := h.limits
  rcases proceed_withLimits (s := s) (k := k) (d := d) (hk ▸ admits_refl _) (hd ▸ admits_refl _)
    with hproceed | hstrike
  · rw [h] at hproceed
    exact hproceed.symm
  · have hrest := hstrike.rest
    rw [hk, hd] at hrest
    have hsettings : s.maxSteps = k ∧ s.maxDepth = d := by
      rw [← h]
      exact ⟨rfl, rfl⟩
    unfold Under
    rw [hrest]
    simp only [withLimits, Machine.withLimits, hsettings]

/-- No step changes the limits. -/
lemma Under.step (h : Under k d s) : Under k d s.step := by
  refine step_cases (P := Under k d) (fun _ _ => ?_) (fun _ _ => ?_) fun _ => h.proceed
  · exact congrArg (fun r : Session => { r with controller := s.controller.report }) h
  · exact congrArg (fun r : Session => Session.goto { r with controller := s.controller.report }
      (.crash "hook failed")) h

/-- No event changes the limits. -/
lemma Under.after (hs : Under k d s) (es : List Event) : Under k d (s.after es) := by
  refine after_induction (P := Under k d) (fun t e ht => ?_) hs es
  by_cases he : e = .step
  · rw [he]
    exact ht.step
  · rcases happen_command t he with heq | ⟨site, next, -, heq⟩
    · rw [heq]
      exact congrArg (fun r : Session => { r with controller := (t.happen e).controller }) ht
    · rw [heq]
      exact congrArg (fun r : Session => r.goto (.host site next)) ht

lemma under_launch {s₀ : Session} {program : Program} {l : Launch}
    (h : s₀.launch program l = .ok s) : Under s₀.maxSteps s₀.maxDepth s := by
  obtain ⟨machine, hm, rfl⟩ := launch_eq_ok.mp h
  obtain ⟨functions, -, rfl⟩ := freshMachine_eq_ok hm
  rfl

/-- A program can be started under other limits if it can be started at all, and begins at the same
place. -/
lemma launch_withLimits {s₀ : Session} {program : Program} {l : Launch}
    (h : s₀.launch program l = .ok s) (k d : Nat) :
    { s₀ with maxSteps := k, maxDepth := d }.launch program l = .ok (s.withLimits k d) := by
  obtain ⟨machine, hm, rfl⟩ := launch_eq_ok.mp h
  obtain ⟨functions, hf, rfl⟩ := freshMachine_eq_ok hm
  refine launch_eq_ok.mpr ⟨_, ?_, rfl⟩
  simp only [freshMachine, hf]
  rfl

/-! ### Runs that nobody disturbs -/

/-- The host functions of the run are leaves, and it has not been told to end. -/
structure Undisturbed (s : Session) : Prop where
  sound : Sound s.machine
  leaf : Leaf s.machine
  untold : (∃ o, s.machine.control = .ended o) ∨ s.controller.cancelled = false

/-- A run that is over has nothing to do but to report that. -/
lemma ended_step {o : Outcome} (h : s.machine.control = .ended o) :
    s.step.machine.control = .ended o ∧ s.step.output = s.output := by
  rcases step_of_ended h with heq | heq
  · rw [heq]
    exact ⟨h, rfl⟩
  · rw [heq]
    exact ⟨h, rfl⟩

lemma Undisturbed.step (h : Undisturbed s) : Undisturbed s.step := by
  refine ⟨sound_happen h.sound .step, leaf_step h.sound h.leaf, ?_⟩
  rcases h.untold with ⟨o, ho⟩ | hcancelled
  · exact .inl ⟨o, (ended_step ho).1⟩
  · rcases (calm_step h.sound h.leaf.control.aloof).2 with hsame | hended
    · exact .inr (hsame.trans hcancelled)
    · exact .inl hended

lemma undisturbed_launch {s₀ : Session} {program : Program} {l : Launch}
    (hl : ∀ p ∈ l.plugins, p.Leaf) (hcancelled : l.cancelled = false)
    (h : s₀.launch program l = .ok s) : Undisturbed s := by
  refine ⟨sound_launch h, leaf_launch hl h, .inr ?_⟩
  obtain ⟨machine, hm, rfl⟩ := launch_eq_ok.mp h
  exact hcancelled

lemma advance_succ (fuel : Nat) (s : Session) : s.advance (fuel + 1) = (s.advance fuel).step := by
  rw [advance_eq_after, advance_eq_after, List.replicate_succ', after_append]
  rfl

lemma Undisturbed.advance (h : Undisturbed s) (fuel : Nat) : Undisturbed (s.advance fuel) := by
  induction fuel with
  | zero => exact h
  | succ fuel ih =>
      rw [advance_succ]
      exact ih.step

lemma Under.advance (h : Under k d s) (fuel : Nat) : Under k d (s.advance fuel) := by
  induction fuel with
  | zero => exact h
  | succ fuel ih =>
      rw [advance_succ]
      exact ih.step

/-- What a run that has ended shows stays as it is. -/
lemma advance_of_ended {o : Outcome} {i j : Nat} (h : (s.advance i).outcome? = some o)
    (hij : i ≤ j) :
    (s.advance j).outcome? = some o ∧ (s.advance j).output = (s.advance i).output := by
  induction hij with
  | refl => exact ⟨h, rfl⟩
  | step _ ih =>
      obtain ⟨ho, houtput⟩ := ih
      obtain ⟨hended, houtput'⟩ := ended_step (outcome?_eq_some.mp ho)
      rw [advance_succ]
      exact ⟨outcome?_eq_some.mpr hended, houtput'.trans houtput⟩

/-! ### Output -/

end Session

lemma ByteString.toList_append (a b : ByteString) : (a ++ b).toList = a.toList ++ b.toList := by
  show (a.bytes ++ b.bytes).data.toList = _
  rw [ByteArray.data_append, Array.toList_append]
  rfl

lemma ByteString.prefix_of_eq {a b : ByteString} (h : b = a) : a.toList <+: b.toList := by
  subst h
  exact List.prefix_rfl

namespace Console

lemma prefix_write (c : Console) (text : ByteString) :
    c.transcript.toList <+: (c.write text).2.transcript.toList := by
  have hprefix : c.transcript.toList <+: (c.transcript ++ text).toList := by
    rw [ByteString.toList_append]
    exact List.prefix_append _ _
  unfold write
  dsimp only
  split
  · exact hprefix
  · exact hprefix

lemma transcript_readLine (c : Console) : c.readLine.2.transcript = c.transcript := by
  unfold readLine
  dsimp only
  split
  · rfl
  · rfl

lemma prefix_prompt (c : Console) (lastDisplay text : ByteString) :
    c.transcript.toList <+: (c.prompt lastDisplay text).2.transcript.toList := by
  have hwrite := c.prefix_write (text ++ " ")
  unfold prompt
  split
  · split
    · rename_i heq
      rwa [heq] at hwrite
    · rename_i heq
      rw [heq] at hwrite
      rwa [transcript_readLine]
  · exact ByteString.prefix_of_eq (transcript_readLine c)

end Console

namespace Session

open Machine

variable {s : Session} {k d : Nat}

/-- Only a host function uses the console. -/
lemma console_proceed (h : ∀ site a, s.machine.control ≠ .host site a) :
    s.proceed.console = s.console := by
  obtain ⟨m, k, hproceed⟩ := sameSetting_proceed h
  rw [hproceed]

lemma console_step (h : ∀ site a, s.machine.control ≠ .host site a) :
    s.step.console = s.console := by
  obtain ⟨m, k, hstep⟩ := sameSetting_step h
  rw [hstep]

/-- A step only adds to what the run wrote. -/
lemma output_step (s : Session) : s.output.toList <+: s.step.output.toList := by
  have hsame : ∀ {t : Session}, t.console = s.console → s.output.toList <+: t.output.toList := by
    intro t h
    exact ByteString.prefix_of_eq (by rw [output, output, h])
  refine step_cases (P := fun t => s.output.toList <+: t.output.toList) (fun _ _ => hsame rfl)
    (fun _ _ => hsame rfl) fun _ => ?_
  cases hc : s.machine.control with
  | host site a =>
      simp only [proceed, hc]
      cases a with
      | ask q next =>
          cases q with
          | write text =>
              simp only [act, perform]
              exact Console.prefix_write _ _
          | display text =>
              simp only [act, perform]
              exact Console.prefix_write _ _
          | prompt text =>
              simp only [act, perform]
              exact Console.prefix_prompt _ _ _
          | resume stepping =>
              simp only [act, perform]
              split
              · exact hsame rfl
              · exact hsame rfl
          | _ => exact hsame rfl
      | _ => exact hsame rfl
  | _ => exact hsame (console_proceed (by simp [hc]))

lemma output_advance {i j : Nat} (hij : i ≤ j) :
    (s.advance i).output.toList <+: (s.advance j).output.toList := by
  induction hij with
  | refl => exact List.prefix_rfl
  | step _ ih =>
      rw [advance_succ]
      exact ih.trans (output_step _)

/-! ### Two runs -/

/-- The run has come to one of its limits: it fails for that reason, or has failed. -/
inductive Overrun (s : Session) : Prop where
  | failing {e : Failure} (control : s.machine.control = .fail e) (he : e.exceeds = true)
  | failed {e : Failure} {span : Span}
      (control : s.machine.control.settled? = some (.failed e span)) (he : e.exceeds = true)

/-- Once an outcome is settled, there is nothing to do but to show it. -/
lemma proceed_of_settled {o : Outcome} (h : s.machine.control.settled? = some o) :
    s.proceed.machine.control = .ended o ∧ s.proceed.output = s.output := by
  rcases Control.settled?_eq_some.mp h with hc | hc
  · simp only [proceed, hc]
    exact ⟨rfl, rfl⟩
  · simp only [proceed, hc]
    exact ⟨trivial, trivial⟩

/-- No host function catches the failure of a run that has come to one of its limits, and nothing
more is written. -/
lemma Overrun.proceed (h : Overrun s) (hs : Undisturbed s) :
    Overrun s.proceed ∧ s.proceed.output = s.output := by
  cases h with
  | failed control he =>
      obtain ⟨hcontrol, houtput⟩ := proceed_of_settled control
      exact ⟨.failed (Control.settled?_eq_some.mpr (.inr hcontrol)) he, houtput⟩
  | @failing e control he =>
      obtain ⟨f, hf⟩ := Failure.exists_fault_of_exceeds he
      have hcancelled : s.controller.cancelled = false :=
        hs.untold.resolve_left fun ⟨o, ho⟩ => by simp [control] at ho
      refine ⟨?_, by rw [output, output, console_proceed (by simp [control])]⟩
      cases hp : s.machine.pending with
      | nil =>
          rw [proceed_fail control, withTask_nil hp]
          unfold finishFailed
          rw [hcancelled, Failure.isStopped_of_fault? hf]
          exact .failed rfl he
      | cons p rest =>
          rw [proceed_fail control, withTask_cons hp]
          cases p with
          | hostCall name site depth =>
              have hown : e.isOwn = true := by simp [Failure.isOwn, hf]
              refine .failing (e := e) ?_ he
              simp [unwind, Machine.goto, hostFailure, hown]
          | reenter site depth next =>
              exact absurd rfl (hs.leaf.pending _ (hp ▸ List.mem_cons_self))
          | _ => exact .failing control he

lemma Overrun.step (h : Overrun s) (hs : Undisturbed s) :
    Overrun s.step ∧ s.step.output = s.output := by
  refine step_cases (P := fun t => Overrun t ∧ t.output = s.output) (fun _ _ => ⟨?_, rfl⟩) ?_
    fun _ => h.proceed hs
  · cases h with
    | failing control he => exact .failing control he
    | failed control he => exact .failed control he
  · intro _ hfalters
    obtain ⟨n, hn⟩ := exists_paused_of_falters hfalters
    cases h with
    | failing control _ => simp [hn] at control
    | failed control _ => simp [hn, Control.settled?] at control

/-- The run under the laxer limits keeps up with the other one until that comes to its limits; what
that has written, it has written at some moment. -/
lemma advance_withLimits {k₀ d₀ : Nat} (hs : Undisturbed s) (hlimits : Under k₀ d₀ s)
    (hk : Admits k k₀) (hd : Admits d d₀) (fuel : Nat) :
    ((s.withLimits k d).advance fuel = (s.advance fuel).withLimits k d ∨
      Overrun (s.advance fuel)) ∧
    ∃ j, (s.advance fuel).output = ((s.withLimits k d).advance j).output := by
  induction fuel with
  | zero => exact ⟨.inl rfl, 0, rfl⟩
  | succ fuel ih =>
      obtain ⟨hpace, j, hj⟩ := ih
      have hs' := hs.advance fuel
      obtain ⟨hk', hd'⟩ := (hlimits.advance fuel).limits
      rw [advance_succ, advance_succ]
      rcases hpace with heq | hover
      · rw [heq]
        rcases step_withLimits (s := s.advance fuel) (k := k) (d := d) (by rwa [hk'])
          (by rwa [hd']) with hstep | ⟨hgoes, hstrike⟩
        · refine ⟨.inl hstep, fuel + 1, ?_⟩
          rw [advance_succ, heq, hstep]
          rfl
        · obtain ⟨e, he, hc⟩ := hstrike.control
          rw [step_of_not_reporting hgoes]
          refine ⟨.inr (.failing hc he), j, ?_⟩
          rw [← hj, hstrike.rest]
          rfl
      · obtain ⟨hover', houtput⟩ := hover.step hs'
        exact ⟨.inr hover', j, houtput.trans hj⟩

/-- **Limits are transparent.**  Start a program with the builtin functions from any session `s₀`
with a limit on the calls in progress, and from the same session with limits that are at least as
large; a limit of zero on the statements stands for none.  Let the first run end.

* If it does not end because it came to one of its limits, the second run ends with the same
  outcome, and the sessions show the same output and frames.
* If it does, its output is the beginning of the output of the second run, whenever that ends. -/
theorem limits_transparent {s₀ s : Session} {program : Program} {random : RandomSource}
    {steps depth : Nat} (hsteps : steps = 0 ∨ 0 < s₀.maxSteps ∧ s₀.maxSteps ≤ steps)
    (hpositive : 0 < s₀.maxDepth) (hdepth : s₀.maxDepth ≤ depth)
    (hs : s₀.launch program { plugins := [Builtins.plugin], random } = .ok s) :
    ∃ t, { s₀ with maxSteps := steps, maxDepth := depth }.launch program
        { plugins := [Builtins.plugin], random } = .ok t ∧
      ∀ fuel o, (s.advance fuel).outcome? = some o →
        (o.exceeds = false →
          ∃ fuel', (t.advance fuel').outcome? = some o ∧
            (t.advance fuel').output = (s.advance fuel).output ∧
            (t.advance fuel').snapshot? = (s.advance fuel).snapshot?) ∧
        (o.exceeds = true →
          ∀ fuel' o', (t.advance fuel').outcome? = some o' →
            (s.advance fuel).output.toList <+: (t.advance fuel').output.toList) := by
  have hplugins : ∀ p ∈ [Builtins.plugin], p.Leaf := by
    simpa using Builtins.leaf_plugin
  have hcalm : Undisturbed s := undisturbed_launch hplugins rfl hs
  refine ⟨_, launch_withLimits hs steps depth, ?_⟩
  intro fuel o ho
  have hdepth' : Admits depth s₀.maxDepth := .inr ⟨hpositive, hdepth⟩
  obtain ⟨hpace, j, hj⟩ := advance_withLimits hcalm (under_launch hs) hsteps hdepth' fuel
  constructor
  · intro hwithin
    rcases hpace with heq | hover
    · refine ⟨fuel, ?_, ?_, ?_⟩
      · rw [heq]
        exact ho
      · rw [heq]
        rfl
      · rw [heq]
        rfl
    · -- a run that has come to its limits does not end in any other way
      have hended := outcome?_eq_some.mp ho
      cases hover with
      | failing control _ => simp [control] at hended
      | failed control he =>
          simp only [hended, Control.settled?, Option.some.injEq] at control
          rw [control, Outcome.exceeds, he] at hwithin
          simp at hwithin
  · intro _ fuel' o' ho'
    rw [hj]
    rcases Nat.le_total j fuel' with hle | hle
    · exact output_advance hle
    · exact ByteString.prefix_of_eq (advance_of_ended ho' hle).2.symm

/-- A program that displays two letters. -/
def aloud : Program where
  statements :=
    [.call (.point 1 1) (some ⟨.none, "DISPLAY"⟩) [.literal .none (.text "a")],
     .call (.point 2 1) (some ⟨.none, "DISPLAY"⟩) [.literal .none (.text "b")]]

/-- Limited to one statement the program fails after the first letter, with which the run limited
to three statements begins too; limited to two statements it does all that it does without. -/
theorem limits_transparent_aloud :
    (∃ s t, launch { maxSteps := 1 } aloud { plugins := [Builtins.plugin] } = .ok s ∧
      launch { maxSteps := 3, maxDepth := 20000 } aloud { plugins := [Builtins.plugin] } = .ok t ∧
      (s.advance 90).output.toList = [97, 32] ∧
      ∀ fuel o, (t.advance fuel).outcome? = some o →
        [97, 32] <+: (t.advance fuel).output.toList) ∧
    ∃ s t, launch { maxSteps := 2 } aloud { plugins := [Builtins.plugin] } = .ok s ∧
      launch { maxSteps := 0 } aloud { plugins := [Builtins.plugin] } = .ok t ∧
      ∃ fuel, (t.advance fuel).outcome? = some (.completed .nothing) ∧
        (t.advance fuel).output.toList = [97, 32, 98, 32] := by
  constructor
  · have hs : launch { maxSteps := 1 } aloud { plugins := [Builtins.plugin] } =
      .ok ((begun aloud { plugins := [Builtins.plugin] }).withLimits 1 10000) := rfl
    obtain ⟨t, ht, hends⟩ :=
      @limits_transparent { maxSteps := 1 } _ _ _ 3 20000 (by decide) (by decide) (by decide) hs
    exact ⟨_, t, hs, ht, rfl, (hends 90 _ rfl).2 rfl⟩
  · have hs : launch { maxSteps := 2 } aloud { plugins := [Builtins.plugin] } =
      .ok ((begun aloud { plugins := [Builtins.plugin] }).withLimits 2 10000) := rfl
    obtain ⟨t, ht, hends⟩ :=
      @limits_transparent { maxSteps := 2 } _ _ _ 0 10000 (by decide) (by decide) (by decide) hs
    obtain ⟨fuel, ho, houtput, -⟩ := (hends 90 _ rfl).1 rfl
    exact ⟨_, t, hs, ht, fuel, ho, by rw [houtput]; rfl⟩

end Session

end Pseudocode
