/-
# Stopped runs

A run that is asked to stop while it is active ends as a stopped run, whatever becomes of the
statement in execution: its failure is dropped, also where a host function has caught it, and so
is the end of the program.  There are two exceptions.  A return outside every procedure whose value
is being evaluated when the request comes completes the run.  And a request that comes when the
outcome is settled, but not shown yet, changes nothing.

The main results are

* `Session.stop_wins_iff`: a run that was asked to stop is stopped, unless its outcome was settled
  or it returns at the top level, and then it ends so;
* `Session.stop_loses_to_return`: a run that is asked to stop and completes.
-/
import Mathlib.Tactic.IntervalCases
import Pseudocode.Proofs.Controls

namespace Pseudocode

/-- Without a fragile observer, only host functions break down. -/
lemma Machine.Move.crash_in_host {m m' : Machine} (h : Move false m m') (hm : Sound m)
    (hcrash : ∀ text, m.control = .crash text → Fits .action m.pending) {text : String}
    (hc : m'.control = .crash text) : Fits .action m'.pending := by
  have hplain : ∀ {d : Due} {m₀ : Machine}, ¬ Plain d m₀ m' := by
    intro d m₀ h
    rcases h.fails_or_due with ⟨e, he⟩ | ⟨d', hd'⟩
    · simp [he] at hc
    · simp [hc, Control.due?] at hd'
  cases h with
  | stay _ => exact hcrash text hc
  | plain _ h => exact absurd h hplain
  | task _ _ _ _ h => exact absurd h hplain
  | reach _ hpasses => simp only at hc; simp [hc, passes] at hpasses
  | pass _ hpasses => simp only [goto] at hc; simp [hc, passes] at hpasses
  | breakdown _ hfragile => simp at hfragile
  | outcome control _ =>
      exact (hm.of_due (d := .action) (by rw [control]; rfl) (by simp [control])).1
  | request _ control' _ => simp [hc, Control.due?] at control'
  | collapse control pending ht =>
      have hfits := hcrash _ control
      rw [pending] at hfits
      exact absurd hfits.tail.1 ht
  | finish _ _ control' _ => simp [control'] at hc
  | _ => cases hc

namespace Session

open Machine

variable {s : Session}

/-- The machine is sound, and without a fragile observer a breakdown is inside a host function. -/
structure Guarded (s : Session) : Prop where
  sound : Sound s.machine
  crash : s.controller.fragile = false →
    ∀ text, s.machine.control = .crash text → Fits .action s.machine.pending

lemma Guarded.happen (h : Guarded s) (e : Event) : Guarded (s.happen e) := by
  refine ⟨sound_happen h.sound e, fun hsturdy text hc => ?_⟩
  rw [fragile_happen h.sound e] at hsturdy
  rcases happen_move h.sound e with hmove | heq
  · rw [hsturdy] at hmove
    exact hmove.crash_in_host h.sound (h.crash hsturdy) hc
  · rw [heq] at hc ⊢
    exact h.crash hsturdy text hc

lemma Reachable.guarded (h : Reachable s) : Guarded s := by
  obtain ⟨s₀, program, l, t, es, ht, rfl⟩ := h
  refine after_induction (fun _ e h => h.happen e) ⟨sound_launch ht, fun _ text hc => ?_⟩ es
  obtain ⟨machine, hm, rfl⟩ := launch_eq_ok.mp ht
  obtain ⟨functions, -, rfl⟩ := freshMachine_eq_ok hm
  cases hc

/-! ### After the request -/

/-- The run has been asked to stop and has not ended, and if its outcome is settled, it is that of
a stopped run. -/
structure Stopping (s : Session) : Prop where
  guarded : Guarded s
  sturdy : s.controller.fragile = false
  phase : s.controller.phase = .stopping
  cancelled : s.controller.cancelled = true
  running : ∀ o, s.machine.control ≠ .ended o
  outcome : ∀ o, s.machine.control = .ending o → o = .stopped

/-- The run is about to end at a return outside every procedure. -/
def ReturnsAtTop (s : Session) (v : Value) : Prop :=
  s.machine.control = .complete (.returned v) ∧ s.machine.pending = []

lemma Stopping.not_active (h : Stopping s) : s.controller.phase.isActive = false := by
  rw [h.phase]
  rfl

/-- A step of a run that has been asked to stop leaves it so, or ends it as a stopped one, or is
that of a return outside every procedure. -/
lemma Stopping.step (h : Stopping s) :
    Stopping s.step ∨ s.step.machine.control = .ended .stopped ∨
      ∃ v, ReturnsAtTop s v ∧ s.step.machine.control = .ending (.completed v) := by
  have hsound := h.guarded.sound
  have hkeep : (∀ o, s.step.machine.control ≠ .ended o) →
      (∀ o, s.step.machine.control = .ending o → o = .stopped) →
      s.step.controller.phase = s.controller.phase →
      s.step.controller.cancelled = s.controller.cancelled → Stopping s.step := by
    intro hrunning houtcome hphase hcancelled
    exact ⟨h.guarded.happen .step, (fragile_step hsound).trans h.sturdy, hphase.trans h.phase,
      hcancelled.trans h.cancelled, hrunning, houtcome⟩
  have htold : s.controller.cancelled ≠ false := by simp [h.cancelled]
  cases step_turn hsound with
  | report _ controller machine =>
      rcases machine with heq | ⟨hfalters, -⟩
      · refine .inl (hkeep ?_ ?_ (by rw [controller]; rfl) (by rw [controller]; rfl))
        · rw [heq]
          exact h.running
        · rw [heq]
          exact h.outcome
      · simp [falters, h.sturdy] at hfalters
  | aside controller shows earlier =>
      exact .inl (hkeep (fun o ho => h.running o (earlier o ho)) (fun o ho => absurd ho (shows o))
        (by rw [controller]) (by rw [controller]))
  | pass _ _ controller control' | slow _ _ controller control'
  | dismiss _ _ controller control' =>
      exact .inl (hkeep (by simp [control']) (by simp [control']) (by rw [controller])
        (by rw [controller]))
  | pause _ _ _ phase _ _ => simp [h.phase] at phase
  | poll _ _ controller control' =>
      rw [Controller.poll_eq] at controller
      exact .inl (hkeep (by simp [control']) (by simp [control']) (by rw [controller])
        (by rw [controller]))
  | wake _ _ controller control' =>
      exact .inl (hkeep (by simp [control']) (by simp [control'])
        (by simp [controller, Controller.proceed, h.phase])
        (by simp [controller, Controller.proceed]))
  | stop _ controller control' =>
      rw [Controller.requestStop_of_not_active h.not_active] at controller
      exact .inl (hkeep (by simp [control']) (by simp [control']) (by rw [controller])
        (by rw [controller]))
  | resume _ controller _ =>
      rw [Controller.resume?_of_not_active h.not_active] at controller
      simp at controller
  | setSpeed _ controller control' =>
      exact .inl (hkeep (by simp [control']) (by simp [control']) (by rw [controller]; rfl)
        (by rw [controller]; rfl))
  | settle pending ending controller control' =>
      have hstopped : s.step.machine.control = .ending .stopped → Stopping s.step := by
        intro hc
        refine hkeep (by simp [hc]) ?_ (by rw [controller]) (by rw [controller])
        intro o ho
        simpa [hc] using ho.symm
      cases ending with
      | @returned v control => exact .inr (.inr ⟨v, ⟨control, pending⟩, control'⟩)
      | fell _ cancelled => exact absurd cancelled htold
      | stopped control _ => exact .inl (hstopped control')
      | unwound control _ => exact .inl (hstopped control')
      | failed _ cancelled _ => exact absurd cancelled htold
      | crashed control =>
          -- a breakdown has the call of a host function below it
          obtain ⟨_, _, _, hcall, -⟩ := (h.guarded.crash h.sturdy _ control).exists_hostCall
          simp [pending] at hcall
  | finish control _ control' =>
      rw [h.outcome _ control] at control'
      exact .inr (.inl control')

/-- Further commands do not turn a stop around. -/
lemma Stopping.command (h : Stopping s) {e : Event} (he : e ≠ .step) : Stopping (s.happen e) := by
  have hcontrols := controller_of_command h.not_active he
  refine ⟨h.guarded.happen e, (fragile_happen h.guarded.sound e).trans h.sturdy,
    hcontrols.1.trans h.phase, hcontrols.2.2.2 h.cancelled, ?_, ?_⟩
  · rcases happen_command s he with heq | ⟨site, next, -, heq⟩
    · rw [heq]
      exact h.running
    · simp [heq]
  · rcases happen_command s he with heq | ⟨site, next, -, heq⟩
    · rw [heq]
      exact h.outcome
    · simp [heq]

/-- Of all that a step can do, only the request of a host function leads into this phase. -/
lemma stop_of_step (hs : Sound s.machine) (hactive : s.controller.phase.isActive = true)
    (hphase : s.step.controller.phase = .stopping) :
    s.step.controller.cancelled = true ∧ ∃ site a, s.step.machine.control = .host site a := by
  have hne : s.controller.phase ≠ .stopping := by
    intro heq
    simp [heq, Phase.isActive] at hactive
  cases step_turn hs with
  | stop _ controller control' =>
      refine ⟨?_, _, _, control'⟩
      rw [controller]
      simp [Controller.requestStop, hactive, Controller.cancel]
  | aside controller _ _ | settle _ _ controller _ => exact absurd (controller ▸ hphase) hne
  | pass _ _ controller _ | slow _ _ controller _ | dismiss _ _ controller _ =>
      exact absurd (by simpa [controller] using hphase) hne
  | report _ controller _ | setSpeed _ controller _ =>
      rw [controller] at hphase
      exact absurd hphase hne
  | pause _ _ _ _ controller _ => simp [controller] at hphase
  | poll _ _ controller _ =>
      rw [controller, Controller.poll_eq] at hphase
      exact absurd hphase hne
  | wake _ _ controller _ =>
      simp only [controller, Controller.proceed] at hphase
      split at hphase
      · simp at hphase
      · exact absurd hphase hne
  | resume _ controller _ =>
      rw [Controller.resume?_eq controller] at hphase
      exact absurd hphase hne
  | @finish o _ controller _ =>
      rw [controller] at hphase
      cases o with
      | completed v => cases hphase
      | failed e span => cases hphase
      | stopped => cases hphase

/-- A session is stopping as soon as a request to stop is accepted, whoever made it, unless another
outcome is settled. -/
lemma Reachable.stopping (h : Reachable s) (hsturdy : s.controller.fragile = false)
    (hactive : s.controller.phase.isActive = true)
    (houtcome : ∀ o, s.machine.control = .ending o → o = .stopped) {e : Event}
    (hphase : (s.happen e).controller.phase = .stopping) : Stopping (s.happen e) := by
  have hguarded := h.guarded.happen e
  have hfragile := (fragile_happen h.sound e).trans hsturdy
  by_cases he : e = .step
  · subst he
    obtain ⟨hcancelled, site, a, hc⟩ := stop_of_step h.sound hactive hphase
    have hc : (s.happen .step).machine.control = .host site a := hc
    exact ⟨hguarded, hfragile, hphase, hcancelled, by simp [hc], by simp [hc]⟩
  · rcases (phase_of_command he).1 with heq | ⟨rfl, -, -⟩
    · rw [heq] at hphase
      simp [hphase, Phase.isActive] at hactive
    · have hrunning : ∀ o, s.machine.control ≠ .ended o := by
        intro o ho
        rw [(h.settled o ho).1, Outcome.phase_not_active] at hactive
        simp at hactive
      have hcancelled : (s.happen .stop).controller.cancelled = true := by
        simp [happen, askStop, hactive, Controller.requestStop, Controller.cancel]
      rw [s.happen_controls he (by simp)] at hguarded ⊢
      exact ⟨hguarded, hfragile, hphase, hcancelled, hrunning, houtcome⟩

/-! ### The end of a stopping run -/

/-- The outcome of a run does not change any more. -/
lemma ended_after {o : Outcome} (h : s.machine.control = .ended o) (es : List Event) :
    (s.after es).machine.control = .ended o := by
  refine after_induction (P := fun s => s.machine.control = .ended o) ?_ h es
  intro s e h
  by_cases he : e = .step
  · rw [he]
    refine step_cases (P := fun t => t.machine.control = .ended o) (fun _ _ => h) ?_ ?_
    · intro _ hfalters
      simp [falters, isPaused, h] at hfalters
    · intro _
      simp [Session.proceed, h]
  · rw [machine_of_command (by simp) h he, h]

/-- An outcome that is settled is the one that is shown. -/
lemma ending_after (hs : Sound s.machine) {o : Outcome} (h : s.machine.control = .ending o)
    (es : List Event) :
    (s.after es).machine.control = .ending o ∨ (s.after es).machine.control = .ended o :=
  Control.settled?_eq_some.mp (settled?_after hs (Control.settled?_eq_some.mpr (.inl h)) es)

/-- At a return outside every procedure, the next step of the run settles that it completes. -/
lemma ReturnsAtTop.step {v : Value} (h : ReturnsAtTop s v) :
    ReturnsAtTop s.step v ∨ s.step.machine.control = .ending (.completed v) := by
  refine step_cases (P := fun t => ReturnsAtTop t v ∨ t.machine.control = .ending (.completed v))
    (fun _ _ => .inl h) ?_ ?_
  · intro _ hfalters
    simp [falters, isPaused, h.1] at hfalters
  · intro _
    rw [proceed_complete h.1, withTask_nil h.2]
    exact .inr rfl

/-- A run that is about to end at a return outside every procedure does. -/
lemma ReturnsAtTop.after (hs : Sound s.machine) {v : Value} (h : ReturnsAtTop s v)
    (es : List Event) :
    ReturnsAtTop (s.after es) v ∨ (s.after es).machine.control = .ending (.completed v) ∨
      (s.after es).machine.control = .ended (.completed v) := by
  induction es generalizing s with
  | nil => exact .inl h
  | cons e es ih =>
      rw [after_cons]
      have hnext := sound_happen hs e
      by_cases he : e = .step
      · subst he
        rcases h.step with hstep | hc
        · exact ih hnext hstep
        · exact .inr (ending_after hnext hc es)
      · have heq := machine_of_command (by simp) h.1 he
        exact ih hnext ⟨by rw [heq]; exact h.1, by rw [heq]; exact h.2⟩

/-- A run that has been asked to stop goes on stopping until it is stopped, unless it comes to a
return outside every procedure. -/
lemma Stopping.after (h : Stopping s) {es : List Event}
    (htop : ∀ es' v, es' <+: es → ¬ ReturnsAtTop (s.after es') v) :
    Stopping (s.after es) ∨ (s.after es).machine.control = .ended .stopped := by
  induction es generalizing s with
  | nil => exact .inl h
  | cons e es ih =>
      have hrest : ∀ es' v, es' <+: es → ¬ ReturnsAtTop ((s.happen e).after es') v :=
        fun es' v hes' => htop (e :: es') v (List.cons_prefix_cons.mpr ⟨rfl, hes'⟩)
      rw [after_cons]
      by_cases he : e = .step
      · rw [he] at hrest ⊢
        rcases h.step with hstep | hended | ⟨v, hv, -⟩
        · exact ih hstep hrest
        · exact .inr (ended_after hended es)
        · -- the run is at such a return now
          exact absurd hv (htop [] v List.nil_prefix)
      · exact ih (h.command he) hrest

/-- **When stop wins.**  Let a request to stop be accepted at any moment `a` of any run, whoever
made it, and let the run come to its end under any schedule.  The observer does not break down.

* The run is stopped and shows no error if and only if no other outcome was settled when the
  request came and the run never is about to end at a return outside every procedure.
* If an outcome was settled, the run ends with that one.
* If the run comes to such a return, it completes with the value returned. -/
theorem stop_wins_iff {a : Session} {e : Event} {rest : List Event} {o : Outcome}
    (ha : a.Reachable) (hook : a.controller.fragile = false)
    (hactive : a.controller.phase.isActive = true)
    (haccepted : (a.happen e).controller.phase = .stopping)
    (hended : ((a.happen e).after rest).outcome? = some o) :
    ((o = .stopped ∧ ((a.happen e).after rest).controller.phase = .stopped ∧
        ((a.happen e).after rest).controller.error = none) ↔
      (∀ o', a.machine.control = .ending o' → o' = .stopped) ∧
        ∀ es v, es <+: rest → ¬ ReturnsAtTop ((a.happen e).after es) v) ∧
    (∀ o', a.machine.control = .ending o' →
      o = o' ∧ ((a.happen e).after rest).controller.phase = o'.phase ∧
        ((a.happen e).after rest).controller.error = o'.error) ∧
    ∀ es v, es <+: rest → ReturnsAtTop ((a.happen e).after es) v →
      o = .completed v ∧ ((a.happen e).after rest).controller.phase = .completed ∧
        ((a.happen e).after rest).controller.error = none := by
  have hshows := ((ha.after [e]).after rest).settled
  have hcontrol := outcome?_eq_some.mp hended
  have hsettled : ∀ o', a.machine.control = .ending o' → o = o' := by
    intro o' ho'
    rcases ending_after ha.sound ho' (e :: rest) with h | h
    · rw [after_cons, hcontrol] at h
      simp at h
    · rw [after_cons, hcontrol] at h
      exact Control.ended.inj h
  have htop : ∀ es v, es <+: rest → ReturnsAtTop ((a.happen e).after es) v →
      o = .completed v := by
    intro es v hes hv
    obtain ⟨es', rfl⟩ := hes
    rw [after_append] at hcontrol
    rcases hv.after ((ha.after [e]).after es).sound es' with ⟨h, -⟩ | h | h
    · simp [hcontrol] at h
    · simp [hcontrol] at h
    · simpa [hcontrol] using h
  refine ⟨⟨fun h => ⟨fun o' ho' => ?_, fun es v hes hv => ?_⟩, fun h => ?_⟩,
    fun o' ho' => ?_, fun es v hes hv => ?_⟩
  · exact (hsettled o' ho').symm.trans h.1
  · have := htop es v hes hv
    simp [h.1] at this
  · have hstopping := ha.stopping hook hactive h.1 haccepted
    rcases hstopping.after h.2 with hs | hs
    · exact absurd hcontrol (hs.running o)
    · have ho : o = .stopped := by simpa [hcontrol] using hs
      exact ⟨ho, (hshows _ hs).1, (hshows _ hs).2.1⟩
  · rw [hsettled o' ho'] at hcontrol
    exact ⟨hsettled o' ho', (hshows _ hcontrol).1, (hshows _ hcontrol).2.1⟩
  · have ho := htop es v hes hv
    rw [ho] at hcontrol
    exact ⟨ho, (hshows _ hcontrol).1, (hshows _ hcontrol).2.1⟩

/-- A host function that asks the run to stop and then does something else. -/
def quitThen (a : Action Value) : Native := fun _ => .ask .stop fun _ => a

/-- The statement that calls `QUIT`. -/
def quit : Node := .call (.point 1 1) (some ⟨.none, "QUIT"⟩) []

/-- A program of one statement after seven steps, with `quitThen a` as `QUIT`. -/
def quitting (statement : Node) (a : Action Value) : Session :=
  (begun { statements := [statement] }
    { plugins := [{ functions := [("QUIT", quitThen a)] }] }).after (List.replicate 7 .step)

lemma reachable_quitting (statement : Node) (a : Action Value) :
    (quitting statement a).Reachable :=
  (reachable_begun rfl).after _

/-- The failure of a host function does not get the better of the stop it asked for. -/
theorem stop_wins_over_failure :
    ∃ a b : Session, a = (quitting quit (.error "late")).happen .step ∧
      a.controller.phase = .stopping ∧ (∃ e, a.step.step.machine.control = .fail e) ∧
      b = a.after (List.replicate 8 .step) ∧ b.outcome? = some .stopped ∧
      b.controller.phase = .stopped ∧ b.controller.error = none := by
  have htop : ∀ es v, es <+: List.replicate 8 .step →
      ¬ ReturnsAtTop (((quitting quit (.error "late")).happen .step).after es) v := by
    intro es v hes hv
    obtain ⟨hlength, hes⟩ := List.prefix_replicate_iff.mp hes
    rw [hes] at hv
    interval_cases es.length <;> cases hv.1
  refine ⟨_, _, rfl, rfl, ⟨_, rfl⟩, rfl, rfl, ?_⟩
  exact ((stop_wins_iff (reachable_quitting _ _) rfl rfl rfl rfl).1.mpr
    ⟨by rintro o ⟨⟩, htop⟩).2

/-- A run that is asked to stop while it evaluates the value of a return outside every procedure
is not stopped: it completes. -/
theorem stop_loses_to_return :
    ∃ a b : Session, a = quitting (.return .none quit) (.pure .nothing) ∧
      a.Reachable ∧ a.controller.fragile = false ∧ a.controller.phase = .running ∧
      (a.happen .step).controller.phase = .stopping ∧
      b = (a.happen .step).after (List.replicate 8 .step) ∧
      b.outcome? = some (.completed .nothing) ∧ b.controller.phase = .completed :=
  ⟨_, _, rfl, reachable_quitting _ _, rfl, rfl, rfl, rfl, rfl, rfl⟩

end Session

end Pseudocode
