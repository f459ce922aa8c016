/-
# Answers to a pause

In step mode a run waits before each statement until it is told to go on, with single-stepping or
without, or to stop.  A run that is told to go on with single-stepping waits again at the next
statement.  One that is told to go on without, or to stop, does not wait any more, and if it is told
to stop, it ends as a stopped run.  The host functions of the run are assumed to call nothing, as
the builtin functions do.

The main results are

* `Session.Loose.step`: a run that does not wait any more goes on so;
* `Session.Paced.loose_of_resume`: so does one that is told to go on without single-stepping;
* `Session.Paced.outcome?_of_stop`: a run that is told to stop while it waits ends, as a stopped
  one.
-/
import Pseudocode.Proofs.Budget
import Pseudocode.Proofs.Stepping
import Pseudocode.Proofs.Tokens

namespace Pseudocode

namespace Session

open Machine

variable {s : Session}

/-! ### How a run stands -/

/-- What is kept during a run with host functions that call nothing. -/
structure Paced (s : Session) : Prop where
  orderly : Orderly s
  leaf : Leaf s.machine
  /-- A run that is held up is shown as paused until it is told to end. -/
  shown : ∀ n, s.machine.control = .boundary .paused n →
    s.controller.phase = .paused ∨ s.controller.cancelled = true

lemma Paced.shown_proceed (h : Paced s) {n : Node}
    (hn : s.proceed.machine.control = .boundary .paused n) :
    s.proceed.controller.phase = .paused ∨ s.proceed.controller.cancelled = true := by
  have hstands := stands_of_proceed h.orderly.sound hn
  generalize s.proceed = t at hstands ⊢
  cases hstands with
  | pauses _ _ phase => exact .inl phase
  | polls control _ controller =>
      rw [controller, Controller.poll_eq]
      exact h.shown n control
  | waits control _ => exact h.shown n control

lemma Paced.step (h : Paced s) : Paced s.step where
  orderly := h.orderly.happen .step
  leaf := leaf_step h.orderly.sound h.leaf
  shown n := by
    refine step_cases (P := fun t => t.machine.control = .boundary .paused n →
      t.controller.phase = .paused ∨ t.controller.cancelled = true) (fun _ _ => h.shown n)
      (fun _ _ hn => ?_) fun _ => h.shown_proceed
    cases hn

/-- Commands keep it as well; a run that is asked to stop has been told to end. -/
lemma Paced.command (h : Paced s) {e : Event} (he : e ≠ .step) : Paced (s.happen e) := by
  have hheld : ∀ site next, s.machine.control ≠ .held site next := by
    intro site next hc
    have hleaf := h.leaf.control
    rw [hc] at hleaf
    exact hleaf
  have hmachine : (s.happen e).machine = s.machine := machine_of_command hheld rfl he
  refine ⟨h.orderly.happen e, hmachine ▸ h.leaf, fun n hn => ?_⟩
  rcases (phase_of_command he).1 with hsame | ⟨-, -, hstopping⟩
  · rw [hmachine] at hn
    rw [hsame]
    exact (h.shown n hn).imp_right fun hcancelled =>
      cancelled_happen h.orderly.sound hcancelled e
  · exact .inr ((h.orderly.happen e).told (by simp [hstopping, Phase.isActive]))

lemma Paced.after (h : Paced s) (es : List Event) : Paced (s.after es) := by
  refine after_induction (fun t e ht => ?_) h es
  by_cases he : e = .step
  · subst he
    exact ht.step
  · exact ht.command he

lemma Paced.advance (h : Paced s) (fuel : Nat) : Paced (s.advance fuel) := by
  rw [advance_eq_after]
  exact h.after _

lemma Paced.withConsole (h : Paced s) (console : Console) : Paced { s with console } where
  orderly := ⟨h.orderly.sound, h.orderly.sturdy, ⟨h.orderly.attentive.controller,
    h.orderly.attentive.held⟩, h.orderly.attended, h.orderly.told, h.orderly.shown⟩
  leaf := h.leaf
  shown := h.shown

lemma paced_launch {s₀ : Session} {program : Program} {l : Launch}
    (hl : ∀ p ∈ l.plugins, p.Leaf) (h : s₀.launch program l = .ok s)
    (hook : s.controller.fragile = false) : Paced s where
  orderly := orderly_launch h hook
  leaf := leaf_launch hl h
  shown n hn := by
    obtain ⟨machine, hm, rfl⟩ := launch_eq_ok.mp h
    obtain ⟨functions, -, rfl⟩ := freshMachine_eq_ok hm
    cases hn

/-- A leaf makes no request to go on. -/
lemma Paced.request?_eq (h : Paced s) : s.request? .step = none := by
  unfold request?
  dsimp only
  split
  · rename_i site stepping next _ hc
    have hleaf := h.leaf.control
    rw [hc] at hleaf
    cases hleaf with
    | ask hq _ => simp [Request.isLeaf] at hq
  · rfl

/-- A run that does not come to wait any more.  If it is held up, its wait is over. -/
structure Loose (s : Session) : Prop where
  answered : s.isPaused = true → s.controller.wait = .granted ∨ s.controller.wait = .dismissed
  free : s.controller.stepping = false ∨
    s.controller.cancelled = true ∧ ∀ n, s.machine.control ≠ .boundary .admitted n

lemma Loose.not_waits (h : Loose s) : s.waits = false := by
  cases hpaused : s.isPaused with
  | false => simp [Session.waits, hpaused]
  | true =>
      obtain ⟨n, hn⟩ := isPaused_iff.mp hpaused
      rcases h.answered hpaused with hwait | hwait
      · simp [Session.waits, isQuiet, hn, hwait]
      · simp [Session.waits, isQuiet, hn, hwait]

lemma Loose.proceed (h : Loose s) (hs : Paced s) (hgoes : s.controller.reporting = false) :
    Loose s.proceed := by
  have hstep : s.happen .step = s.proceed := step_of_not_reporting hgoes
  have hsound := hs.orderly.sound
  refine ⟨fun hpaused => ?_, ?_⟩
  · obtain ⟨n, hn⟩ := isPaused_iff.mp hpaused
    have hstands := stands_of_proceed hsound hn
    generalize s.proceed = t at hstands ⊢
    cases hstands with
    | pauses control stepping _ =>
        rcases h.free with hstepping | ⟨-, hnot⟩
        · simp [hstepping] at stepping
        · exact absurd control (hnot n)
    | polls control wait _ | waits control wait =>
        have hanswered := h.answered (isPaused_iff.mpr ⟨n, control⟩)
        simp [wait] at hanswered
  · rcases h.free with hstepping | ⟨hcancelled, -⟩
    · exact .inl (hstep ▸ (stepping_happen hsound hs.request?_eq).trans hstepping)
    · refine .inr ⟨hstep ▸ cancelled_happen hsound hcancelled .step, fun n hn => ?_⟩
      have hstands := stands_of_proceed hsound hn
      generalize s.proceed = t at hstands
      cases hstands with
      | reaches _ untold _ => simp [hcancelled] at untold

/-- A run that does not wait any more goes on so. -/
lemma Loose.step (h : Loose s) (hs : Paced s) : Loose s.step :=
  step_cases (fun _ _ => ⟨h.answered, h.free⟩)
    (fun _ hfalters => by simp [falters, hs.orderly.sturdy] at hfalters) (h.proceed hs)

lemma Loose.advance (h : Loose s) (hs : Paced s) (fuel : Nat) : Loose (s.advance fuel) := by
  induction fuel generalizing s with
  | zero => exact h
  | succ fuel ih =>
      rw [advance_step]
      exact ih (h.step hs) hs.step

/-! ### Answers to a pause -/

/-- What a session that waits shows. -/
lemma waits_iff : s.waits = true ↔ (∃ n, s.machine.control = .boundary .paused n) ∧
    s.controller.reporting = false ∧ s.controller.wait = .parked := by
  constructor
  · intro h
    obtain ⟨hpaused, hquiet⟩ := Bool.and_eq_true_iff.1 h
    obtain ⟨n, hn⟩ := isPaused_iff.mp hpaused
    exact ⟨⟨n, hn⟩, by simpa [isQuiet, hn] using hquiet⟩
  · rintro ⟨⟨n, hn⟩, hgoes, hwait⟩
    simp [Session.waits, isPaused, isQuiet, hn, hgoes, hwait]

/-- A run that waits is shown as paused. -/
lemma Paced.phase_of_waits (hs : Paced s) (hwaits : s.waits = true) :
    s.controller.phase = .paused := by
  obtain ⟨⟨n, hn⟩, -, hwait⟩ := waits_iff.1 hwaits
  have huntold := (hs.orderly.attentive.controller.parked hwait).1
  exact (hs.shown n hn).resolve_right (by simp [huntold])

/-- A request to go on hands a token to a run that waits. -/
lemma Paced.happen_resume_of_waits (hs : Paced s) (hwaits : s.waits = true) (stepping : Bool) :
    s.happen (.resume stepping) =
      { s with controller := { s.controller with stepping, wait := .granted } } := by
  obtain ⟨-, -, hwait⟩ := waits_iff.1 hwaits
  simp [happen_resume, Controller.resume?, hs.phase_of_waits hwaits, Phase.isActive,
    Controller.grant, hwait]

/-- One that is told to go on without single-stepping does not wait any more. -/
lemma Paced.loose_of_resume (hs : Paced s) (hwaits : s.waits = true) :
    Loose (s.happen (.resume false)) := by
  rw [hs.happen_resume_of_waits hwaits]
  exact ⟨fun _ => .inl rfl, .inl rfl⟩

lemma Paced.not_waits_of_resume (hs : Paced s) (hwaits : s.waits = true) (stepping : Bool) :
    (s.happen (.resume stepping)).waits = false := by
  obtain ⟨⟨n, hn⟩, -, -⟩ := waits_iff.1 hwaits
  rw [hs.happen_resume_of_waits hwaits]
  simp [Session.waits, isQuiet, hn]

/-- What is asked of a run that is to stop, and reported. -/
def stopping : List Event := [.stop, .report]

/-- A request to stop that is made while the run waits gives it word to end. -/
lemma Paced.after_stopping (hs : Paced s) (hwaits : s.waits = true) :
    ∃ c : Controller, s.after stopping = { s with controller := c } ∧ c.cancelled = true ∧
      c.wait = .dismissed ∧ c.reporting = false := by
  obtain ⟨-, hgoes, hwait⟩ := waits_iff.1 hwaits
  have hactive : s.controller.phase.isActive = true := by
    rw [hs.phase_of_waits hwaits]
    rfl
  refine ⟨{ { s.controller.requestStop with callers := s.controller.callers + 1 }.notify with
    callers := s.controller.callers }, ?_, ?_, ?_, ?_⟩
  · simp [stopping, Session.happen, askStop, hactive, reportCall]
  · simp [Controller.notify, Controller.requestStop, hactive, Controller.cancel]
  · simp [Controller.notify, Controller.requestStop, hactive, Controller.cancel, hwait]
  · simp [Controller.notify, Controller.requestStop, hactive, Controller.cancel, hgoes]

lemma Paced.stop_eq (hs : Paced s) (hwaits : s.waits = true) (fuel : Nat) :
    s.stop fuel = (s.after stopping).advance fuel := by
  have hactive : s.controller.phase.isActive = true := by
    rw [hs.phase_of_waits hwaits]
    rfl
  rw [stop, requestStop, if_pos hactive]
  rfl

lemma Paced.loose_of_stop (hs : Paced s) (hwaits : s.waits = true) :
    Loose (s.after stopping) := by
  obtain ⟨⟨n, hn⟩, -, -⟩ := waits_iff.1 hwaits
  obtain ⟨c, heq, hcancelled, hwait, -⟩ := hs.after_stopping hwaits
  rw [heq]
  exact ⟨fun _ => .inr hwait, .inr ⟨hcancelled, by simp [hn]⟩⟩

/-- A stopped run passes its failure on through all its tasks and ends. -/
lemma outcome?_of_fail_stopped (hleaf : ∀ p ∈ s.machine.pending, p.yields ≠ .action)
    (hc : s.machine.control = .fail .stopped) (hgoes : s.controller.reporting = false)
    (fuel : Nat) :
    (s.advance fuel).outcome? =
      if s.machine.pending.length + 1 < fuel then some .stopped else none := by
  induction hp : s.machine.pending generalizing s fuel with
  | nil =>
      cases fuel with
      | zero => simp [advance, outcome?, hc]
      | succ fuel =>
          have hstep : s.step = s.goto (.ending .stopped) := by
            rw [step_of_not_reporting hgoes, proceed_fail hc, withTask_nil hp]
            simp [finishFailed, Failure.isStopped]
          rw [advance_step, hstep]
          cases fuel with
          | zero => rfl
          | succ fuel =>
              have hended : (s.goto (.ending .stopped)).step.machine.control = .ended .stopped := by
                rw [step_of_not_reporting (s := s.goto (.ending .stopped)) hgoes]
                rfl
              rw [if_pos (by simp), outcome?_eq_some, advance_step, advance_eq_after]
              exact machine_after_ended hended _ ▸ hended
  | cons p rest ih =>
      cases fuel with
      | zero => simp [advance, outcome?, hc]
      | succ fuel =>
          have hyields := hleaf p (by simp [hp])
          have hstep : s.step.machine.pending = rest ∧ s.step.machine.control = .fail .stopped ∧
              s.step.controller = s.controller := by
            rw [step_of_not_reporting hgoes, proceed_fail hc, withTask_cons hp]
            cases p with
            | reenter site depth next => exact absurd rfl hyields
            | hostCall name site depth => exact ⟨rfl, rfl, rfl⟩
            | _ => exact ⟨rfl, hc, rfl⟩
          have hleaf' : ∀ q ∈ s.step.machine.pending, q.yields ≠ .action := by
            rw [hstep.1]
            exact fun q hq => hleaf q (by simp [hp, hq])
          rw [advance_step, ih hleaf' hstep.2.1 (by rw [hstep.2.2, hgoes]) fuel hstep.1]
          simp

/-- A run that is asked to stop while it waits ends as a stopped one, in as many steps as it has
tasks and three more. -/
theorem Paced.outcome?_of_stop (hs : Paced s) (hwaits : s.waits = true) (fuel : Nat) :
    ((s.after stopping).advance fuel).outcome? =
      if s.machine.pending.length + 2 < fuel then some .stopped else none := by
  obtain ⟨⟨n, hn⟩, -, -⟩ := waits_iff.1 hwaits
  obtain ⟨c, heq, -, hwait, hgoes⟩ := hs.after_stopping hwaits
  rw [heq]
  cases fuel with
  | zero => simp [Session.advance, outcome?, hn]
  | succ fuel =>
      have hstep : Session.step { s with controller := c } =
          Session.goto { s with controller := { c with wait := .polling } } (.fail .stopped) := by
        rw [step_of_not_reporting hgoes, proceed_boundary (s := { s with controller := c }) hn]
        simp only [pass, wake, hwait]
      have hend := outcome?_of_fail_stopped
        (s := Session.goto { s with controller := { c with wait := .polling } } (.fail .stopped))
        hs.leaf.pending rfl hgoes fuel
      rw [advance_step, hstep, hend]
      exact if_congr Nat.succ_lt_succ_iff.symm rfl rfl

end Session

end Pseudocode
