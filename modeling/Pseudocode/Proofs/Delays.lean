/-
# Delays

A run that is not single-stepping may be slowed down by a delay before each statement.  The delay
costs time and nothing else.  Two sessions in the same run which differ in it do the same, only
that a statement may still be delayed in the one which is under way in the other.  The host
functions of the run are assumed to be leaves, so that they do not ask for the delay.

Where a run is told to end while a statement passes its boundary, the delay decides whether the
statement still gets under way.  So this is about runs that are told to end elsewhere, if at all.

The main results are

* `Session.Hurries.step`: a run with another delay keeps up with a step;
* `Session.Hurries.after`: it keeps up with the same commands, unless the run is told to end while a
  statement passes its boundary.
-/
import Pseudocode.Proofs.Leaf
import Pseudocode.Proofs.Stepping

namespace Pseudocode

/-- The commands among some events. -/
def Event.commands (es : List Event) : List Event := es.filter (· ≠ .step)

lemma Event.commands_cons {e : Event} (he : e ≠ .step) (es : List Event) :
    commands (e :: es) = e :: commands es :=
  List.filter_cons_of_pos (by simpa using he)

lemma Event.commands_append (es es' : List Event) :
    commands (es ++ es') = commands es ++ commands es' :=
  List.filter_append _ _

lemma Event.commands_replicate_step (k : Nat) : commands (List.replicate k .step) = [] := by
  simp [commands]

namespace Controller

/-- The controls with another delay. -/
def withDelay (c : Controller) (v : Int) : Controller := { c with speed := v }

variable {c : Controller} {v : Int}

lemma poll_withDelay : (c.withDelay v).poll = c.poll.withDelay v := by
  unfold poll withDelay
  dsimp only
  split
  · rfl
  · rfl

lemma requestStop_withDelay : (c.withDelay v).requestStop = c.requestStop.withDelay v := by
  unfold requestStop withDelay
  dsimp only
  split
  · rfl
  · rfl

lemma resume?_withDelay (stepping : Bool) :
    (c.withDelay v).resume? stepping = (c.resume? stepping).map (·.withDelay v) := by
  unfold resume? grant withDelay
  dsimp only
  split
  · split
    · split
      · rfl
      · rfl
    · rfl
  · rfl

end Controller

/-- Whether a statement is delayed. -/
def Control.isDelayed : Control → Bool
  | .boundary .throttled _ | .boundary .delayed _ => true
  | _ => false

/-- Whether a statement passes its boundary.  One that is held up there does not. -/
def Control.isPassing : Control → Bool
  | .boundary .paused _ => false
  | .boundary _ _ => true
  | _ => false

lemma Control.isDelayed_of_not_isPassing {c : Control} (h : c.isPassing = false) :
    c.isDelayed = false := by
  cases c with
  | boundary p n =>
      cases p with
      | throttled | delayed => simp [isPassing] at h
      | admitted | paused => rfl
  | _ => rfl

namespace Machine

/-- The machine when the delay of a statement is over. -/
def undelayed (m : Machine) : Machine :=
  match m.control with
  | .boundary .throttled n | .boundary .delayed n => m.goto (.exec n)
  | _ => m

variable {m : Machine}

lemma undelayed_of_not_isDelayed (h : m.control.isDelayed = false) : m.undelayed = m := by
  unfold undelayed
  split
  · rename_i hc
    simp [hc, Control.isDelayed] at h
  · rename_i hc
    simp [hc, Control.isDelayed] at h
  · rfl

@[simp] lemma goto_undelayed (m : Machine) (c : Control) : m.undelayed.goto c = m.goto c := by
  unfold undelayed
  split
  · rfl
  · rfl
  · rfl

@[simp] lemma store_undelayed (m : Machine) : m.undelayed.store = m.store := by
  unfold undelayed
  split
  · rfl
  · rfl
  · rfl

@[simp] lemma heap_undelayed (m : Machine) : m.undelayed.heap = m.heap := by
  unfold undelayed
  split
  · rfl
  · rfl
  · rfl

lemma held_of_undelayed {site : Span} {next : Action Value}
    (h : m.undelayed.control = .held site next) : m.control = .held site next := by
  unfold undelayed at h
  split at h
  · cases h
  · cases h
  · exact h

end Machine

namespace Session

open Machine

variable {s c : Session} {v : Int} {n : Node}

/-- The session when the delay of a statement is over. -/
def undelayed (s : Session) : Session := { s with machine := s.machine.undelayed }

/-- The session with another delay. -/
def withDelay (s : Session) (v : Int) : Session :=
  { s with controller := s.controller.withDelay v }

lemma isPaused_undelayed (s : Session) : s.undelayed.isPaused = s.isPaused := by
  unfold undelayed Machine.undelayed
  split
  · rename_i n hc
    simp [isPaused, hc, Machine.goto]
  · rename_i n hc
    simp [isPaused, hc, Machine.goto]
  · rfl

/-! ### Steps with another delay -/

lemma withTask_withDelay {next : Machine → Pending → Machine} {last : Session → Session}
    (hlast : last (s.withDelay v) = (last s).withDelay v) :
    (s.withDelay v).withTask next last = (s.withTask next last).withDelay v := by
  cases hp : s.machine.pending with
  | nil => rw [withTask_nil hp, withTask_nil (s := s.withDelay v) hp, hlast]
  | cons p rest =>
      rw [withTask_cons hp, withTask_cons (s := s.withDelay v) hp]
      rfl

lemma reach_withDelay (n : Node) : (s.withDelay v).reach n = (s.reach n).withDelay v := by
  have harrival := s.arrival n
  generalize s.reach n = t at harrival
  cases harrival with
  | missing absent => exact Arrival.reach_eq (.missing absent)
  | excess present exceeded => exact Arrival.reach_eq (.excess present exceeded)
  | told counted cancelled =>
      exact Arrival.reach_eq (.told ⟨counted.present, counted.within⟩ cancelled)
  | admitted counted cancelled =>
      exact Arrival.reach_eq (.admitted ⟨counted.present, counted.within⟩ cancelled)

lemma wake_withDelay (n : Node) : (s.withDelay v).wake n = (s.wake n).withDelay v := by
  have hwait : (s.withDelay v).controller.wait = s.controller.wait := rfl
  have hpoll : (s.withDelay v).controller.poll = s.controller.poll.withDelay v :=
    Controller.poll_withDelay
  simp only [wake, hwait, hpoll]
  cases s.controller.wait with
  | _ => rfl

lemma finishFailed_withDelay (e : Failure) :
    (s.withDelay v).finishFailed e = (s.finishFailed e).withDelay v := by
  have hcancelled : (s.withDelay v).controller.cancelled = s.controller.cancelled := rfl
  simp only [finishFailed, hcancelled]
  split
  · rfl
  · rfl

lemma act_withDelay {a : Action Value} (ha : a.Leaf) (site : Span) :
    (s.withDelay v).act site a = (s.act site a).withDelay v := by
  cases ha with
  | @ask q next hq _ =>
      cases q with
      | resume _ | speed | setSpeed _ | stop | status | snapshot | cancelled | hold
      | call _ _ | consult => simp [Request.isLeaf] at hq
      | _ => rfl
  | _ => rfl

/-- The session that shows a statement. -/
def showing (s : Session) (n : Node) : Session :=
  { s with controller := { s.controller with span := n.span } }

/-- Without single-stepping a statement gets under way at once, or when a delay is over. -/
lemma heed_of_not_stepping (h : s.controller.stepping = false) (n : Node) :
    s.heed n = (s.showing n).goto
      (if s.controller.speed = 0 then .exec n else .boundary .throttled n) := by
  simp [heed, showing, h]

/-- A statement is delayed only if the run is not single-stepping. -/
lemma heed_withDelay (h : s.controller.stepping = true) (n : Node) :
    (s.withDelay v).heed n = (s.heed n).withDelay v := by
  have hstepping : (s.withDelay v).controller.stepping = true := h
  have htoken : (s.withDelay v).controller.token = s.controller.token := rfl
  have hphase : (s.withDelay v).controller.phase = s.controller.phase := rfl
  simp only [heed, h, hstepping, htoken, hphase, if_true]
  split
  · rfl
  · split
    · rfl
    · rfl

/-- Unless a statement heeds the controls or is delayed, the delay makes no difference. -/
lemma proceed_withDelay (hleaf : s.machine.control.Leaf)
    (hdelayed : s.machine.control.isDelayed = false)
    (hheeds : ∀ n, s.machine.control ≠ .boundary .admitted n) :
    (s.withDelay v).proceed = s.proceed.withDelay v := by
  have hcontrol : (s.withDelay v).machine.control = s.machine.control := rfl
  unfold Session.proceed
  rw [hcontrol]
  cases hc : s.machine.control with
  | reach n => exact reach_withDelay n
  | boundary p n =>
      cases p with
      | admitted => exact absurd hc (hheeds n)
      | throttled | delayed => simp [hc, Control.isDelayed] at hdelayed
      | paused => exact wake_withDelay n
  | host site a =>
      rw [hc] at hleaf
      exact act_withDelay hleaf site
  | held site next => simp [hc, Control.Leaf] at hleaf
  | value w => exact withTask_withDelay rfl
  | complete d =>
      exact withTask_withDelay (by cases d with | _ => rfl)
  | fail e => exact withTask_withDelay (finishFailed_withDelay e)
  | crash text => exact withTask_withDelay rfl
  | ending o => cases o with | _ => rfl
  | _ => rfl

/-- No statement is delayed by anything else. -/
lemma undelayed_proceed (hs : Sound s.machine) (hdelayed : s.machine.control.isDelayed = false)
    (hheeds : ∀ n, s.machine.control ≠ .boundary .admitted n) :
    s.proceed.undelayed = s.proceed := by
  rw [undelayed, undelayed_of_not_isDelayed]
  refine Bool.eq_false_iff.mpr fun hnext => ?_
  cases hc : s.proceed.machine.control with
  | boundary p n =>
      have hstands := stands_of_proceed hs hc
      rw [hc] at hnext
      generalize s.proceed = t at hstands
      cases hstands with
      | slows control _ => exact hheeds n control
      | passes control _ => simp [control, Control.isDelayed] at hdelayed
      | reaches _ _ _ | pauses _ _ _ | polls _ _ _ | waits _ _ => simp [Control.isDelayed] at hnext
  | _ => simp [hc, Control.isDelayed] at hnext

/-! ### Keeping up -/

/-- The same is seen of two sessions, as far as they keep no frames of a failure. -/
structure LooksLike (s c : Session) : Prop where
  outcome : c.outcome? = s.outcome?
  console : c.console = s.console
  store : c.machine.store = s.machine.store
  heap : c.machine.heap = s.machine.heap
  status : c.controller.status = s.controller.status

lemma LooksLike.refl (s : Session) : LooksLike s s := ⟨rfl, rfl, rfl, rfl, rfl⟩

/-- The session `c` is in the same run as `s` with a delay of its own, and when a statement is
delayed in `s`, it is under way in `c`.  While a statement passes its boundary, the run has not been
told to end. -/
structure Hurries (s c : Session) : Prop where
  same : ∃ v, c = s.undelayed.withDelay v
  sound : Sound s.machine
  leaf : Leaf s.machine
  untold : s.controller.cancelled = true → s.machine.control.isPassing = false

/-- The run is not told to end while a statement passes its boundary. -/
def Spares (s : Session) (es : List Event) : Prop :=
  ∀ es₁ e es₂, es = es₁ ++ e :: es₂ → e = .stop ∨ e = .cancel →
    (s.after es₁).machine.control.isPassing = false

lemma Spares.tail {e : Event} {es : List Event} (h : s.Spares (e :: es)) :
    (s.happen e).Spares es :=
  fun es₁ e' es₂ heq => h (e :: es₁) e' es₂ (by rw [heq]; rfl)

/-- A run of leaves is told to end by commands, and when it has ended. -/
lemma cancelled_of_proceed (hs : Sound s.machine) (hleaf : Leaf s.machine)
    (hcancelled : s.proceed.controller.cancelled = true)
    (hended : ∀ o, s.proceed.machine.control ≠ .ended o) : s.controller.cancelled = true := by
  have hturn := proceed_turn hs
  generalize s.proceed = t at hcancelled hended hturn
  cases hturn with
  | report _ controller _ | aside controller _ _ | pass _ _ controller _ | slow _ _ controller _
  | pause _ _ _ _ controller _ | wake _ _ controller _ | dismiss _ _ controller _
  | setSpeed _ controller _ | settle _ _ controller _ =>
      rw [controller] at hcancelled
      exact hcancelled
  | poll _ _ controller _ =>
      rw [controller, Controller.poll_eq] at hcancelled
      exact hcancelled
  | resume _ controller _ =>
      rw [Controller.resume?_eq controller] at hcancelled
      exact hcancelled
  | stop control _ _ =>
      have hc := hleaf.control
      rw [control] at hc
      cases hc with
      | ask hq _ => simp [Request.isLeaf] at hq
  | finish _ _ control' => exact absurd control' (hended _)

namespace Hurries

lemma cancelled_of_isPassing (h : Hurries s c) (hpassing : s.machine.control.isPassing = true) :
    s.controller.cancelled = false :=
  Bool.eq_false_iff.mpr fun htold => by simp [h.untold htold] at hpassing

lemma untold_proceed (h : Hurries s c) (hcancelled : s.proceed.controller.cancelled = true) :
    s.proceed.machine.control.isPassing = false := by
  refine Bool.eq_false_iff.mpr fun hpassing => ?_
  cases hn : s.proceed.machine.control with
  | boundary p n =>
      have htold := cancelled_of_proceed h.sound h.leaf hcancelled (by simp [hn])
      have huntold := h.untold htold
      have hstands := stands_of_proceed h.sound hn
      rw [hn] at hpassing
      generalize s.proceed = t at hstands
      cases hstands with
      | reaches _ untold _ => simp [htold] at untold
      | slows control _ | passes control _ => simp [control, Control.isPassing] at huntold
      | pauses _ _ _ | polls _ _ _ | waits _ _ => simp [Control.isPassing] at hpassing
  | _ => simp [hn, Control.isPassing] at hpassing

lemma proceed_of (h : Hurries s c) (hgoes : s.controller.reporting = false) {c' : Session}
    (hsame : ∃ v, c' = s.proceed.undelayed.withDelay v) : Hurries s.proceed c' := by
  have hstep : s.happen .step = s.proceed := step_of_not_reporting hgoes
  exact ⟨hsame, hstep ▸ sound_happen h.sound .step, hstep ▸ leaf_step h.sound h.leaf,
    h.untold_proceed⟩

/-- While a statement is delayed in the one session, the other stays where it is. -/
lemma stays (h : Hurries s c) (hgoes : s.controller.reporting = false)
    (hdelayed : s.machine.control.isDelayed = true) : Hurries s.proceed c := by
  refine h.proceed_of hgoes ?_
  have huntold := h.cancelled_of_isPassing
  obtain ⟨v, rfl⟩ := h.same
  refine ⟨v, ?_⟩
  cases hc : s.machine.control with
  | boundary p n =>
      cases p with
      | throttled =>
          rw [proceed_throttled hc, if_neg (by simp [huntold (by simp [hc, Control.isPassing])])]
          simp [undelayed, Machine.undelayed, hc, Session.goto, Machine.goto]
      | delayed =>
          rw [proceed_delayed hc, if_neg (by simp [huntold (by simp [hc, Control.isPassing])])]
          simp [undelayed, Machine.undelayed, hc, Session.goto, Machine.goto]
      | admitted | paused => simp [hc, Control.isDelayed] at hdelayed
  | _ => simp [hc, Control.isDelayed] at hdelayed

/-- Both sessions make the report of the run. -/
lemma report (h : Hurries s c) (hreporting : s.controller.reporting = true) :
    Hurries s.report c.step := by
  have hstep : s.happen .step = s.report := step_of_reporting hreporting
  refine ⟨?_, hstep ▸ sound_happen h.sound .step, hstep ▸ leaf_step h.sound h.leaf, ?_⟩
  · obtain ⟨v, rfl⟩ := h.same
    have hfalters : (s.undelayed.withDelay v).falters = s.falters := by
      unfold falters
      rw [← isPaused_undelayed s]
      rfl
    refine ⟨v, ?_⟩
    rw [step_of_reporting (s := s.undelayed.withDelay v) hreporting]
    unfold Session.report
    rw [hfalters]
    split
    · exact congrArg
        (fun m => { s with controller := s.controller.report.withDelay v, machine := m })
        (goto_undelayed s.machine _)
    · rfl
  · unfold Session.report
    split
    · exact fun _ => rfl
    · exact h.untold

/-- A statement that is delayed gets under way, if the run is not told to end. -/
lemma after_throttled (hn : c.machine.control = .boundary .throttled n)
    (hgoes : c.controller.reporting = false) (huntold : c.controller.cancelled = false) :
    c.after (List.replicate 2 .step) = c.goto (.exec n) := by
  have hthrottled : c.step = c.goto (.boundary .delayed n) := by
    rw [step_of_not_reporting hgoes, proceed_throttled hn, if_neg (by simp [huntold])]
  have hdelayed : (c.goto (.boundary .delayed n)).step = c.goto (.exec n) := by
    rw [step_of_not_reporting (s := c.goto (.boundary .delayed n)) hgoes,
      proceed_delayed (s := c.goto (.boundary .delayed n)) rfl, if_neg (by simp [huntold])]
    rfl
  show c.step.step = _
  rw [hthrottled, hdelayed]

/-- A statement that heeds the controls gets under way with any delay, unless the run pauses. -/
lemma heeds (h : Hurries s c) (hgoes : s.controller.reporting = false)
    (hn : s.machine.control = .boundary .admitted n) :
    ∃ k, Hurries s.proceed (c.after (List.replicate k .step)) := by
  have huntold := h.cancelled_of_isPassing (by rw [hn]; rfl)
  obtain ⟨v, hc⟩ := h.same
  have hsame : c = s.withDelay v := by
    rw [hc, undelayed, undelayed_of_not_isDelayed (by rw [hn]; rfl)]
  subst hsame
  have hproceed : s.proceed = s.heed n := proceed_boundary hn
  have hstep : (s.withDelay v).step = (s.withDelay v).heed n :=
    (step_of_not_reporting (s := s.withDelay v) hgoes).trans
      (proceed_boundary (s := s.withDelay v) hn)
  cases hstepping : s.controller.stepping with
  | true =>
      have hundelayed : (s.heed n).undelayed = s.heed n := by
        have hheeding := s.heeding n
        generalize s.heed n = t at hheeding
        cases hheeding with
        | begun _ _ _ | pauses _ _ _ _ => rfl
        | slowed stepping _ _ => simp [hstepping] at stepping
      refine ⟨1, h.proceed_of hgoes ⟨v, ?_⟩⟩
      rw [hproceed, hundelayed, ← heed_withDelay hstepping]
      exact hstep
  | false =>
      have hheed := heed_of_not_stepping (s := s.withDelay v) hstepping n
      have hundelayed : s.proceed.undelayed = (s.showing n).goto (.exec n) := by
        rw [hproceed, heed_of_not_stepping hstepping]
        split
        · rfl
        · rfl
      by_cases hv : (s.withDelay v).controller.speed = 0
      · refine ⟨1, h.proceed_of hgoes ⟨v, ?_⟩⟩
        rw [hundelayed]
        exact hstep.trans (hheed.trans (by rw [if_pos hv]; rfl))
      · refine ⟨1 + 2, h.proceed_of hgoes ⟨v, ?_⟩⟩
        rw [← List.replicate_append_replicate, after_append, hundelayed]
        show ((s.withDelay v).step.after _) = _
        rw [hstep, hheed, if_neg hv]
        exact after_throttled (c := ((s.withDelay v).showing n).goto (.boundary .throttled n)) rfl
          hgoes huntold

/-- Another delay keeps up with a step. -/
theorem step (h : Hurries s c) : ∃ k, Hurries s.step (c.after (List.replicate k .step)) := by
  cases hr : s.controller.reporting with
  | true =>
      rw [step_of_reporting hr]
      exact ⟨1, h.report hr⟩
  | false =>
      rw [step_of_not_reporting hr]
      cases hdelayed : s.machine.control.isDelayed with
      | true => exact ⟨0, h.stays hr hdelayed⟩
      | false =>
          by_cases hheeds : ∃ n, s.machine.control = .boundary .admitted n
          · obtain ⟨n, hn⟩ := hheeds
            exact h.heeds hr hn
          · refine ⟨1, h.proceed_of hr ?_⟩
            obtain ⟨v, hc⟩ := h.same
            rw [undelayed, undelayed_of_not_isDelayed hdelayed] at hc
            subst hc
            have hproceed := proceed_withDelay (v := v) h.leaf.control hdelayed
              fun n hn => hheeds ⟨n, hn⟩
            refine ⟨v, ?_⟩
            show (s.withDelay v).step = _
            rw [step_of_not_reporting (s := s.withDelay v) hr, hproceed,
              undelayed_proceed h.sound hdelayed fun n hn => hheeds ⟨n, hn⟩]

/-- It keeps up with a command, unless that tells the run to end while a statement passes its
boundary. -/
lemma command (h : Hurries s c) {e : Event} (he : e ≠ .step)
    (hend : e = .stop ∨ e = .cancel → s.machine.control.isPassing = false) :
    Hurries (s.happen e) (c.happen e) := by
  have hheld : ∀ site next, s.machine.control ≠ .held site next := by
    intro site next hc
    have hleaf := h.leaf.control
    simp [hc, Control.Leaf] at hleaf
  have hmachine : (s.happen e).machine = s.machine := machine_of_command hheld rfl he
  refine ⟨?_, hmachine ▸ h.sound, hmachine ▸ h.leaf, ?_⟩
  · obtain ⟨v, rfl⟩ := h.same
    cases e with
    | step => exact absurd rfl he
    | stop =>
        have hstop : (s.undelayed.withDelay v).controller.requestStop =
            s.controller.requestStop.withDelay v := Controller.requestStop_withDelay
        have hactive : (s.undelayed.withDelay v).controller.phase.isActive =
            s.controller.phase.isActive := rfl
        refine ⟨v, ?_⟩
        simp only [Session.happen, askStop, hstop, hactive]
        split
        · rfl
        · rfl
    | cancel =>
        have hprogram : (s.undelayed.withDelay v).program = s.program := rfl
        refine ⟨v, ?_⟩
        simp only [Session.happen, Session.cancel, hprogram]
        cases s.program with
        | _ => rfl
    | report =>
        have hcallers : (s.undelayed.withDelay v).controller.callers = s.controller.callers := rfl
        refine ⟨v, ?_⟩
        simp only [Session.happen, reportCall, hcallers]
        split
        · rfl
        · rfl
    | resume stepping =>
        have hresume : (s.undelayed.withDelay v).controller.resume? stepping =
            (s.controller.resume? stepping).map (·.withDelay v) :=
          Controller.resume?_withDelay stepping
        refine ⟨v, ?_⟩
        rw [happen_resume, happen_resume, hresume]
        cases s.controller.resume? stepping with
        | _ => rfl
    | setSpeed n => exact ⟨(s.controller.setSpeed n).speed, rfl⟩
    | favour eager => exact ⟨v, rfl⟩
    | release =>
        have hheld' : ∀ site next, (s.undelayed.withDelay v).machine.control ≠ .held site next :=
          fun site next hc => hheld site next (held_of_undelayed hc)
        rw [happen_release_of_not_held hheld, happen_release_of_not_held hheld']
        exact ⟨v, rfl⟩
  · rw [hmachine]
    by_cases htells : e = .stop ∨ e = .cancel
    · exact fun _ => hend htells
    · rw [not_or] at htells
      rw [(untold_happen he htells.1 htells.2).1]
      exact h.untold

/-- It keeps up with the same commands, unless the run is told to end while a statement passes its
boundary. -/
theorem after (h : Hurries s c) {es : List Event} (hes : s.Spares es) :
    ∃ es', Event.commands es' = Event.commands es ∧ Hurries (s.after es) (c.after es') := by
  induction es generalizing s c with
  | nil => exact ⟨[], rfl, h⟩
  | cons e es ih =>
      by_cases hstep : e = .step
      · subst hstep
        obtain ⟨k, hk⟩ := h.step
        obtain ⟨rest, hcommands, hrest⟩ := ih hk hes.tail
        refine ⟨List.replicate k .step ++ rest, ?_, by rwa [after_append]⟩
        rw [Event.commands_append, Event.commands_replicate_step, hcommands]
        rfl
      · obtain ⟨rest, hcommands, hrest⟩ := ih (h.command hstep (hes [] e es rfl)) hes.tail
        refine ⟨e :: rest, ?_, hrest⟩
        rw [Event.commands_cons hstep, Event.commands_cons hstep, hcommands]

/-- Nothing that can be seen of the two sessions differs. -/
lemma looksLike (h : Hurries s c) : LooksLike s c := by
  obtain ⟨v, rfl⟩ := h.same
  refine ⟨?_, rfl, store_undelayed s.machine, heap_undelayed s.machine, rfl⟩
  show s.undelayed.outcome? = s.outcome?
  unfold undelayed Machine.undelayed
  split
  · rename_i n hc
    simp [outcome?, hc, Machine.goto]
  · rename_i n hc
    simp [outcome?, hc, Machine.goto]
  · rfl

end Hurries

end Session

end Pseudocode
