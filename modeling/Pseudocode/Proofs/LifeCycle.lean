/-
# The life cycle of a run

A session goes through the phases of a run in a fixed form: the run begins, it may pause and go on
any number of times, it may be asked to stop, and it ends once.  The requests of host functions and
the commands given meanwhile change neither this form nor what the session shows after the end.

The observer of a session is told of each change of phase, but only after it has been made, and is
shown the phase that the session is in by then.  So a phase that does not last may be passed over,
and the next one be reported twice.  As long as calls do not overlap with what the run does, the
observer is told exactly of the phases that the session goes through.

The main results are

* `Phase.Seen.mem_lifeCycle`: the phases of a run that is over are a word of the regular expression
  `Phase.lifeCycle`;
* `Session.Chronicled.happen`: every event adds to the phases of a run as that expression allows;
* `Session.Faithful.happen`: an event that does not overlap with a report due leaves at most one
  phase unreported, the one that the session is in;
* `Session.run_life_cycle`: the life cycle of a run, what the observer is told of it, its error, the
  requests that are refused, and the start of a program that is refused.
-/
import Mathlib.Computability.RegularExpressions
import Pseudocode.Proofs.Limits
import Pseudocode.Proofs.Stopping

namespace Pseudocode

namespace Phase

open RegularExpression (char)

/-- Whether a run that is shown in this phase is over. -/
def isFinal : Phase → Bool
  | completed | failed | stopped => true
  | _ => false

/-- The beginning of a run and the pauses after which it went on. -/
def rounds : RegularExpression Phase :=
  char running * (char paused * char running).star

/-- The phases of a run that is in the given one now, the earliest first. -/
inductive Seen : List Phase → Phase → Prop where
  | begin : Seen [.running] .running
  | pause {w : List Phase} (h : Seen w .running) : Seen (w ++ [Phase.paused]) .paused
  | wake {w : List Phase} (h : Seen w .paused) : Seen (w ++ [Phase.running]) .running
  | stop {w : List Phase} {p : Phase} (h : Seen w p) (hp : p.isActive = true) :
      Seen (w ++ [Phase.stopping]) .stopping
  | finish {w : List Phase} {p q : Phase} (h : Seen w p) (hp : p.isFinal = false)
      (hq : q.isFinal = true) : Seen (w ++ [q]) q

lemma isFinal_of_isActive {p : Phase} (h : p.isActive = true) : p.isFinal = false := by
  cases p with
  | running | paused => rfl
  | _ => simp [isActive] at h

lemma rounds_append {w : List Phase} (h : w ∈ rounds.matches') :
    w ++ [paused, running] ∈ rounds.matches' := by
  obtain ⟨u, hu, v, hv, rfl⟩ := Language.mem_mul.mp h
  obtain ⟨L, rfl, hL⟩ := Language.mem_kstar.mp hv
  refine Language.mem_mul.mpr ⟨u, hu, (L ++ [[paused, running]]).flatten, ?_, by simp⟩
  refine Language.mem_kstar.mpr ⟨_, rfl, fun y hy => ?_⟩
  rcases List.mem_append.mp hy with hy | hy
  · exact hL y hy
  · rw [List.mem_singleton.mp hy]
    exact Language.mem_mul.mpr ⟨[paused], rfl, [running], rfl, rfl⟩

/-- Where a word of the life cycle stands in each phase. -/
lemma Seen.split {w : List Phase} {p : Phase} (h : Seen w p) (hp : p.isFinal = false) :
    ∃ u a b, u ∈ rounds.matches' ∧ (a = [] ∨ a = [paused]) ∧ (b = [] ∨ b = [stopping]) ∧
      w = u ++ a ++ b ∧ (p = .running → a = [] ∧ b = []) ∧ (p = .paused → a = [paused] ∧ b = []) ∧
      (p.isActive = true → b = []) := by
  induction h with
  | begin =>
      have hstart : [running] ∈ rounds.matches' :=
        Language.mem_mul.mpr ⟨[running], rfl, [], Language.nil_mem_kstar _, rfl⟩
      exact ⟨[running], [], [], hstart, .inl rfl, .inl rfl, rfl, by simp, by simp, by simp⟩
  | pause _ ih =>
      obtain ⟨u, a, b, hu, -, -, rfl, hab, -, -⟩ := ih rfl
      obtain ⟨rfl, rfl⟩ := hab rfl
      exact ⟨u, [paused], [], hu, .inr rfl, .inl rfl, by simp, by simp, by simp, by simp⟩
  | wake _ ih =>
      obtain ⟨u, a, b, hu, -, -, rfl, -, hab, -⟩ := ih rfl
      obtain ⟨rfl, rfl⟩ := hab rfl
      refine ⟨u ++ [paused, running], [], [], rounds_append hu, .inl rfl, .inl rfl, ?_, by simp,
        by simp, by simp⟩
      simp
  | stop _ hactive ih =>
      obtain ⟨u, a, b, hu, ha, -, rfl, -, -, hb⟩ := ih (isFinal_of_isActive hactive)
      obtain rfl := hb hactive
      exact ⟨u, a, [stopping], hu, ha, .inr rfl, by simp, by simp, by simp, by simp [isActive]⟩
  | finish _ _ hq _ => simp [hq] at hp

/-- A run is in the last of its phases. -/
lemma Seen.getLast? {w : List Phase} {p : Phase} (h : Seen w p) : w.getLast? = some p := by
  cases h with
  | begin => rfl
  | _ => simp

end Phase

lemma Outcome.isFinal_phase (o : Outcome) : o.phase.isFinal = true := by
  cases o with
  | completed v => rfl
  | failed e span => rfl
  | stopped => rfl

namespace Session

open Machine

/-- The phases that the observer of the session has been told of, the earliest first. -/
def told (s : Session) : List Phase := (s.controller.notices.map (·.phase)).reverse

/-- The phase that the session changes to with an event, if it does. -/
def phaseTaken (s : Session) (e : Event) : List Phase :=
  if (s.happen e).controller.phase = s.controller.phase then []
  else [(s.happen e).controller.phase]

/-- The phases that the session changes to during a schedule, in their order. -/
def phasesTaken : Session → List Event → List Phase
  | _, [] => []
  | s, e :: es => s.phaseTaken e ++ (s.happen e).phasesTaken es

/-- Whether someone has a change of phase to report. -/
def isDue (s : Session) : Bool := s.controller.reporting || decide (0 < s.controller.callers)

variable {s : Session} {e : Event} {before word : List Phase}

lemma phaseTaken_of_eq (h : (s.happen e).controller.phase = s.controller.phase) :
    s.phaseTaken e = [] := if_pos h

lemma phaseTaken_of_ne (h : (s.happen e).controller.phase ≠ s.controller.phase) :
    s.phaseTaken e = [(s.happen e).controller.phase] := if_neg h

/-! ### The phases of a run -/

/-- The session has gone through these phases since the start of the run. -/
structure Chronicled (word : List Phase) (s : Session) : Prop where
  seen : Phase.Seen word s.controller.phase
  /-- A run in a final phase is over. -/
  finished : s.controller.phase.isFinal = true → ∃ o, s.machine.control = .ended o
  /-- There is no error before the end. -/
  error : s.controller.error.isSome = true → ∃ o, s.machine.control = .ended o

/-- An event that leaves the phase and the error alone adds nothing. -/
lemma Chronicled.keep (h : Chronicled word s)
    (hphase : (s.happen e).controller.phase = s.controller.phase)
    (herror : (s.happen e).controller.error = s.controller.error)
    (hended : ∀ o, s.machine.control = .ended o → (s.happen e).machine.control = .ended o) :
    Chronicled (word ++ s.phaseTaken e) (s.happen e) := by
  rw [phaseTaken_of_eq hphase, List.append_nil]
  refine ⟨hphase ▸ h.seen, fun hfinal => ?_, fun hsome => ?_⟩
  · obtain ⟨o, ho⟩ := h.finished (hphase ▸ hfinal)
    exact ⟨o, hended o ho⟩
  · obtain ⟨o, ho⟩ := h.error (herror ▸ hsome)
    exact ⟨o, hended o ho⟩

/-- An event that changes the phase adds the new one. -/
lemma Chronicled.shift {p : Phase} (hphase : (s.happen e).controller.phase = p)
    (hne : p ≠ s.controller.phase) (hseen : Phase.Seen (word ++ [p]) p)
    (hfinished : p.isFinal = true → ∃ o, (s.happen e).machine.control = .ended o)
    (herror : (s.happen e).controller.error.isSome = true →
      ∃ o, (s.happen e).machine.control = .ended o) :
    Chronicled (word ++ s.phaseTaken e) (s.happen e) := by
  subst hphase
  rw [phaseTaken_of_ne hne]
  exact ⟨hseen, hfinished, herror⟩

/-- A request to stop changes the phase if the run is active. -/
lemma Chronicled.stop (h : Chronicled word s)
    (hphase : (s.happen e).controller.phase = s.controller.requestStop.phase)
    (herror : (s.happen e).controller.error = s.controller.error)
    (hended : ∀ o, s.machine.control = .ended o → (s.happen e).machine.control = .ended o) :
    Chronicled (word ++ s.phaseTaken e) (s.happen e) := by
  cases hactive : s.controller.phase.isActive with
  | true =>
      have hstopping : s.controller.requestStop.phase = .stopping := by
        simp [Controller.requestStop, hactive, Controller.cancel]
      refine .shift (hphase.trans hstopping) ?_ (h.seen.stop hactive) (by rintro ⟨⟩) ?_
      · rintro heq
        simp [← heq, Phase.isActive] at hactive
      · intro hsome
        obtain ⟨o, ho⟩ := h.error (herror ▸ hsome)
        exact ⟨o, hended o ho⟩
  | false =>
      rw [Controller.requestStop_of_not_active hactive] at hphase
      exact h.keep hphase herror hended

/-- A step changes the phase as the life cycle of a run allows. -/
lemma Chronicled.step (h : Chronicled word s) (hs : Sound s.machine) :
    Chronicled (word ++ s.phaseTaken .step) (s.happen .step) := by
  by_cases hover : ∃ o, s.machine.control = .ended o
  · obtain ⟨o, ho⟩ := hover
    have hstays : (s.happen .step).machine = s.machine ∧
        (s.happen .step).controller.phase = s.controller.phase ∧
        (s.happen .step).controller.error = s.controller.error := by
      rcases step_of_ended ho with heq | heq
      · rw [happen, heq]
        exact ⟨rfl, rfl, rfl⟩
      · rw [happen, heq]
        exact ⟨rfl, rfl, rfl⟩
    exact h.keep hstays.2.1 hstays.2.2 fun o ho => by rw [hstays.1, ho]
  · have hnone : ∀ o, s.machine.control = .ended o →
        (s.happen .step).machine.control = .ended o := fun o ho => absurd ⟨o, ho⟩ hover
    have hopen : s.controller.phase.isFinal = false := by
      cases hfinal : s.controller.phase.isFinal with
      | false => rfl
      | true => exact absurd (h.finished hfinal) hover
    have hnoerror : s.controller.error.isSome = true →
        ∃ o, (s.happen .step).machine.control = .ended o := fun hsome => absurd (h.error hsome) hover
    have hkeep : ∀ {k : Controller}, s.step.controller = k → k.phase = s.controller.phase →
        k.error = s.controller.error → Chronicled (word ++ s.phaseTaken .step) (s.happen .step) := by
      intro k hk hphase herror
      exact h.keep ((congrArg Controller.phase hk).trans hphase)
        ((congrArg Controller.error hk).trans herror) hnone
    cases step_turn hs with
    | aside controller _ _ | settle _ _ controller _ | pass _ _ controller _
    | slow _ _ controller _ | dismiss _ _ controller _ | setSpeed _ controller _
    | report _ controller _ => exact hkeep controller rfl rfl
    | poll _ _ controller _ =>
        rw [Controller.poll_eq] at controller
        exact hkeep controller rfl rfl
    | resume _ controller _ =>
        have heq := Controller.resume?_eq controller
        exact hkeep heq rfl rfl
    | pause _ _ _ phase controller _ =>
        refine .shift (p := .paused) (by rw [happen, controller]) (by simp [phase])
          (.pause (phase ▸ h.seen)) (by rintro ⟨⟩) fun hsome => hnoerror ?_
        rwa [happen, controller] at hsome
    | wake _ _ controller _ =>
        by_cases hphase : s.controller.phase = .paused
        · refine .shift (p := .running) ?_ (by simp [hphase]) (.wake (hphase ▸ h.seen))
            (by rintro ⟨⟩) fun hsome => hnoerror ?_
          · rw [happen, controller]
            exact if_pos hphase
          · rwa [happen, controller] at hsome
        · exact hkeep controller (if_neg hphase) rfl
    | stop _ controller _ =>
        refine h.stop (by rw [happen, controller]) ?_ hnone
        rw [happen, controller]
        cases hactive : s.controller.phase.isActive with
        | true => simp [Controller.requestStop, hactive, Controller.cancel]
        | false => rw [Controller.requestStop_of_not_active hactive]
    | @finish o _ controller control' =>
        refine .shift (p := o.phase) (by rw [happen, controller]; rfl) ?_
          (h.seen.finish hopen o.isFinal_phase) (fun _ => ⟨o, control'⟩) fun _ => ⟨o, control'⟩
        intro heq
        rw [← heq, o.isFinal_phase] at hopen
        simp at hopen

/-- Every event changes the phase as the life cycle of a run allows. -/
theorem Chronicled.happen (h : Chronicled word s) (hs : Sound s.machine) (e : Event) :
    Chronicled (word ++ s.phaseTaken e) (s.happen e) := by
  by_cases he : e = .step
  · rw [he]
    exact h.step hs
  · have hended : ∀ o, s.machine.control = .ended o → (s.happen e).machine.control = .ended o := by
      intro o ho
      rw [machine_of_command (by simp) ho he, ho]
    obtain ⟨hsame | ⟨rfl, hactive, hstopping⟩, herror⟩ := phase_of_command he
    · exact h.keep hsame herror hended
    · refine h.stop ?_ herror hended
      simp [hstopping, Controller.requestStop, hactive, Controller.cancel]

lemma chronicled_launch {s₀ t : Session} {program : Program} {l : Launch}
    (h : s₀.launch program l = .ok t) : Chronicled [.running] t := by
  obtain ⟨machine, hm, rfl⟩ := launch_eq_ok.mp h
  obtain ⟨functions, -, rfl⟩ := freshMachine_eq_ok hm
  refine ⟨.begin, ?_, ?_⟩
  · rintro ⟨⟩
  · rintro ⟨⟩

lemma Chronicled.after (h : Chronicled word s) (hs : Sound s.machine) (es : List Event) :
    Chronicled (word ++ s.phasesTaken es) (s.after es) := by
  induction es generalizing s word with
  | nil =>
      rw [phasesTaken, List.append_nil]
      exact h
  | cons e es ih =>
      rw [phasesTaken, ← List.append_assoc]
      exact ih (h.happen hs e) (sound_happen hs e)

lemma told_eq_of_notices {t : Session} (h : t.controller.notices = s.controller.notices) :
    t.told = s.told := by
  rw [told, told, h]

/-- A run that goes on tells the observer nothing; what it has to report it reports next. -/
lemma notices_proceed (hs : Sound s.machine) (hr : s.controller.reporting = false) :
    s.proceed.controller.notices = s.controller.notices ∧
      s.proceed.controller.callers = s.controller.callers := by
  cases proceed_turn hs with
  | report reporting _ _ => simp [hr] at reporting
  | poll _ _ controller _ =>
      rw [controller, Controller.poll_eq]
      exact ⟨rfl, rfl⟩
  | resume _ controller _ =>
      rw [Controller.resume?_eq controller]
      exact ⟨rfl, rfl⟩
  | stop _ controller _ =>
      rw [controller]
      cases hactive : s.controller.phase.isActive with
      | true => simp [Controller.requestStop, hactive, Controller.cancel]
      | false => simp [Controller.requestStop_of_not_active hactive]
  | aside controller _ _ | pass _ _ controller _ | slow _ _ controller _
  | pause _ _ _ _ controller _ | wake _ _ controller _ | dismiss _ _ controller _
  | settle _ _ controller _ | setSpeed _ controller _ | finish _ controller _ =>
      rw [controller]
      exact ⟨rfl, rfl⟩

/-- Commands tell the observer nothing, except for the report of a caller. -/
lemma notices_of_command (hstep : e ≠ .step) (hreport : e ≠ .report) :
    (s.happen e).controller.notices = s.controller.notices := by
  have hcommand := s.command hstep
  generalize (s.happen e).controller = c at hcommand ⊢
  cases hcommand with
  | report _ => exact absurd rfl hreport
  | stop active => simp [Controller.requestStop, active, Controller.cancel]
  | resume accepted => rw [Controller.resume?_eq accepted]
  | aside | cancel | setSpeed _ | favour _ => rfl

/-- The event does not come between a change of phase and the report of that, if it leads to another
one: a caller that has stopped the run reports that before the run goes on, and nobody stops a run
that has something to report, or that pauses and does not wait yet or does not wait any more. -/
def Apart (s : Session) : Event → Prop
  | .step => s.controller.callers = 0
  | .stop => s.controller.phase.isActive = true →
      s.controller.reporting = false ∧ (s.isPaused = true → s.controller.wait = .parked)
  | _ => True

/-- No event of the schedule does. -/
def AllApart : Session → List Event → Prop
  | _, [] => True
  | s, e :: es => s.Apart e ∧ (s.happen e).AllApart es

instance (s : Session) : (e : Event) → Decidable (s.Apart e)
  | .step => inferInstanceAs (Decidable (s.controller.callers = 0))
  | .stop => inferInstanceAs (Decidable (s.controller.phase.isActive = true →
      s.controller.reporting = false ∧ (s.isPaused = true → s.controller.wait = .parked)))
  | .report | .resume _ | .cancel | .setSpeed _ | .release | .favour _ =>
      inferInstanceAs (Decidable True)

instance decidableAllApart : (s : Session) → (es : List Event) → Decidable (s.AllApart es)
  | _, [] => inferInstanceAs (Decidable True)
  | s, e :: es =>
      have := decidableAllApart (s.happen e) es
      inferInstanceAs (Decidable (s.Apart e ∧ (s.happen e).AllApart es))

/-- The observer has been told of the phases of the run, except for the present one if that is yet
to be reported. -/
structure Faithful (before word : List Phase) (s : Session) : Prop where
  told : s.told ++ (if s.isDue then [s.controller.phase] else []) = before ++ word
  /-- Only one has something to report: the run, or a caller that has stopped it. -/
  alone : 0 < s.controller.callers → s.controller.callers = 1 ∧ s.controller.reporting = false ∧
    s.controller.phase.isActive = false
  /-- A run that pauses is shown as paused, unless it has got word to end. -/
  paused : ∀ n, s.machine.control = .boundary .paused n → s.controller.wait ≠ .dismissed →
    s.controller.phase = .paused

/-- A run that pauses has begun to do so, or goes on pausing. -/
lemma paused_of_proceed (hs : Sound s.machine) {n : Node}
    (h : s.proceed.machine.control = .boundary .paused n) :
    s.proceed.controller.phase = .paused ∨
      s.machine.control = .boundary .paused n ∧
        s.proceed.controller.phase = s.controller.phase ∧ s.controller.wait ≠ .granted ∧
        (s.proceed.controller.wait ≠ .dismissed → s.controller.wait ≠ .dismissed) := by
  have hstands := stands_of_proceed hs h
  generalize s.proceed = t at hstands ⊢
  cases hstands with
  | pauses _ _ phase => exact .inl phase
  | polls control wait controller =>
      refine .inr ⟨control, ?_, by simp [wait], fun _ => by simp [wait]⟩
      rw [controller, Controller.poll_eq]
  | waits control wait => exact .inr ⟨control, rfl, by simp [wait], id⟩

/-- If a run goes on, it has something to report exactly if it has changed the phase. -/
lemma Faithful.reporting_proceed (h : Faithful before word s) (hword : Chronicled word s)
    (hs : Sound s.machine) (hr : s.controller.reporting = false) :
    s.proceed.controller.reporting = true ↔
      s.proceed.controller.phase ≠ s.controller.phase := by
  have hkeep : ∀ {k : Controller}, k.reporting = false → k.phase = s.controller.phase →
      (k.reporting = true ↔ k.phase ≠ s.controller.phase) := by
    intro k hreporting hphase
    simp [hreporting, hphase]
  cases proceed_turn hs with
  | report reporting _ _ => simp [hr] at reporting
  | aside controller _ _ | pass _ _ controller _ | slow _ _ controller _ | dismiss _ _ controller _
  | settle _ _ controller _ | setSpeed _ controller _ =>
      rw [controller]
      exact hkeep hr rfl
  | poll _ _ controller _ =>
      rw [controller, Controller.poll_eq]
      exact hkeep hr rfl
  | resume _ controller _ =>
      rw [Controller.resume?_eq controller]
      exact hkeep hr rfl
  | pause _ _ _ phase controller _ => simp [controller, phase]
  | wake control wait controller _ =>
      have hphase := h.paused _ control (by simp [wait])
      simp [controller, Controller.proceed, hphase]
  | stop _ controller _ =>
      rw [controller]
      cases hactive : s.controller.phase.isActive with
      | true =>
          have hne : s.controller.phase ≠ .stopping := by
            intro heq
            simp [heq, Phase.isActive] at hactive
          simp [Controller.requestStop, hactive, Controller.cancel, hne.symm]
      | false => simp [Controller.requestStop_of_not_active hactive]
  | @finish o control controller _ =>
      have hne : o.phase ≠ s.controller.phase := by
        intro heq
        obtain ⟨o', ho'⟩ := hword.finished (heq ▸ o.isFinal_phase)
        simp [control] at ho'
      simp [controller, Controller.ended, hne]

lemma Faithful.proceed (h : Faithful before word s) (hword : Chronicled word s)
    (hs : Sound s.machine) (hr : s.controller.reporting = false)
    (hcallers : s.controller.callers = 0) (heq : s.happen e = s.proceed) :
    Faithful before (word ++ s.phaseTaken e) (s.happen e) := by
  obtain ⟨hnotices, hcallers'⟩ := notices_proceed hs hr
  rw [hcallers] at hcallers'
  have hreporting := h.reporting_proceed hword hs hr
  refine ⟨?_, fun hpos => ?_, fun n hn hwait => ?_⟩
  · have hdue : s.isDue = false := by simp [isDue, hr, hcallers]
    have htold := h.told
    rw [hdue, if_neg (by simp), List.append_nil] at htold
    rw [heq, told_eq_of_notices hnotices, htold, List.append_assoc, List.append_cancel_left_eq]
    unfold phaseTaken
    rw [heq, isDue, hcallers']
    by_cases hphase : s.proceed.controller.phase = s.controller.phase
    · have hquiet : s.proceed.controller.reporting = false := by
        simpa [hphase] using hreporting
      simp [hphase, hquiet]
    · simp [hphase, hreporting.mpr hphase]
  · rw [heq, hcallers'] at hpos
    exact absurd hpos (Nat.lt_irrefl 0)
  · rw [heq] at hn hwait ⊢
    rcases paused_of_proceed hs hn with hphase | ⟨hc, hphase, -, hwait'⟩
    · exact hphase
    · exact hphase.trans (h.paused n hc (hwait' hwait))

/-- What is reported is the phase that was yet to be reported. -/
lemma Faithful.report (h : Faithful before word s) (hdue : s.isDue = true)
    (htold : (s.happen e).told = s.told ++ [s.controller.phase])
    (hphase : (s.happen e).controller.phase = s.controller.phase)
    (hdone : (s.happen e).isDue = false)
    (hpaused : ∀ n, (s.happen e).machine.control = .boundary .paused n →
      s.machine.control = .boundary .paused n ∧
        (s.happen e).controller.wait = s.controller.wait) :
    Faithful before (word ++ s.phaseTaken e) (s.happen e) := by
  have hsofar := h.told
  rw [if_pos hdue] at hsofar
  refine ⟨?_, fun hpos => ?_, fun n hn hwait => ?_⟩
  · rw [phaseTaken_of_eq hphase, hdone, htold, hsofar]
    simp
  · simp [isDue, Nat.ne_of_gt hpos] at hdone
  · obtain ⟨hc, heq⟩ := hpaused n hn
    exact hphase.trans (h.paused n hc (heq ▸ hwait))

/-- So it is if the run makes its report with a step, whether the observer breaks down or not. -/
lemma Faithful.report_step {t : Session} (h : Faithful before word s)
    (hr : s.controller.reporting = true) (hcallers : s.controller.callers = 0)
    (ht : s.happen .step = t) (hcontroller : t.controller = s.controller.report)
    (hpaused : ∀ n, t.machine.control = .boundary .paused n →
      s.machine.control = .boundary .paused n) :
    Faithful before (word ++ s.phaseTaken .step) (s.happen .step) := by
  subst ht
  refine h.report (by simp [isDue, hr]) ?_ (by rw [hcontroller]; rfl) ?_ fun n hn => ?_
  · rw [Session.told, hcontroller]
    simp [Session.told, Controller.report, Controller.notify]
  · rw [isDue, hcontroller]
    simp [Controller.report, Controller.notify, hcallers]
  · exact ⟨hpaused n hn, by rw [hcontroller]; rfl⟩

/-- An event that changes nothing of what is reported leaves the reports as they are. -/
lemma Faithful.keep {t : Session} (h : Faithful before word s) (ht : s.happen e = t)
    (hphase : t.controller.phase = s.controller.phase)
    (hnotices : t.controller.notices = s.controller.notices)
    (hreporting : t.controller.reporting = s.controller.reporting)
    (hcallers : t.controller.callers = s.controller.callers)
    (hpaused : ∀ n, t.machine.control = .boundary .paused n →
      s.machine.control = .boundary .paused n ∧
        (t.controller.wait ≠ .dismissed → s.controller.wait ≠ .dismissed)) :
    Faithful before (word ++ s.phaseTaken e) (s.happen e) := by
  subst ht
  refine ⟨?_, fun hpos => ?_, fun n hn hwait => ?_⟩
  · have hdue : (s.happen e).isDue = s.isDue := by rw [isDue, isDue, hreporting, hcallers]
    rw [phaseTaken_of_eq hphase, told_eq_of_notices hnotices, hdue, hphase, List.append_nil]
    exact h.told
  · rw [hcallers] at hpos
    obtain ⟨hone, hr, hactive⟩ := h.alone hpos
    exact ⟨hcallers.trans hone, hreporting.trans hr, by rw [hphase, hactive]⟩
  · obtain ⟨hc, hwait'⟩ := hpaused n hn
    exact hphase.trans (h.paused n hc (hwait' hwait))

/-- A request to stop that is accepted at such a time is reported next. -/
lemma Faithful.stop (h : Faithful before word s) (hactive : s.controller.phase.isActive = true)
    (hr : s.controller.reporting = false)
    (hparked : s.isPaused = true → s.controller.wait = .parked) :
    Faithful before (word ++ s.phaseTaken .stop) (s.happen .stop) := by
  have hcallers : s.controller.callers = 0 := by
    by_contra hpos
    have halone := (h.alone (Nat.pos_of_ne_zero hpos)).2.2
    simp [hactive] at halone
  have hsofar := h.told
  rw [if_neg (by simp [isDue, hr, hcallers]), List.append_nil] at hsofar
  have hne : Phase.stopping ≠ s.controller.phase := by
    intro heq
    simp [← heq, Phase.isActive] at hactive
  have heq : s.happen .stop = { s with controller :=
      { s.controller.requestStop with callers := s.controller.callers + 1 } } := by
    simp [Session.happen, askStop, hactive]
  have hphase : (s.happen .stop).controller.phase = .stopping := by
    rw [heq]
    simp [Controller.requestStop, hactive, Controller.cancel]
  refine ⟨?_, fun _ => ⟨?_, ?_, by rw [hphase]; rfl⟩, fun n hn hwait => ?_⟩
  · have htold : (s.happen .stop).told = s.told :=
      told_eq_of_notices (notices_of_command (by simp) (by simp))
    have hdue : (s.happen .stop).isDue = true := by
      rw [heq]
      simp [isDue]
    rw [phaseTaken_of_ne (by rwa [hphase]), if_pos hdue, htold, hsofar, List.append_assoc]
  · rw [heq, hcallers]
  · rw [reporting_of_command (by simp), hr]
  · -- a run that waited has got word to end
    rw [heq] at hn hwait
    have hwaits := hparked (isPaused_iff.mpr ⟨n, hn⟩)
    simp [Controller.requestStop, hactive, Controller.cancel, hwaits] at hwait

/-- As long as calls do not overlap with what the run does, at most the present phase is yet to be
reported. -/
theorem Faithful.happen (h : Faithful before word s) (hword : Chronicled word s)
    (hs : Sound s.machine) (he : s.Apart e) :
    Faithful before (word ++ s.phaseTaken e) (s.happen e) := by
  cases e with
  | step =>
      have hcallers : s.controller.callers = 0 := he
      refine step_cases (P := fun t => s.happen .step = t →
        Faithful before (word ++ s.phaseTaken .step) (s.happen .step)) ?_ ?_ ?_ rfl
      · exact fun hr _ heq => h.report_step hr hcallers heq rfl fun _ hn => hn
      · exact fun hr _ heq => h.report_step hr hcallers heq rfl (by rintro n ⟨⟩)
      · intro hr heq
        exact h.proceed hword hs hr hcallers heq
  | stop =>
      cases hactive : s.controller.phase.isActive with
      | true =>
          obtain ⟨hr, hparked⟩ := he hactive
          exact h.stop hactive hr hparked
      | false =>
          have heq : s.happen .stop = s := by simp [Session.happen, askStop, hactive]
          exact h.keep heq rfl rfl rfl rfl fun _ hn => ⟨hn, id⟩
  | report =>
      by_cases hpos : 0 < s.controller.callers
      · obtain ⟨hone, hr, -⟩ := h.alone hpos
        have heq : s.happen .report = { s with controller :=
            { s.controller.notify with callers := s.controller.callers - 1 } } := by
          simp [Session.happen, reportCall, hpos]
        refine h.report (by simp [isDue, hpos]) ?_ (by rw [heq]; rfl) ?_ ?_
        · rw [heq]
          simp [Session.told, Controller.notify]
        · rw [heq]
          simp [isDue, Controller.notify, hr, hone]
        · rw [heq]
          exact fun n hn => ⟨hn, rfl⟩
      · have heq : s.happen .report = s := by simp [Session.happen, reportCall, hpos]
        exact h.keep heq rfl rfl rfl rfl fun _ hn => ⟨hn, id⟩
  | resume stepping =>
      refine h.keep (happen_resume s stepping) ?_ ?_ ?_ ?_ fun n hn => ⟨hn, ?_⟩
      all_goals
        cases hresume : s.controller.resume? stepping with
        | none => simp
        | some c =>
            have heq := Controller.resume?_eq hresume
            have hwait := Controller.wait_of_resume? hresume
            grind
  | cancel =>
      refine h.keep (s.happen_controls (by simp) (by simp)) ?_ ?_ ?_ ?_ fun n hn => ⟨hn, ?_⟩
      all_goals
        simp only [Session.happen, Session.cancel]
        split
      all_goals grind [Controller.cancel]
  | setSpeed n => exact h.keep rfl rfl rfl rfl rfl fun _ hn => ⟨hn, id⟩
  | favour eager => exact h.keep rfl rfl rfl rfl rfl fun _ hn => ⟨hn, id⟩
  | release =>
      rcases happen_release s with heq | ⟨site, next, -, heq⟩
      · exact h.keep heq rfl rfl rfl rfl fun _ hn => ⟨hn, id⟩
      · exact h.keep heq rfl rfl rfl rfl (by rintro n ⟨⟩)

/-- What has been reported is the phases of the run but for the present one, if that is due. -/
lemma Faithful.after (h : Faithful before word s) (hword : Chronicled word s)
    (hs : Sound s.machine) {es : List Event} (hes : s.AllApart es) :
    Faithful before (word ++ s.phasesTaken es) (s.after es) := by
  induction es generalizing s word with
  | nil =>
      rw [phasesTaken, List.append_nil]
      exact h
  | cons e es ih =>
      rw [phasesTaken, ← List.append_assoc]
      exact ih (h.happen hword hs hes.1) (hword.happen hs e) (sound_happen hs e) hes.2

lemma program_proceed (s : Session) : s.proceed.program = s.program := by
  by_cases hhost : ∃ site a, s.machine.control = .host site a
  · obtain ⟨site, a, hc⟩ := hhost
    simp only [proceed, hc]
    cases a with
    | ask q next =>
        cases q with
        | resume stepping =>
            simp only [act, perform]
            split
            · rfl
            · rfl
        | _ => rfl
    | _ => rfl
  · obtain ⟨m, k, hproceed⟩ := sameSetting_proceed fun site a hc => hhost ⟨site, a, hc⟩
    rw [hproceed]

/-- No step and no command exchanges the program. -/
lemma program_after (s : Session) (es : List Event) : (s.after es).program = s.program := by
  refine after_induction (P := fun t => t.program = s.program) ?_ rfl es
  intro t e ht
  rw [← ht]
  by_cases he : e = .step
  · rw [he]
    exact step_cases (P := fun r => r.program = t.program) (fun _ _ => rfl) (fun _ _ => rfl)
      fun _ => program_proceed t
  · rcases happen_command t he with heq | ⟨site, next, -, heq⟩
    · rw [heq]
    · rw [heq]
      rfl

end Session

end Pseudocode
