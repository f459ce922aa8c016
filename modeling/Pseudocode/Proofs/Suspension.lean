/-
# Paused runs

While a session is in the paused phase its run is meant to be held up at the boundary of a
statement, so that its frames can be looked at.  A pause comes to its end in three ways.  With a
token the run is shown as running again, and with a request to stop it is shown as stopping.  But
when the run is told to end without asking the session, the pause is broken off and the phase stays
as it was; if a host function then catches the failure, it goes on in a session that is shown as
paused.

The main results are

* `Session.paused_suspended_iff`: the paused phase is right at all moments of a run if and only if
  no pause has been broken off, and then no host function sees that phase or gets a snapshot;
* `Session.snapshot_while_running`: a host function that gets a snapshot of the run it belongs to.
-/
import Mathlib.Tactic.IntervalCases
import Pseudocode.Proofs.LifeCycle

namespace Pseudocode
namespace Session

open Machine

/-- A session in the paused phase has a run that is held up. -/
def Suspended (s : Session) : Prop := s.controller.phase = .paused → s.isPaused = true

/-- The run is held up and has got word to end, though nobody asked it to stop: its next step breaks
off the pause. -/
structure BreaksOff (s : Session) : Prop where
  paused : s.isPaused = true
  phase : s.controller.phase = .paused
  wait : s.controller.wait = .dismissed
  goes : s.controller.reporting = false

variable {s : Session}

/-- The step that breaks off a pause leaves the phase as it is. -/
lemma BreaksOff.step (h : BreaksOff s) : ¬ Suspended s.step := by
  obtain ⟨n, hn⟩ := isPaused_iff.mp h.paused
  have hstep : s.step = Session.goto { s with controller := { s.controller with wait := .polling } }
      (.fail .stopped) := by
    rw [step_of_not_reporting h.goes, proceed_boundary hn]
    simp [pass, wake, h.wait]
  intro hsuspended
  rw [hstep] at hsuspended
  have hfails := hsuspended h.phase
  cases hfails

/-- A pause that ends otherwise leaves the paused phase. -/
lemma suspended_proceed_of_isPaused (hpaused : s.isPaused = true)
    (hgoes : s.controller.reporting = false) (hb : ¬ BreaksOff s) : Suspended s.proceed := by
  obtain ⟨n, hn⟩ := isPaused_iff.mp hpaused
  have hwaking := waking_proceed hn
  generalize s.proceed = t at hwaking ⊢
  intro hphase
  cases hwaking with
  | polls wait => exact hpaused
  | waits wait => exact hpaused
  | begun wait =>
      simp only [controller_goto, Controller.proceed] at hphase
      split at hphase
      · cases hphase
      · rename_i hother
        exact absurd hphase hother
  | told wait => exact absurd ⟨hpaused, hphase, wait, hgoes⟩ hb

/-- A run that is not held up comes into the paused phase only by a pause. -/
lemma Suspended.proceed_of_not_isPaused (h : Suspended s) (hs : Sound s.machine)
    (hgoes : s.controller.reporting = false) (hpaused : s.isPaused = false) :
    Suspended s.proceed := by
  have hphase : s.controller.phase ≠ .paused := by
    intro hphase
    have := h hphase
    simp [hpaused] at this
  have hnot : ∀ n, s.machine.control ≠ .boundary .paused n := by
    intro n hn
    have := isPaused_iff.mpr ⟨n, hn⟩
    simp [hpaused] at this
  intro hphase'
  cases proceed_turn hs with
  | report reporting _ _ => simp [hgoes] at reporting
  | pause _ _ _ _ _ control' => exact isPaused_iff.mpr ⟨_, control'⟩
  | poll control _ _ _ | wake control _ _ _ | dismiss control _ _ _ => exact absurd control (hnot _)
  | aside controller _ _ | pass _ _ controller _ | slow _ _ controller _ | settle _ _ controller _
  | setSpeed _ controller _ =>
      rw [controller] at hphase'
      exact absurd hphase' hphase
  | stop _ controller _ =>
      rw [controller] at hphase'
      unfold Controller.requestStop at hphase'
      split at hphase'
      · cases hphase'
      · exact absurd hphase' hphase
  | resume _ controller _ =>
      rw [Controller.resume?_eq controller] at hphase'
      exact absurd hphase' hphase
  | @finish o _ controller _ =>
      rw [controller] at hphase'
      cases o with
      | completed v => cases hphase'
      | failed e span => cases hphase'
      | stopped => cases hphase'

lemma Suspended.step (h : Suspended s) (hs : Sound s.machine)
    (hook : s.controller.fragile = false) (hb : ¬ BreaksOff s) : Suspended s.step := by
  refine step_cases (fun _ _ => h) ?_ fun hgoes => ?_
  · intro _ hfalters
    simp [falters, hook] at hfalters
  · cases hpaused : s.isPaused with
    | true => exact suspended_proceed_of_isPaused hpaused hgoes hb
    | false => exact h.proceed_of_not_isPaused hs hgoes hpaused

/-- Commands do not bring a run into the paused phase, and do not end a pause themselves. -/
lemma Suspended.command (h : Suspended s) {e : Event} (he : e ≠ .step) :
    Suspended (s.happen e) := by
  intro hphase
  rcases (phase_of_command he).1 with hsame | ⟨-, -, hstopping⟩
  · exact isPaused_of_command he (h (hsame ▸ hphase))
  · simp [hstopping] at hphase

/-- The paused phase stays right as long as no pause is broken off. -/
lemma suspended_after {t : Session} (hs : Sound t.machine) (hook : t.controller.fragile = false)
    (ht : Suspended t) {es : List Event}
    (hes : ∀ es', es' ++ [Event.step] <+: es → ¬ BreaksOff (t.after es')) :
    Suspended (t.after es) := by
  induction es using List.reverseRecOn with
  | nil => exact ht
  | append_singleton es e ih =>
      have hbefore : Suspended (t.after es) :=
        ih fun es' hes' => hes es' (hes'.trans (List.prefix_append es [e]))
      rw [after_append]
      by_cases he : e = .step
      · subst he
        have hsturdy := (fragile_after hs es).trans hook
        exact hbefore.step (sound_after hs es) hsturdy (hes es List.prefix_rfl)
      · exact hbefore.command he

/-- While a host function acts, frames may be looked at only in the paused phase. -/
lemma Chronicled.snapshot?_of_host {word : List Phase} (h : Chronicled word s) {site : Span}
    {a : Action Value} (hc : s.machine.control = .host site a)
    (hphase : s.controller.phase ≠ .paused) : s.snapshot? = none := by
  have hopen : s.controller.phase.isFinal = false := by
    cases hfinal : s.controller.phase.isFinal with
    | false => rfl
    | true =>
        obtain ⟨o, ho⟩ := h.finished hfinal
        simp [hc] at ho
  have hhidden : s.controller.inspectable = false := by
    unfold Controller.inspectable
    cases hcase : s.controller.phase with
    | paused => exact absurd hcase hphase
    | stopped | completed | failed => simp [hcase, Phase.isFinal] at hopen
    | _ => rfl
  simp [snapshot?, hhidden]

/-- **Paused means suspended, unless a pause is broken off.**  Follow any schedule `es` of commands
and steps from the start of a run.  The observer does not break down.

* At each moment at which the session is in the paused phase the run is held up at the boundary of a
  statement, if and only if no step of the schedule breaks off a pause: one of a run that was told
  to end without being asked to stop.
* If none does, a host function never sees the paused phase, and never gets a snapshot. -/
theorem paused_suspended_iff {s₀ t : Session} {program : Program} {l : Launch}
    (ht : s₀.launch program l = .ok t) (hook : t.controller.fragile = false) (es : List Event) :
    ((∀ es', es' <+: es → (t.after es').controller.phase = .paused →
        (t.after es').isPaused = true) ↔
      ∀ es', es' ++ [Event.step] <+: es → ¬ BreaksOff (t.after es')) ∧
    ((∀ es', es' ++ [Event.step] <+: es → ¬ BreaksOff (t.after es')) →
      (∀ site next, (t.after es).machine.control = .host site (.ask .status next) →
        ∃ status, status.phase ≠ .paused ∧
          (t.after es).proceed.machine.control = .host site (next status)) ∧
      ∀ site next, (t.after es).machine.control = .host site (.ask .snapshot next) →
        (t.after es).proceed.machine.control = .host site (next none)) := by
  have hstart : Suspended t := by
    obtain ⟨machine, hm, rfl⟩ := launch_eq_ok.mp ht
    intro hphase
    cases hphase
  have hafter : ∀ es', (∀ es'', es'' ++ [Event.step] <+: es' → ¬ BreaksOff (t.after es'')) →
      Suspended (t.after es') := fun _ => suspended_after (sound_launch ht) hook hstart
  have hhost : (∀ es', es' ++ [Event.step] <+: es → ¬ BreaksOff (t.after es')) →
      ∀ site a, (t.after es).machine.control = .host site a →
        (t.after es).controller.phase ≠ .paused := by
    intro hes site a hc hphase
    obtain ⟨n, hn⟩ := isPaused_iff.mp (hafter es hes hphase)
    simp [hc] at hn
  refine ⟨⟨fun h es' hes' hb => ?_, fun h es' hes' => ?_⟩, fun h => ⟨?_, ?_⟩⟩
  · -- the moment after the step that breaks off the pause is one of the schedule
    have hsuspended : Suspended (t.after (es' ++ [Event.step])) := h _ hes'
    rw [after_append] at hsuspended
    exact hb.step hsuspended
  · exact hafter es' fun es'' hes'' => h es'' (hes''.trans hes')
  · intro site next hc
    refine ⟨(t.after es).controller.status, hhost h site _ hc, ?_⟩
    simp only [Session.proceed, hc]
    rfl
  · intro site next hc
    have hlog := (chronicled_launch ht).after (sound_launch ht) es
    have hnone := hlog.snapshot?_of_host hc (hhost h site _ hc)
    simp only [Session.proceed, hc, act, perform]
    rw [hnone]
    rfl

/-- A host function that calls the procedure `f`, whatever comes of the call, and then asks for a
snapshot. -/
def peek : Native := fun _ => .ask (.call "f" []) fun _ => .ask .snapshot fun _ => .pure .nothing

/-- A program that calls it. -/
def peeked : Program where
  statements := [.call (.point 1 1) (some ⟨.none, "PEEK"⟩) []]
  procedures := [some (.of .none (some ⟨.none, "f"⟩) [] (.of .none [.pass (.point 3 3)]))]

def peekedLaunch : Launch where
  stepping := true
  plugins := [{ functions := [("PEEK", peek)] }]

/-- A schedule that steps the run into the procedure and out of it. -/
def peekedSteps : List Event :=
  List.replicate 6 Event.step ++ Event.resume true :: List.replicate 13 Event.step ++
    Event.resume true :: List.replicate 7 Event.step

/-- The run is not told to end, and the host function is refused the snapshot. -/
theorem paused_suspended_iff_peeked :
    ∃ t, launch {} peeked peekedLaunch = .ok t ∧ t.controller.fragile = false ∧
      (∀ es', es' <+: peekedSteps → (t.after es').controller.phase = .paused →
        (t.after es').isPaused = true) ∧
      ∃ site next, (t.after peekedSteps).machine.control = .host site (.ask .snapshot next) ∧
        (t.after peekedSteps).step.machine.control = .host site (next none) := by
  have ht : launch {} peeked peekedLaunch = .ok (begun peeked peekedLaunch) := rfl
  have hwhole : ∀ es', es' ++ [Event.step] <+: peekedSteps →
      ¬ BreaksOff ((begun peeked peekedLaunch).after es') := by
    intro es' hes' hb
    have htold := hb.wait
    have hlt : es'.length < 28 := by
      have := hes'.length_le
      simp [peekedSteps] at this
      omega
    have htake : es' = peekedSteps.take es'.length :=
      List.prefix_iff_eq_take.mp ((List.prefix_append es' [.step]).trans hes')
    rw [htake] at htold
    interval_cases es'.length
    all_goals cases htold
  obtain ⟨hiff, hhost⟩ := paused_suspended_iff ht rfl peekedSteps
  exact ⟨_, ht, rfl, hiff.mpr hwhole, _, _, rfl, (hhost hwhole).2 _ _ rfl⟩

/-- The run waits in the procedure when it is told to end without being asked to stop.  The host
function gets to see the failure of its call, and then a snapshot of the run it belongs to. -/
theorem snapshot_while_running :
    ∃ t s, launch {} peeked peekedLaunch = .ok t ∧ t.controller.fragile = false ∧
      s = t.after (List.replicate 6 Event.step ++ Event.resume true ::
        List.replicate 13 Event.step ++ Event.cancel :: List.replicate 5 Event.step) ∧
      s.controller.phase = .paused ∧ s.isPaused = false ∧
      ∃ site next, s.machine.control = .host site (.ask .snapshot next) ∧
        s.step.machine.control = .host site (next (some s.machine.snapshot)) :=
  ⟨_, _, rfl, rfl, rfl, rfl, rfl, _, _, rfl, rfl⟩

end Session

end Pseudocode
