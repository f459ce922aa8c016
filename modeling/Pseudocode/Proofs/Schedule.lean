/-
# Schedules

While a run is in progress its evaluator takes steps, and between any two of them the session can
be told to stop, to go on or to change its speed, the run can be told to end, and a host function
that waits can be let go on.  Whoever changes the phase reports that later, which is a step or an
event of its own, and where a run could go on as well as end, an event settles which of the two it
does.  A schedule lists what happens in the order in which it happens, so that a statement about
every schedule is one about every order of steps and commands.  Requests that host functions make
are part of the steps.

A piece of a schedule stays within some tasks if they lie untouched at the bottom of the pending
ones all the while.  The evaluation of an expression is such a piece, the tasks being those that
were pending when it began.
-/
import Mathlib.Tactic.Lemma
import Pseudocode.Run.Session

namespace Pseudocode

/-- What can happen to a session while a run is in progress. -/
inductive Event where
  /-- The evaluator takes a step. -/
  | step
  /-- The run is asked to stop. -/
  | stop
  /-- A caller that has changed the phase reports that. -/
  | report
  /-- The run is asked to go on, with or without single-stepping. -/
  | resume (stepping : Bool)
  /-- The run is told to end without asking the session. -/
  | cancel
  | setSpeed (n : Int)
  /-- A host function that waits is let go on. -/
  | release
  /-- It is settled whether a run that may go on and is told to end, both at once, goes on. -/
  | favour (eager : Bool)
deriving DecidableEq, Repr

namespace Session

@[simp] lemma controller_goto (s : Session) (c : Control) :
    (s.goto c).controller = s.controller := rfl

@[simp] lemma control_goto (s : Session) (c : Control) :
    (s.goto c).machine.control = c := rfl

lemma perform_draw (s : Session) (site : Span) (n : Nat)
    (next : (Request.draw n).Answer → Action Value) :
    s.perform site (.draw n) next =
      { s with machine := { s.machine with random := (s.machine.random.below n).2 } }.answer site
        (next (s.machine.random.below n).1) := by
  simp only [perform]

/-- The session after an event.  A command that is refused leaves it as it is. -/
def happen (s : Session) : Event → Session
  | .step => s.step
  | .stop => s.askStop
  | .report => s.reportCall
  | .resume stepping => (s.resume? stepping).getD s
  | .cancel => s.cancel
  | .setSpeed n => s.setSpeed n
  | .release => s.release?.getD s
  | .favour eager => { s with controller := { s.controller with eager } }

lemma happen_resume (s : Session) (stepping : Bool) :
    s.happen (.resume stepping) =
      { s with controller := (s.controller.resume? stepping).getD s.controller } := by
  simp only [happen, resume?]
  cases s.controller.resume? stepping with
  | none => rfl
  | some c => rfl

/-- Most commands change nothing but the controls. -/
lemma happen_controls (s : Session) {e : Event} (hstep : e ≠ .step) (hrelease : e ≠ .release) :
    s.happen e = { s with controller := (s.happen e).controller } := by
  cases e with
  | step => exact absurd rfl hstep
  | release => exact absurd rfl hrelease
  | stop =>
      simp only [happen, askStop]
      split <;> rfl
  | report =>
      simp only [happen, reportCall]
      split <;> rfl
  | resume stepping => rw [happen_resume]
  | cancel =>
      simp only [happen, cancel]
      split <;> rfl
  | setSpeed _ | favour _ => rfl

/-- Nothing but a host function that waits can be released. -/
lemma happen_release (s : Session) :
    s.happen .release = s ∨
      ∃ site next, s.machine.control = .held site next ∧
        s.happen .release = s.goto (.host site next) := by
  simp only [happen, release?]
  split
  · rename_i site next hc
    exact .inr ⟨site, next, hc, rfl⟩
  · exact .inl rfl

lemma happen_release_of_not_held {s : Session}
    (hheld : ∀ site next, s.machine.control ≠ .held site next) : s.happen .release = s := by
  rcases happen_release s with heq | ⟨site, next, hc, -⟩
  · exact heq
  · exact absurd hc (hheld site next)

/-- Commands change nothing but the controls, save that a host function that waits is let go
on. -/
lemma happen_command (s : Session) {e : Event} (he : e ≠ .step) :
    s.happen e = { s with controller := (s.happen e).controller } ∨
      ∃ site next, s.machine.control = .held site next ∧
        s.happen e = s.goto (.host site next) := by
  by_cases hrelease : e = .release
  · rw [hrelease]
    exact (happen_release s).imp_left fun h => by rw [h]
  · exact .inl (s.happen_controls he hrelease)

/-- Commands leave the machine as it is if no host function waits to be released. -/
lemma machine_of_command {s : Session} {c : Control} (hheld : ∀ site next, c ≠ .held site next)
    (h : s.machine.control = c) {e : Event} (he : e ≠ .step) :
    (s.happen e).machine = s.machine := by
  rcases happen_command s he with heq | ⟨site, next, hc, -⟩
  · rw [heq]
  · exact absurd (h.symm.trans hc) (hheld site next)

/-- What a command does to the controls. -/
inductive Command (c : Controller) : Event → Controller → Prop where
  /-- It is refused, or is no concern of theirs. -/
  | aside {e : Event} : Command c e c
  | stop (active : c.phase.isActive = true) :
      Command c .stop { c.requestStop with callers := c.callers + 1 }
  | report (due : 0 < c.callers) : Command c .report { c.notify with callers := c.callers - 1 }
  | resume {stepping : Bool} {c' : Controller} (accepted : c.resume? stepping = some c') :
      Command c (.resume stepping) c'
  | cancel : Command c .cancel c.cancel
  | setSpeed (n : Int) : Command c (.setSpeed n) (c.setSpeed n)
  | favour (eager : Bool) : Command c (.favour eager) { c with eager }

theorem command (s : Session) {e : Event} (he : e ≠ .step) :
    Command s.controller e (s.happen e).controller := by
  cases e with
  | step => exact absurd rfl he
  | stop =>
      simp only [happen, askStop]
      split
      · rename_i hactive
        exact .stop hactive
      · exact .aside
  | report =>
      simp only [happen, reportCall]
      split
      · rename_i hdue
        exact .report hdue
      · exact .aside
  | resume stepping =>
      rw [happen_resume]
      cases hresume : s.controller.resume? stepping with
      | none => exact .aside
      | some c => exact .resume hresume
  | cancel =>
      simp only [happen, cancel]
      split
      · exact .aside
      · exact .cancel
  | setSpeed n => exact .setSpeed n
  | release =>
      rcases happen_release s with heq | ⟨site, next, -, heq⟩
      · rw [heq]
        exact .aside
      · rw [heq]
        exact .aside
  | favour eager => exact .favour eager

/-- The session after a schedule. -/
def after (s : Session) (es : List Event) : Session := es.foldl happen s

@[simp] lemma after_nil (s : Session) : s.after [] = s := rfl

@[simp] lemma after_cons (s : Session) (e : Event) (es : List Event) :
    s.after (e :: es) = (s.happen e).after es := rfl

lemma after_append (s : Session) (es es' : List Event) :
    s.after (es ++ es') = (s.after es).after es' := List.foldl_append

/-- What every event keeps holds after every schedule. -/
lemma after_induction {P : Session → Prop} (hkeep : ∀ s e, P s → P (s.happen e)) {s : Session}
    (h : P s) (es : List Event) : P (s.after es) := by
  induction es generalizing s with
  | nil => exact h
  | cons e es ih => exact ih (hkeep s e h)

/-! ### Steps -/

lemma isPaused_iff {s : Session} :
    s.isPaused = true ↔ ∃ n, s.machine.control = .boundary .paused n := by
  unfold isPaused
  constructor
  · intro h
    split at h
    · rename_i n hc
      exact ⟨n, hc⟩
    · simp at h
  · rintro ⟨n, hc⟩
    rw [hc]

lemma step_of_reporting {s : Session} (h : s.controller.reporting = true) : s.step = s.report :=
  if_pos h

lemma step_of_not_reporting {s : Session} (h : s.controller.reporting = false) :
    s.step = s.proceed := if_neg (by simp [h])

/-- The observer breaks down at a pause only. -/
lemma exists_paused_of_falters {s : Session} (h : s.falters = true) :
    ∃ n, s.machine.control = .boundary .paused n := by
  simp only [falters, Bool.and_eq_true] at h
  exact isPaused_iff.mp h.1.1

/-- The session after the report of the run. -/
def reported (s : Session) : Session := { s with controller := s.controller.report }

/-- A report changes nothing but the controls, unless the observer breaks down. -/
lemma report_eq (s : Session) :
    s.report = if s.falters then s.reported.goto (.crash "hook failed") else s.reported := rfl

/-- What holds of a session whichever way a report goes, and however the run goes on, holds after
a step. -/
lemma step_cases {P : Session → Prop} {s : Session}
    (hreport : s.controller.reporting = true → s.falters = false → P s.reported)
    (hfalter : s.controller.reporting = true → s.falters = true →
      P (s.reported.goto (.crash "hook failed")))
    (hproceed : s.controller.reporting = false → P s.proceed) : P s.step := by
  cases hr : s.controller.reporting with
  | false =>
      rw [step_of_not_reporting hr]
      exact hproceed hr
  | true =>
      rw [step_of_reporting hr, report_eq]
      cases hf : s.falters with
      | false => exact hreport hr hf
      | true => exact hfalter hr hf

/-- What holds of the machine whether it goes on or not, and if the observer breaks down at a pause,
holds after a step. -/
lemma machine_step {P : Machine → Prop} {s : Session} (hstay : P s.machine)
    (hproceed : P s.proceed.machine)
    (hcrash : ∀ n, s.machine.control = .boundary .paused n →
      P (s.machine.goto (.crash "hook failed"))) : P s.step.machine := by
  refine step_cases (P := fun t => P t.machine) (fun _ _ => hstay) (fun _ hfalters => ?_)
    fun _ => hproceed
  obtain ⟨n, hc⟩ := exists_paused_of_falters hfalters
  exact hcrash n hc

/-- Unless the run is held up, the observer does not break down. -/
lemma step_eq_reported {s : Session} (h : s.controller.reporting = true)
    (hpaused : ∀ n, s.machine.control ≠ .boundary .paused n) : s.step = s.reported :=
  step_cases (P := fun t => t = s.reported) (fun _ _ => rfl)
    (fun _ hfalters => absurd (exists_paused_of_falters hfalters).choose_spec (hpaused _))
    (by simp [h])

/-- The session when the run has gone on: after the next step, or after the one that follows if the
next one is a report. -/
def onward (s : Session) : Session :=
  s.after (List.replicate (s.controller.reporting.toNat + 1) .step)

/-- Unless the run is held up, a report does not change where it is. -/
lemma exists_onward {s : Session} (hpaused : ∀ n, s.machine.control ≠ .boundary .paused n) :
    ∃ c : Controller, c.reporting = false ∧
      s.onward = Session.proceed { s with controller := c } := by
  cases hr : s.controller.reporting with
  | false =>
      refine ⟨s.controller, hr, ?_⟩
      rw [onward, hr]
      exact step_of_not_reporting hr
  | true =>
      refine ⟨s.controller.report, rfl, ?_⟩
      rw [onward, hr]
      show s.step.step = _
      rw [step_eq_reported hr hpaused]
      exact step_of_not_reporting rfl

/-- A run that is over reports that, if it has not done so, and does nothing else. -/
lemma step_of_ended {s : Session} {o : Outcome} (h : s.machine.control = .ended o) :
    s.step = s ∨ s.step = s.reported := by
  refine step_cases (P := fun t => t = s ∨ t = s.reported) (fun _ _ => .inr rfl) ?_ fun _ => ?_
  · intro _ hfalters
    obtain ⟨n, hc⟩ := exists_paused_of_falters hfalters
    simp [h] at hc
  · left
    simp only [proceed, h]

/-- Whether the run goes on with what is being done at an event.  It does so at every step that is
not the report of a change of phase. -/
def goesOn (s : Session) (e : Event) : Bool := e = .step && !s.controller.reporting

/-- What can happen to a session while the run does not go on. -/
inductive Aside (s : Session) : Session → Prop where
  /-- Nothing but the controls is concerned. -/
  | controls (c : Controller) : Aside s { s with controller := c }
  /-- A host function that waits is let go on. -/
  | release {site : Span} {next : Action Value} (control : s.machine.control = .held site next) :
      Aside s (s.goto (.host site next))
  /-- The observer breaks down. -/
  | falter (c : Controller) (falters : s.falters = true) :
      Aside s (Session.goto { s with controller := c } (.crash "hook failed"))

/-- What happens aside leaves a machine alone that neither waits nor is held up. -/
lemma Aside.machine_eq {s t : Session} (h : Aside s t)
    (hheld : ∀ site next, s.machine.control ≠ .held site next)
    (hpaused : ∀ n, s.machine.control ≠ .boundary .paused n) : t.machine = s.machine := by
  cases h with
  | controls c => rfl
  | release control => exact absurd control (hheld _ _)
  | falter c falters =>
      obtain ⟨n, hc⟩ := exists_paused_of_falters falters
      exact absurd hc (hpaused n)

/-- At every event the run goes on, or something happens aside. -/
theorem happen_cases (s : Session) (e : Event) :
    s.goesOn e = true ∧ s.happen e = s.proceed ∨ s.goesOn e = false ∧ Aside s (s.happen e) := by
  by_cases he : e = .step
  · subst he
    cases hr : s.controller.reporting with
    | false => exact .inl ⟨by simp [goesOn, hr], step_of_not_reporting hr⟩
    | true =>
        refine .inr ⟨by simp [goesOn, hr], ?_⟩
        exact step_cases (fun _ _ => .controls _) (fun _ hfalters => .falter _ hfalters)
          (by simp [hr])
  · refine .inr ⟨by simp [goesOn, he], ?_⟩
    rcases happen_command s he with h | ⟨site, next, hc, h⟩
    · rw [h]
      exact .controls _
    · rw [h]
      exact .release hc

/-- A quiet run does nothing by itself. -/
lemma step_of_isQuiet {s : Session} (h : s.isQuiet = true) : s.step = s := by
  simp only [isQuiet, Bool.and_eq_true, Bool.not_eq_true'] at h
  obtain ⟨hr, hquiet⟩ := h
  rw [step_of_not_reporting hr]
  split at hquiet
  · rename_i hc
    simp [proceed, hc]
  · rename_i hc
    simp [proceed, hc]
  · rename_i hc
    simp [proceed, hc]
  · rename_i n hc
    simp [proceed, hc, pass, wake, eq_of_beq hquiet]
  · simp at hquiet

/-- A run that goes on until it is quiet follows a schedule of steps. -/
lemma advance_eq_after (fuel : Nat) (s : Session) :
    s.advance fuel = s.after (List.replicate fuel .step) := by
  induction fuel generalizing s with
  | zero => rfl
  | succ fuel ih =>
      have hstep : s.advance (fuel + 1) = s.step.advance fuel := by
        by_cases hq : s.isQuiet = true
        · have hstay : s.step = s := step_of_isQuiet hq
          cases fuel with
          | zero => simp [advance, hq, hstay]
          | succ fuel => simp [advance, hq, hstay]
        · simp [advance, hq]
      rw [hstep, ih]
      rfl

/-! ### The beginning of a run -/

lemma freshMachine_eq_ok {s : Session} {program : Program} {l : Launch} {m : Machine}
    (h : s.freshMachine program l = .ok m) :
    ∃ functions,
      Registry.declareAll (Plugin.addFunctions l.plugins {}) program.procedures = .ok functions ∧
      m = { control := .complete .next
            pending := [.sequence program.statements]
            store := (Plugin.addVars l.plugins (.empty, s.machine.heap)).1
            heap := (Plugin.addVars l.plugins (.empty, s.machine.heap)).2
            functions
            random := l.random
            tidings := l.tidings
            maxSteps := s.maxSteps
            maxDepth := s.maxDepth } := by
  unfold freshMachine at h
  cases hf : Registry.declareAll (Plugin.addFunctions l.plugins {}) program.procedures with
  | error f => simp [hf, bind, Except.bind] at h
  | ok functions =>
      simp only [hf, bind, Except.bind, pure, Except.pure, Except.ok.injEq] at h
      exact ⟨functions, rfl, h.symm⟩

/-- The session at the start of a run with the given machine. -/
def launched (s : Session) (program : Program) (l : Launch) (machine : Machine) : Session :=
  { s with
    controller := { s.controller with
      phase := .running
      stepping := l.stepping
      span := .none
      error := none
      token := false
      wait := .polling
      cancelled := l.cancelled
      eager := false
      reporting := true
      callers := s.controller.callers + s.controller.reporting.toNat }
    machine
    console := { s.console with transcript := "" }
    program := some program }

lemma launch_eq_ok {s t : Session} {program : Program} {l : Launch} :
    s.launch program l = .ok t ↔
      ∃ machine, s.freshMachine program l = .ok machine ∧ t = s.launched program l machine := by
  unfold launch
  cases hm : s.freshMachine program l with
  | error f => simp [bind, Except.bind]
  | ok machine =>
      simp only [bind, Except.bind, pure, Except.pure, Except.ok.injEq, exists_eq_left']
      exact eq_comm

/-- The sessions in which a run can be: a program has been started, with any host functions and
whatever the session did before, and then some schedule has been followed. -/
def Reachable (s : Session) : Prop :=
  ∃ (s₀ : Session) (program : Program) (l : Launch) (t : Session) (es : List Event),
    s₀.launch program l = .ok t ∧ s = t.after es

lemma Reachable.after {s : Session} (h : s.Reachable) (es : List Event) :
    (s.after es).Reachable := by
  obtain ⟨s₀, program, l, t, es', ht, rfl⟩ := h
  exact ⟨s₀, program, l, t, es' ++ es, ht, (after_append t es' es).symm⟩

/-- A new session in which a program has just been started, if it can be. -/
def begun (program : Program) (l : Launch) : Session :=
  match launch {} program l with
  | .ok s => s
  | .error _ => {}

lemma begun_eq {program : Program} {l : Launch} {t : Session}
    (h : launch {} program l = .ok t) : begun program l = t := by
  simp [begun, h]

lemma reachable_begun {program : Program} {l : Launch} {t : Session}
    (h : launch {} program l = .ok t) : (begun program l).Reachable :=
  ⟨{}, program, l, t, [], h, begun_eq h⟩

/-! ### Pieces of a schedule -/

/-- The tasks `K` lie untouched at the bottom all through the schedule. -/
def Within (K : List Pending) (s : Session) (es : List Event) : Prop :=
  ∀ es', es' <+: es → K <:+ (s.after es').machine.pending

lemma Within.start {K : List Pending} {s : Session} {es : List Event} (h : Within K s es) :
    K <:+ s.machine.pending := h [] (List.nil_prefix)

lemma within_nil {K : List Pending} {s : Session} :
    Within K s [] ↔ K <:+ s.machine.pending := by
  refine ⟨Within.start, fun h es' hes' => ?_⟩
  rw [List.prefix_nil.mp hes']
  exact h

lemma within_cons {K : List Pending} {s : Session} {e : Event} {es : List Event} :
    Within K s (e :: es) ↔ K <:+ s.machine.pending ∧ Within K (s.happen e) es := by
  constructor
  · intro h
    refine ⟨h.start, fun es' hes' => ?_⟩
    exact h (e :: es') (List.cons_prefix_cons.mpr ⟨rfl, hes'⟩)
  · rintro ⟨hs, h⟩ es' hes'
    cases es' with
    | nil => exact hs
    | cons e' es' =>
        obtain ⟨rfl, htail⟩ := List.cons_prefix_cons.mp hes'
        exact h es' htail

/-- The session comes from `a` to `b` by a schedule that stays within the tasks `K`, and these
are all that is pending at the end. -/
def Settles (K : List Pending) (a b : Session) : Prop :=
  ∃ es, Within K a es ∧ b = a.after es ∧ b.machine.pending = K

end Session

end Pseudocode
