/-
# What one step does to the controls

Most steps of a run do not concern the controls of its session.  This file lists those that do: a
change of phase is reported, a statement passes its boundary or waits there, a wait goes on, a host
function asks for something that changes the controls, and the run ends.

The main results are

* `Session.step_turn`: a step is one of these turns, or leaves the controls alone;
* `Session.Reachable.settled`: once a run has ended, its session shows how it ended.
-/
import Pseudocode.Proofs.Moves

namespace Pseudocode

/-- The phase in which a session is after a run that ended so. -/
def Outcome.phase : Outcome → Phase
  | .completed _ => .completed
  | .failed _ _ => .failed
  | .stopped => .stopped

lemma Outcome.phase_not_active (o : Outcome) : o.phase.isActive = false := by
  cases o <;> rfl

/-- The error that a session shows after a run that ended so. -/
def Outcome.error : Outcome → Option Failure
  | .failed e _ => some e
  | _ => none

/-- The statement that a session shows after a run that ended so: the one that failed, else the
one it showed before. -/
def Outcome.span (before : Span) : Outcome → Span
  | .failed _ span => span
  | _ => before

/-- What a run may be about that has a change of phase to report: it begins, has asked to be
stopped, is held up, or goes on or has ended after that. -/
def Control.reports : Control → Bool
  | .complete .next | .host _ _ | .boundary .paused _ | .exec _ | .ended _ => true
  | _ => false

namespace Controller

/-- The controls when it is shown how a run ended. -/
def ended (c : Controller) (o : Outcome) : Controller :=
  { c with
    cancelled := true
    reporting := true
    phase := o.phase
    error := o.error
    span := o.span c.span }

lemma requestStop_of_not_active {c : Controller} (h : c.phase.isActive = false) :
    c.requestStop = c := by
  simp [requestStop, h]

lemma resume?_of_not_active {c : Controller} (h : c.phase.isActive = false)
    (stepping : Bool) : c.resume? stepping = none := by
  simp [resume?, h]

/-! ### What the operations keep -/

variable (c : Controller)

@[simp] lemma fragile_requestStop : c.requestStop.fragile = c.fragile := by
  unfold requestStop
  split
  · rfl
  · rfl

lemma resume?_eq_some {c c' : Controller} {stepping : Bool} (h : c.resume? stepping = some c') :
    c.phase.isActive = true ∧
      c' = if stepping || c.phase == .paused then { c with stepping }.grant
        else { c with stepping } := by
  unfold resume? at h
  split at h
  · rename_i hactive
    exact ⟨hactive, (Option.some.inj h).symm⟩
  · simp at h

/-- To grant a token concerns nothing but the token and the wait. -/
lemma grant_eq : c.grant = { c with token := c.grant.token, wait := c.grant.wait } := by
  unfold grant
  split
  · rfl
  · rfl

/-- A request to go on concerns nothing but the mode, the token and the wait. -/
lemma resume?_eq {c c' : Controller} {stepping : Bool} (h : c.resume? stepping = some c') :
    c' = { c with stepping, token := c'.token, wait := c'.wait } := by
  obtain ⟨-, rfl⟩ := resume?_eq_some h
  split
  · rw [grant_eq]
  · rfl

/-- It leaves a wait as it is, unless it ends one with a token. -/
lemma wait_of_resume? {c c' : Controller} {stepping : Bool} (h : c.resume? stepping = some c') :
    c'.wait = c.wait ∨ c.wait = .parked ∧ c'.wait = .granted := by
  obtain ⟨-, rfl⟩ := resume?_eq_some h
  unfold grant
  split
  · split
    · rename_i hparked
      exact .inr ⟨hparked, rfl⟩
    · exact .inl rfl
  · exact .inl rfl

/-- A look for a token and for word to end concerns nothing but these. -/
lemma poll_eq : c.poll = { c with token := c.poll.token, wait := c.poll.wait } := by
  unfold poll
  split
  · rfl
  · rfl

end Controller

namespace Machine

variable {fragile : Bool} {m m' : Machine} {o : Outcome}

/-- What has an outcome to show comes of a run without tasks that hands on a result. -/
lemma Move.of_ending (h : Move fragile m m') (ho : m'.control = .ending o) :
    m.pending = [] ∧ m.control.isResult = true := by
  have hplain : ∀ {d : Due} {m₀ : Machine}, ¬ Plain d m₀ m' := by
    intro d m₀ h
    rcases h.fails_or_due with ⟨e, he⟩ | ⟨d', hd'⟩
    · simp [he] at ho
    · simp [ho, Control.due?] at hd'
  cases h with
  | stay control => simp [ho, Control.rests] at control
  | plain _ h => exact absurd h hplain
  | task _ _ _ _ h => exact absurd h hplain
  | reach _ hc => simp only at ho; simp [ho, passes] at hc
  | pass _ hc => simp only [goto] at ho; simp [ho, passes] at hc
  | outcome _ hc =>
      rcases hc with ⟨v, rfl⟩ | ⟨e, rfl⟩ | ⟨text, rfl⟩
      · cases ho
      · cases ho
      · cases ho
  | request _ control' _ => simp [ho, Control.due?] at control'
  | finish control pending _ _ => exact ⟨pending, control⟩
  | _ => cases ho

/-- A run ends by showing its outcome. -/
lemma Move.of_ended (h : Move fragile m m') (ho : m'.control = .ended o) :
    m.control = .ended o ∨ m.control = .ending o := by
  have hplain : ∀ {d : Due} {m₀ : Machine}, ¬ Plain d m₀ m' := by
    intro d m₀ h
    rcases h.fails_or_due with ⟨e, he⟩ | ⟨d', hd'⟩
    · simp [he] at ho
    · simp [ho, Control.due?] at hd'
  cases h with
  | stay _ => exact .inl ho
  | plain _ h => exact absurd h hplain
  | task _ _ _ _ h => exact absurd h hplain
  | reach _ hc => simp only at ho; simp [ho, passes] at hc
  | pass _ hc => simp only [goto] at ho; simp [ho, passes] at hc
  | outcome _ hc =>
      rcases hc with ⟨v, rfl⟩ | ⟨e, rfl⟩ | ⟨text, rfl⟩
      · cases ho
      · cases ho
      · cases ho
  | request _ control' _ => simp [ho, Control.due?] at control'
  | finish _ _ control' _ => simp [ho] at control'
  | close control =>
      cases ho
      exact .inr control
  | _ => cases ho

/-- An outcome that is settled stays. -/
lemma Move.settled (h : Move fragile m m') (ho : m.control.settled? = some o) :
    m'.control.settled? = some o := by
  have hdue : ∀ {d : Due}, m.control.due? ≠ some d := by
    intro d hd
    simp [Control.settled?_of_due hd] at ho
  cases h with
  | stay _ => exact ho
  | plain control _ => exact absurd (Control.due?_of_work? control).1 hdue
  | task _ _ control _ _ => exact absurd control hdue
  | request control _ _ => exact absurd control hdue
  | finish control _ _ _ =>
      cases hc : m.control with
      | value _ | complete _ | fail _ | crash _ => simp [hc, Control.settled?] at ho
      | _ => simp [hc, Control.isResult] at control
  | close control =>
      rw [control] at ho
      exact ho
  | reach control _ | breakdown control _ | pass control _ | leave control _ | enter control
  | exit control _ | enterHost control _ | outcome control _ | reenter control
  | answer control _ | exitHost control _ | unwind control _ _ _ | unwindHost control _
  | hand control _ | collapse control _ _ | collapseHost control _ =>
      simp [control, Control.settled?] at ho

/-- An outcome that gets settled is shown next. -/
lemma Move.of_settled (h : Move fragile m m') (ho : m'.control.settled? = some o)
    (hrun : m.control.settled? = none) : m'.control = .ending o := by
  rcases Control.settled?_eq_some.mp ho with hc | hc
  · exact hc
  · rcases h.of_ended hc with hc' | hc'
    · simp [hc', Control.settled?] at hrun
    · simp [hc', Control.settled?] at hrun

end Machine

namespace Session

open Machine

/-- Why a run ends, and with what outcome. -/
inductive Ending (s : Session) : Outcome → Prop where
  /-- At a return outside every procedure. -/
  | returned {v : Value} (control : s.machine.control = .complete (.returned v)) :
      Ending s (.completed v)
  /-- After the last statement. -/
  | fell (control : s.machine.control = .complete .next ∨ ∃ v, s.machine.control = .value v)
      (cancelled : s.controller.cancelled = false) : Ending s (.completed .nothing)
  /-- After the last statement or with a failure, when it has been told to end. -/
  | stopped (control : ∀ v, s.machine.control ≠ .complete (.returned v))
      (cancelled : s.controller.cancelled = true) : Ending s .stopped
  /-- With the failure of a stopped run. -/
  | unwound {e : Failure} (control : s.machine.control = .fail e) (he : e.isStopped = true) :
      Ending s .stopped
  /-- With a failure. -/
  | failed {e : Failure} (control : s.machine.control = .fail e)
      (cancelled : s.controller.cancelled = false) (he : e.isStopped = false) :
      Ending s (.failed e s.machine.current)
  /-- With a breakdown outside every host function. -/
  | crashed {text : String} (control : s.machine.control = .crash text) :
      Ending s (.failed (.fault
        { kind := .invalidOperation, detail := "internal error: " ++ text,
          span := s.machine.current }) s.machine.current)

/-- What a step does to the controls. -/
inductive Turn (s : Session) : Session → Prop where
  /-- A change of phase is reported, and the observer may break down. -/
  | report {t : Session} (reporting : s.controller.reporting = true)
      (controller : t.controller = s.controller.report)
      (machine : t.machine = s.machine ∨
        s.falters = true ∧ ∃ text, t.machine = s.machine.goto (.crash text)) : Turn s t
  /-- The controls are not concerned. -/
  | aside {t : Session} (controller : t.controller = s.controller)
      (shows : ∀ o, t.machine.control ≠ .ending o)
      (earlier : ∀ o, t.machine.control = .ended o → s.machine.control = .ended o) : Turn s t
  /-- A statement passes its boundary; if the run is single-stepping, a stored token is taken. -/
  | pass {t : Session} {n : Node} (control : s.machine.control = .boundary .admitted n)
      (token : s.controller.stepping = true →
        s.controller.token = true ∨ s.controller.phase ≠ .running)
      (controller : t.controller = { s.controller with
        span := n.span
        token := s.controller.token && !s.controller.stepping })
      (control' : t.machine.control = .exec n) : Turn s t
  /-- A statement is slowed down. -/
  | slow {t : Session} {n : Node} (control : s.machine.control = .boundary .admitted n)
      (stepping : s.controller.stepping = false)
      (controller : t.controller = { s.controller with span := n.span })
      (control' : t.machine.control = .boundary .throttled n) : Turn s t
  /-- A statement is held up at its boundary. -/
  | pause {t : Session} {n : Node} (control : s.machine.control = .boundary .admitted n)
      (stepping : s.controller.stepping = true) (token : s.controller.token = false)
      (phase : s.controller.phase = .running)
      (controller : t.controller =
        { s.controller with span := n.span, phase := .paused, reporting := true })
      (control' : t.machine.control = .boundary .paused n) : Turn s t
  /-- A run that is held up looks for a token and for word to end. -/
  | poll {t : Session} {n : Node} (control : s.machine.control = .boundary .paused n)
      (wait : s.controller.wait = .polling) (controller : t.controller = s.controller.poll)
      (control' : t.machine.control = .boundary .paused n) : Turn s t
  /-- A wait ends with a token. -/
  | wake {t : Session} {n : Node} (control : s.machine.control = .boundary .paused n)
      (wait : s.controller.wait = .granted) (controller : t.controller = s.controller.proceed)
      (control' : t.machine.control = .exec n) : Turn s t
  /-- A wait ends with word to end. -/
  | dismiss {t : Session} {n : Node} (control : s.machine.control = .boundary .paused n)
      (wait : s.controller.wait = .dismissed)
      (controller : t.controller = { s.controller with wait := .polling })
      (control' : t.machine.control = .fail .stopped) : Turn s t
  /-- A host function asks the run to stop. -/
  | stop {t : Session} {site : Span} {next : Unit → Action Value}
      (control : s.machine.control = .host site (.ask .stop next))
      (controller : t.controller =
        { s.controller.requestStop with reporting := s.controller.phase.isActive })
      (control' : t.machine.control = .host site (next ())) : Turn s t
  /-- A host function asks the run to go on. -/
  | resume {t : Session} {site : Span} {stepping : Bool} {next : Bool → Action Value}
      (control : s.machine.control = .host site (.ask (.resume stepping) next))
      (controller : s.controller.resume? stepping = some t.controller)
      (control' : t.machine.control = .host site (next true)) : Turn s t
  /-- A host function sets the speed. -/
  | setSpeed {t : Session} {site : Span} {n : Int} {next : Unit → Action Value}
      (control : s.machine.control = .host site (.ask (.setSpeed n) next))
      (controller : t.controller = s.controller.setSpeed n)
      (control' : t.machine.control = .host site (next ())) : Turn s t
  /-- The outcome of the run is settled. -/
  | settle {t : Session} {o : Outcome} (pending : s.machine.pending = []) (ending : Ending s o)
      (controller : t.controller = s.controller)
      (control' : t.machine.control = .ending o) : Turn s t
  /-- It is shown how the run ended. -/
  | finish {t : Session} {o : Outcome} (control : s.machine.control = .ending o)
      (controller : t.controller = s.controller.ended o)
      (control' : t.machine.control = .ended o) : Turn s t

variable {s : Session}

lemma controller_finish (s : Session) (o : Outcome) :
    (s.finish o).controller = s.controller.ended o := by
  cases o <;> rfl

/-- What leaves the controls alone, and does not settle or show an outcome, is no concern of
theirs. -/
lemma turn_aside {fragile : Bool} {t : Session} (hmove : Move fragile s.machine t.machine)
    (hp : s.machine.control.isResult = true → s.machine.pending ≠ [])
    (hopen : ∀ o, s.machine.control ≠ .ending o)
    (hcontroller : t.controller = s.controller) : Turn s t := by
  refine .aside hcontroller (fun o ho => ?_) (fun o ho => ?_)
  · obtain ⟨hnil, hresult⟩ := hmove.of_ending ho
    exact hp hresult hnil
  · exact (hmove.of_ended ho).resolve_right (hopen o)

/-- Handing a result to a task does not concern the controls. -/
lemma controller_proceed_of_task {p : Pending} {rest : List Pending}
    (hc : s.machine.control.isResult = true) (hp : s.machine.pending = p :: rest) :
    s.proceed.controller = s.controller := by
  cases hcontrol : s.machine.control with
  | value v | complete c | fail e | crash text =>
      simp only [Session.proceed, hcontrol]
      rw [withTask_cons hp]
  | _ => simp [hcontrol, Control.isResult] at hc

/-- Without a task to hand a result to, the outcome of the run is settled. -/
lemma settles_of_nil (hc : s.machine.control.isResult = true) (hp : s.machine.pending = []) :
    ∃ o, Ending s o ∧ s.proceed.controller = s.controller ∧
      s.proceed.machine.control = .ending o := by
  have hnext : (∀ v, s.machine.control ≠ .complete (.returned v)) →
      (s.machine.control = .complete .next ∨ ∃ v, s.machine.control = .value v) →
      ∃ o, Ending s o ∧ (s.finishCompleted .next).controller = s.controller ∧
        (s.finishCompleted .next).machine.control = .ending o := by
    intro hreturn hfell
    simp only [finishCompleted]
    split
    · rename_i hcancelled
      exact ⟨_, .stopped hreturn hcancelled, rfl, rfl⟩
    · rename_i hcancelled
      exact ⟨_, .fell hfell (by simpa using hcancelled), rfl, rfl⟩
  cases hcontrol : s.machine.control with
  | value v =>
      rw [proceed_value hcontrol, withTask_nil hp]
      exact hnext (by simp [hcontrol]) (.inr ⟨v, hcontrol⟩)
  | complete c =>
      rw [proceed_complete hcontrol, withTask_nil hp]
      cases c with
      | returned v => exact ⟨_, .returned hcontrol, rfl, rfl⟩
      | next => exact hnext (by simp [hcontrol]) (.inl hcontrol)
  | fail e =>
      rw [proceed_fail hcontrol, withTask_nil hp]
      unfold finishFailed
      split
      · -- a run that has been told to end is stopped, whatever its failure is
        rename_i hstop
        rcases Bool.or_eq_true_iff.mp hstop with hcancelled | he
        · exact ⟨_, .stopped (by simp [hcontrol]) hcancelled, rfl, rfl⟩
        · exact ⟨_, .unwound hcontrol he, rfl, rfl⟩
      · rename_i hstop
        rw [Bool.not_eq_true, Bool.or_eq_false_iff] at hstop
        exact ⟨_, .failed hcontrol hstop.1 hstop.2, rfl, rfl⟩
  | crash text =>
      rw [proceed_crash hcontrol, withTask_nil hp]
      exact ⟨_, .crashed hcontrol, rfl, rfl⟩
  | _ => simp [hcontrol, Control.isResult] at hc

/-- A request of a host function changes the controls only if it is made for that. -/
lemma turn_act {site : Span} {a : Action Value} (hc : s.machine.control = .host site a) :
    Turn s s.proceed := by
  simp only [Session.proceed, hc]
  cases a with
  | pure v => exact .aside rfl (by rintro o ⟨⟩) (by rintro o ⟨⟩)
  | fail e => exact .aside rfl (by rintro o ⟨⟩) (by rintro o ⟨⟩)
  | crash text => exact .aside rfl (by rintro o ⟨⟩) (by rintro o ⟨⟩)
  | ask q next =>
      cases q with
      | stop => exact .stop hc rfl rfl
      | setSpeed n => exact .setSpeed hc rfl rfl
      | resume stepping =>
          simp only [act, perform]
          split
          · rename_i c hresume
            exact .resume hc hresume rfl
          · exact .aside rfl (by rintro o ⟨⟩) (by rintro o ⟨⟩)
      | _ => exact .aside rfl (by rintro o ⟨⟩) (by rintro o ⟨⟩)

/-- At its boundary a statement heeds the controls or waits; the delay is no concern of theirs. -/
lemma turn_boundary {p : Standing} {n : Node} (hc : s.machine.control = .boundary p n) :
    Turn s s.proceed := by
  have hmove : Move false s.machine s.proceed.machine := move_boundary hc
  have haside : s.proceed.controller = s.controller → Turn s s.proceed :=
    turn_aside hmove (by simp [hc, Control.isResult]) (by simp [hc])
  cases p with
  | admitted =>
      have h := heeding_proceed hc
      generalize s.proceed = t at h ⊢
      cases h with
      | begun token _ controller => exact .pass hc token controller rfl
      | slowed stepping _ controller => exact .slow hc stepping controller rfl
      | pauses stepping token phase controller => exact .pause hc stepping token phase controller rfl
  | throttled => exact haside (by rw [proceed_throttled hc]; rfl)
  | delayed => exact haside (by rw [proceed_delayed hc]; rfl)
  | paused =>
      have h := waking_proceed hc
      generalize s.proceed = t at h haside ⊢
      cases h with
      | polls wait => exact .poll hc wait rfl hc
      | waits _ => exact haside rfl
      | begun wait => exact .wake hc wait rfl rfl
      | told wait => exact .dismiss hc wait rfl rfl

/-- What a sound machine goes on with is a turn. -/
theorem proceed_turn (hs : Sound s.machine) : Turn s s.proceed := by
  have hmove := proceed_move false hs
  -- a result is handed to a task or settles the outcome; else the control tells what happens
  by_cases hresult : s.machine.control.isResult = true
  · cases hp : s.machine.pending with
    | nil =>
        obtain ⟨o, hending, hcontroller, hcontrol⟩ := settles_of_nil hresult hp
        exact .settle hp hending hcontroller hcontrol
    | cons p rest =>
        refine turn_aside hmove (by simp [hp]) (fun o ho => ?_)
          (controller_proceed_of_task hresult hp)
        simp [ho, Control.isResult] at hresult
  · cases hc : s.machine.control with
    | boundary p n => exact turn_boundary hc
    | host site a => exact turn_act hc
    | value _ | complete _ | fail _ | crash _ => simp [hc, Control.isResult] at hresult
    | reach n =>
        refine turn_aside hmove (fun h => absurd h hresult) (by simp [hc]) ?_
        have h := arrival_proceed hc
        generalize s.proceed = t at h ⊢
        cases h with
        | _ => rfl
    | ending o =>
        simp only [Session.proceed, hc]
        exact .finish hc (controller_finish s o) rfl
    | _ =>
        refine turn_aside hmove (fun h => absurd h hresult) (by simp [hc]) ?_
        simp only [Session.proceed, hc]

/-- A step of a sound machine is a turn. -/
theorem step_turn (hs : Sound s.machine) : Turn s s.step :=
  step_cases (fun hreporting _ => .report hreporting rfl (.inl rfl))
    (fun hreporting hfalters => .report hreporting rfl (.inr ⟨hfalters, _, rfl⟩))
    fun _ => proceed_turn hs

/-- No step replaces the observer. -/
lemma fragile_step (hs : Sound s.machine) : s.step.controller.fragile = s.controller.fragile := by
  cases step_turn hs with
  | resume _ controller _ => rw [Controller.resume?_eq controller]
  | poll _ _ controller _ => rw [controller, Controller.poll_eq]
  | stop _ controller _ =>
      rw [controller]
      exact Controller.fragile_requestStop _
  | aside controller _ _ | pass _ _ controller _ | slow _ _ controller _
  | pause _ _ _ _ controller _ | dismiss _ _ controller _ | settle _ _ controller _ =>
      rw [controller]
  | report _ controller _ | wake _ _ controller _ | setSpeed _ controller _
  | finish _ controller _ =>
      rw [controller]
      rfl

lemma fragile_happen (hs : Sound s.machine) (e : Event) :
    (s.happen e).controller.fragile = s.controller.fragile := by
  by_cases he : e = .step
  · rw [he]
    exact fragile_step hs
  · have hcommand := s.command he
    generalize (s.happen e).controller = c at hcommand ⊢
    cases hcommand with
    | stop _ => exact Controller.fragile_requestStop _
    | resume accepted => rw [Controller.resume?_eq accepted]
    | _ => rfl

lemma fragile_after (hs : Sound s.machine) (es : List Event) :
    (s.after es).controller.fragile = s.controller.fragile :=
  sound_induction (P := fun t => t.controller.fragile = s.controller.fragile)
    (fun _ e ht h => (fragile_happen ht e).trans h) hs rfl es

/-! ### Reports -/

/-- A run reports a change of phase before it goes on. -/
def Prompt (s : Session) : Prop :=
  s.controller.reporting = true → s.machine.control.reports = true

/-- Commands leave the run nothing to report. -/
lemma reporting_of_command {e : Event} (he : e ≠ .step) :
    (s.happen e).controller.reporting = s.controller.reporting := by
  have hcommand := s.command he
  generalize (s.happen e).controller = c at hcommand ⊢
  cases hcommand with
  | stop active => simp [Controller.requestStop, active, Controller.cancel]
  | resume accepted => rw [Controller.resume?_eq accepted]
  | _ => rfl

/-- A run that neither waits nor is held up makes its report with the first step, if it has one to
make, and is where it was. -/
lemma exists_goes {es : List Event} (hheld : ∀ site next, s.machine.control ≠ .held site next)
    (hpaused : ∀ n, s.machine.control ≠ .boundary .paused n)
    (hes : s.controller.reporting.toNat ≤ es.count .step) :
    ∃ (t : Session) (es' : List Event), s.after es = t.after es' ∧
      es'.count .step + s.controller.reporting.toNat = es.count .step ∧
      t.machine = s.machine ∧ t.controller.reporting = false := by
  cases hr : s.controller.reporting with
  | false => exact ⟨s, es, rfl, rfl, rfl, hr⟩
  | true =>
      induction es generalizing s with
      | nil => simp [hr] at hes
      | cons e es ih =>
          by_cases he : e = .step
          · subst he
            refine ⟨s.reported, es, ?_, by simp, rfl, rfl⟩
            rw [after_cons, ← step_eq_reported hr hpaused]
            rfl
          · have hmachine : (s.happen e).machine = s.machine := machine_of_command hheld rfl he
            have hreporting := (reporting_of_command he).trans hr
            obtain ⟨t, es', hafter, hcount, ht, hgoes⟩ := @ih (s.happen e) (hmachine ▸ hheld)
              (hmachine ▸ hpaused) (by
                rw [hreporting, ← hr]
                rwa [List.count_cons_of_ne he] at hes) hreporting
            refine ⟨t, es', hafter, ?_, ht.trans hmachine, hgoes⟩
            rwa [List.count_cons_of_ne he]

lemma prompt_proceed (hs : Sound s.machine) (hr : s.controller.reporting = false) :
    Prompt s.proceed := by
  intro hr'
  cases proceed_turn hs with
  | report reporting _ _ => simp [hr] at reporting
  | pause _ _ _ _ _ control' | wake _ _ _ control' | stop _ _ control' | finish _ _ control' =>
      rw [control']
      rfl
  | aside controller _ _ | pass _ _ controller _ | slow _ _ controller _ | dismiss _ _ controller _
  | settle _ _ controller _ => simp [controller, hr] at hr'
  | poll _ _ controller _ =>
      rw [controller, Controller.poll_eq] at hr'
      simp [hr] at hr'
  | resume _ controller _ =>
      rw [Controller.resume?_eq controller] at hr'
      simp [hr] at hr'
  | setSpeed _ controller _ => simp [controller, Controller.setSpeed, hr] at hr'

lemma Prompt.happen (h : Prompt s) (hs : Sound s.machine) (e : Event) : Prompt (s.happen e) := by
  by_cases he : e = .step
  · subst he
    refine step_cases (P := Prompt) ?_ ?_ (prompt_proceed hs)
    · intro _ _ hr
      simp [reported, Controller.report] at hr
    · intro _ _ hr
      simp [reported, Controller.report] at hr
  · intro hr
    rw [reporting_of_command he] at hr
    rcases happen_command s he with heq | ⟨site, next, -, heq⟩
    · rw [heq]
      exact h hr
    · rw [heq]
      rfl

lemma prompt_launch {s₀ : Session} {program : Program} {l : Launch}
    (h : s₀.launch program l = .ok s) : Prompt s := by
  obtain ⟨machine, hm, rfl⟩ := launch_eq_ok.mp h
  obtain ⟨functions, -, rfl⟩ := freshMachine_eq_ok hm
  exact fun _ => rfl

/-- At every moment, a run that has something to report has not gone on since. -/
theorem Reachable.prompt (h : Reachable s) : Prompt s := by
  obtain ⟨s₀, program, l, t, es, ht, rfl⟩ := h
  exact sound_induction (fun _ e hs h => h.happen hs e) (sound_launch ht) (prompt_launch ht) es

lemma Prompt.not_reporting (h : Prompt s) (hc : s.machine.control.reports = false) :
    s.controller.reporting = false := by
  cases hr : s.controller.reporting with
  | false => rfl
  | true => simp [h hr] at hc

/-- A step of a run that has something in hand is not a report. -/
lemma Reachable.step_eq (h : Reachable s) (hc : s.machine.control.reports = false) :
    s.step = s.proceed :=
  step_of_not_reporting (h.prompt.not_reporting hc)

/-! ### Waits -/

end Session

namespace Controller

/-- A run waits only for what is not there, and hears of the end only if it has been told to end. -/
structure Attentive (c : Controller) : Prop where
  parked : c.wait = .parked → c.cancelled = false ∧ c.token = false
  dismissed : c.wait = .dismissed → c.cancelled = true

variable {c : Controller}

lemma attentive_of_polling (h : c.wait = .polling) : c.Attentive where
  parked hwait := by simp [h] at hwait
  dismissed hwait := by simp [h] at hwait

lemma wait_cancel (h : c.wait ≠ .parked) : c.cancel.wait = c.wait := if_neg h

lemma wait_requestStop (h : c.wait ≠ .parked) : c.requestStop.wait = c.wait := by
  unfold requestStop
  split
  · exact wait_cancel (c := { c with phase := .stopping }) h
  · rfl

lemma wait_resume? {c' : Controller} {stepping : Bool} (h : c.wait ≠ .parked)
    (hc : c.resume? stepping = some c') : c'.wait = c.wait :=
  (wait_of_resume? hc).resolve_right fun hparked => h hparked.1

lemma attentive_cancel (c : Controller) : c.cancel.Attentive where
  parked hwait := by
    simp only [Controller.cancel] at hwait
    split at hwait
    · cases hwait
    · rename_i hother
      exact absurd hwait hother
  dismissed _ := rfl

lemma Attentive.requestStop (h : c.Attentive) : c.requestStop.Attentive := by
  unfold Controller.requestStop
  split
  · exact attentive_cancel _
  · exact h

lemma Attentive.grant (h : c.Attentive) : c.grant.Attentive := by
  unfold Controller.grant
  split
  · exact ⟨nofun, nofun⟩
  · rename_i hother
    exact ⟨fun hwait => absurd hwait hother, h.dismissed⟩

lemma Attentive.resume? {c' : Controller} {stepping : Bool} (h : c.Attentive)
    (hc : c.resume? stepping = some c') : c'.Attentive := by
  obtain ⟨-, rfl⟩ := resume?_eq_some hc
  have hmode : Attentive { c with stepping } := ⟨h.parked, h.dismissed⟩
  split
  · exact hmode.grant
  · exact hmode

lemma attentive_poll (c : Controller) : c.poll.Attentive := by
  unfold poll
  split
  · exact ⟨nofun, nofun⟩
  · rename_i hnone
    split
    · rename_i hcancelled
      exact ⟨nofun, fun _ => hcancelled⟩
    · rename_i hcancelled
      have hcancelled : c.cancelled = false := by simpa using hcancelled
      exact ⟨fun _ => ⟨hcancelled, by simpa [hcancelled] using hnone⟩, nofun⟩

end Controller

namespace Session

open Machine

variable {s : Session}

/-- Only a run that is held up, and has reported that, waits. -/
structure Attentive (s : Session) : Prop where
  controller : s.controller.Attentive
  held : s.controller.wait ≠ .polling → s.isPaused = true ∧ s.controller.reporting = false

/-- A run that is not held up and does not come to be so does not wait. -/
lemma attentive_of_polling {t : Session} (h : t.controller.wait = .polling) : Attentive t :=
  ⟨Controller.attentive_of_polling h, fun hwait => absurd h hwait⟩

lemma Attentive.wait_eq_polling (h : Attentive s)
    (hnot : s.isPaused = false ∨ s.controller.reporting = true) :
    s.controller.wait = .polling := by
  refine Decidable.byContradiction fun hwait => ?_
  obtain ⟨hpaused, hgoes⟩ := h.held hwait
  rcases hnot with hnot | hnot
  · simp [hpaused] at hnot
  · simp [hgoes] at hnot

lemma Attentive.proceed (h : Attentive s) (hs : Sound s.machine)
    (hgoes : s.controller.reporting = false) : Attentive s.proceed := by
  cases hpaused : s.isPaused with
  | true =>
      obtain ⟨n, hn⟩ := isPaused_iff.mp hpaused
      have hwaking := waking_proceed hn
      generalize s.proceed = t at hwaking ⊢
      cases hwaking with
      | polls _ =>
          refine ⟨Controller.attentive_poll _, fun _ => ⟨hpaused, ?_⟩⟩
          rw [Controller.poll_eq]
          exact hgoes
      | waits _ => exact h
      | begun _ => exact attentive_of_polling rfl
      | told _ => exact attentive_of_polling rfl
  | false =>
      have hwait := h.wait_eq_polling (.inl hpaused)
      have hnot' : s.controller.wait ≠ .parked := by simp [hwait]
      have hnot : ∀ n, s.machine.control ≠ .boundary .paused n := by
        intro n hn
        have := isPaused_iff.mpr ⟨n, hn⟩
        simp [hpaused] at this
      refine attentive_of_polling ?_
      cases proceed_turn hs with
      | report reporting _ _ => simp [hgoes] at reporting
      | poll control _ _ _ | wake control _ _ _ | dismiss control _ _ _ =>
          exact absurd control (hnot _)
      | aside controller _ _ | pass _ _ controller _ | slow _ _ controller _
      | pause _ _ _ _ controller _ | settle _ _ controller _ | setSpeed _ controller _
      | finish _ controller _ =>
          rw [controller]
          exact hwait
      | stop _ controller _ =>
          rw [controller]
          rw [Controller.wait_requestStop hnot', hwait]
      | resume _ controller _ => rw [Controller.wait_resume? hnot' controller, hwait]

/-- A command concerns the wait of a run only if it waits. -/
lemma wait_of_command {e : Event} (he : e ≠ .step) (hwait : s.controller.wait ≠ .parked) :
    (s.happen e).controller.wait = s.controller.wait := by
  have hcommand := s.command he
  generalize (s.happen e).controller = c at hcommand ⊢
  cases hcommand with
  | stop _ => exact Controller.wait_requestStop hwait
  | resume accepted => exact Controller.wait_resume? hwait accepted
  | cancel => exact Controller.wait_cancel hwait
  | _ => rfl

lemma Attentive.controller_of_command (h : s.controller.Attentive) {e : Event} (he : e ≠ .step) :
    (s.happen e).controller.Attentive := by
  have hcommand := s.command he
  generalize (s.happen e).controller = c at hcommand ⊢
  cases hcommand with
  | stop _ => exact ⟨h.requestStop.parked, h.requestStop.dismissed⟩
  | resume accepted => exact h.resume? accepted
  | cancel => exact Controller.attentive_cancel _
  | aside | report _ | setSpeed _ | favour _ => exact ⟨h.parked, h.dismissed⟩

/-- A command leaves a run where it is that is held up. -/
lemma isPaused_of_command {e : Event} (he : e ≠ .step) (hpaused : s.isPaused = true) :
    (s.happen e).isPaused = true := by
  obtain ⟨n, hn⟩ := isPaused_iff.mp hpaused
  rcases happen_command s he with heq | ⟨site, next, hheld, -⟩
  · rw [heq]
    exact isPaused_iff.mpr ⟨n, hn⟩
  · simp [hheld] at hn

lemma Attentive.happen (h : Attentive s) (hs : Sound s.machine) (e : Event) :
    Attentive (s.happen e) := by
  by_cases he : e = .step
  · subst he
    have hreported : s.controller.reporting = true → s.controller.wait = .polling :=
      fun hr => h.wait_eq_polling (.inr hr)
    exact step_cases (fun hr _ => attentive_of_polling (hreported hr))
      (fun hr _ => attentive_of_polling (hreported hr)) (h.proceed hs)
  · refine ⟨Attentive.controller_of_command h.controller he, fun hwait => ?_⟩
    obtain ⟨hpaused, hgoes⟩ := h.held fun hpolling =>
      hwait ((wait_of_command he (by simp [hpolling])).trans hpolling)
    exact ⟨isPaused_of_command he hpaused, (reporting_of_command he).trans hgoes⟩

/-- At every moment, only a run waits that is held up. -/
theorem Reachable.attentive (h : Reachable s) : Attentive s := by
  obtain ⟨s₀, program, l, t, es, ht, rfl⟩ := h
  have hstart : Attentive t := by
    obtain ⟨machine, hm, rfl⟩ := launch_eq_ok.mp ht
    exact attentive_of_polling rfl
  exact sound_induction (fun _ e hs h => h.happen hs e) (sound_launch ht) hstart es

/-! ### The end of a run -/

/-- The outcome that a run comes to is settled for a reason. -/
lemma ending_of_settled (hs : Sound s.machine) {o : Outcome}
    (ho : s.proceed.machine.control.settled? = some o)
    (hrun : s.machine.control.settled? = none) :
    s.machine.pending = [] ∧ s.machine.control.isResult = true ∧ Ending s o ∧
      s.proceed.controller = s.controller ∧ s.proceed.machine.control = .ending o := by
  have hmove := proceed_move false hs
  have hcontrol := hmove.of_settled ho hrun
  obtain ⟨hpending, hresult⟩ := hmove.of_ending hcontrol
  obtain ⟨o', hending, hcontroller, hcontrol'⟩ := settles_of_nil hresult hpending
  obtain rfl : o = o' := by simpa [hcontrol] using hcontrol'
  exact ⟨hpending, hresult, hending, hcontroller, hcontrol⟩

/-- An outcome that is settled stays so. -/
lemma settled?_happen (hs : Sound s.machine) {o : Outcome}
    (ho : s.machine.control.settled? = some o) (e : Event) :
    (s.happen e).machine.control.settled? = some o := by
  rcases happen_cases s e with ⟨-, heq⟩ | ⟨-, haside⟩
  · rw [heq]
    exact (proceed_move false hs).settled ho
  · rw [haside.machine_eq (fun site next hc => by simp [hc, Control.settled?] at ho)
      (fun n hc => by simp [hc, Control.settled?] at ho)]
    exact ho

lemma settled?_after (hs : Sound s.machine) {o : Outcome}
    (ho : s.machine.control.settled? = some o) (es : List Event) :
    (s.after es).machine.control.settled? = some o :=
  sound_induction (P := fun t => t.machine.control.settled? = some o)
    (fun _ e ht h => settled?_happen ht h e) hs ho es

lemma outcome?_eq_some {o : Outcome} : s.outcome? = some o ↔ s.machine.control = .ended o := by
  unfold outcome?
  split
  · rename_i o' hc
    simp [hc]
  · rename_i hc
    simp only [reduceCtorEq, false_iff]
    exact hc o

/-- A session shows how its run ended, if it has. -/
def Settled (s : Session) : Prop :=
  ∀ o, s.machine.control = .ended o →
    s.controller.phase = o.phase ∧ s.controller.error = o.error ∧
      s.controller.span = o.span s.controller.span

lemma settled_step (hs : Sound s.machine) (h : Settled s) : Settled s.step := by
  intro o ho
  cases step_turn hs with
  | report _ controller machine =>
      rw [controller]
      rcases machine with heq | ⟨-, text, heq⟩
      · exact h o (heq ▸ ho)
      · simp [heq, Machine.goto] at ho
  | aside controller _ earlier =>
      rw [controller]
      exact h o (earlier o ho)
  | finish _ controller control' =>
      rw [control', Control.ended.injEq] at ho
      rw [controller, ho]
      refine ⟨rfl, rfl, ?_⟩
      cases o with
      | completed v => rfl
      | failed e span => rfl
      | stopped => rfl
  | pass _ _ _ control' | slow _ _ _ control' | pause _ _ _ _ _ control' | poll _ _ _ control'
  | wake _ _ _ control' | dismiss _ _ _ control' | stop _ _ control' | resume _ _ control'
  | setSpeed _ _ control' | settle _ _ _ control' => simp [control'] at ho

/-- Of the commands, only a request to stop changes the phase, and none changes the error. -/
lemma phase_of_command {e : Event} (he : e ≠ .step) :
    ((s.happen e).controller.phase = s.controller.phase ∨
      e = .stop ∧ s.controller.phase.isActive = true ∧
        (s.happen e).controller.phase = .stopping) ∧
      (s.happen e).controller.error = s.controller.error := by
  have hcommand := s.command he
  generalize (s.happen e).controller = c at hcommand ⊢
  cases hcommand with
  | stop active => simp [Controller.requestStop, active, Controller.cancel]
  | resume accepted =>
      rw [Controller.resume?_eq accepted]
      exact ⟨.inl rfl, rfl⟩
  | aside | report _ | setSpeed _ | favour _ | cancel => exact ⟨.inl rfl, rfl⟩

/-- Commands do not change what the session of a run shows that is not active, and none takes back
that it has been told to end. -/
lemma controller_of_command (h : s.controller.phase.isActive = false) {e : Event}
    (he : e ≠ .step) :
    (s.happen e).controller.phase = s.controller.phase ∧
      (s.happen e).controller.error = s.controller.error ∧
      (s.happen e).controller.span = s.controller.span ∧
      (s.controller.cancelled = true → (s.happen e).controller.cancelled = true) := by
  have hcommand := s.command he
  generalize (s.happen e).controller = c at hcommand ⊢
  cases hcommand with
  | stop active => simp [h] at active
  | resume accepted => simp [Controller.resume?_of_not_active h] at accepted
  | cancel => exact ⟨rfl, rfl, rfl, fun _ => rfl⟩
  | aside | report _ | setSpeed _ | favour _ => exact ⟨rfl, rfl, rfl, id⟩

lemma settled_happen (hs : Sound s.machine) (h : Settled s) (e : Event) :
    Settled (s.happen e) := by
  by_cases he : e = .step
  · rw [he]
    exact settled_step hs h
  · intro o ho
    rcases happen_command s he with heq | ⟨site, next, -, heq⟩
    · rw [heq] at ho
      obtain ⟨hphase, herror, hspan⟩ := h o ho
      have hactive : s.controller.phase.isActive = false := by
        rw [hphase]
        exact Outcome.phase_not_active o
      obtain ⟨hphase', herror', hspan', -⟩ := controller_of_command hactive he
      exact ⟨hphase'.trans hphase, herror'.trans herror, by rw [hspan']; exact hspan⟩
    · simp [heq] at ho

/-- Once a run has ended, its session shows how it ended. -/
theorem Reachable.settled (h : Reachable s) : Settled s := by
  obtain ⟨s₀, program, l, t, es, ht, rfl⟩ := h
  have hstart : Settled t := by
    obtain ⟨machine, hm, rfl⟩ := launch_eq_ok.mp ht
    obtain ⟨functions, -, rfl⟩ := freshMachine_eq_ok hm
    rintro o ⟨⟩
  exact sound_induction (fun _ e hs h => settled_happen hs h e) (sound_launch ht) hstart es

end Session

end Pseudocode
