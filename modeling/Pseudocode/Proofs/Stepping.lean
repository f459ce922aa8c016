/-
# Single-stepping

A run that waits at its statement boundaries does what it would have done without waiting.  The
controls matter at statement boundaries and to host functions only, so that a run with aloof host
functions can be compared with one that does not wait: they are at the same place at all times,
except that the one stands at a boundary which the other has passed.

The main result is `Session.stepping_same_run`.  A run with the builtin functions that is
single-stepped ends as the continuous run does, whatever comes in answer to its pauses.  If each
pause is answered with a step, it pauses once before each statement that the continuous run
begins.
-/
import Pseudocode.Proofs.Aloof
import Pseudocode.Proofs.Controls

namespace Pseudocode

namespace Machine

/-- The machine past the boundary at which a statement stands, if one does. -/
def awake (m : Machine) : Machine :=
  match m.control with
  | .boundary _ n => m.goto (.exec n)
  | _ => m

variable {fragile : Bool} {m m' : Machine}

lemma awake_of_not_boundary (h : ∀ p n, m.control ≠ .boundary p n) : m.awake = m := by
  unfold awake
  split
  · rename_i p n hc
    exact absurd hc (h p n)
  · rfl

lemma awake_of_boundary {p : Standing} {n : Node} (h : m.control = .boundary p n) :
    m.awake = m.goto (.exec n) := by
  simp [awake, h]

lemma ended_awake (o : Outcome) : m.awake.control = .ended o ↔ m.control = .ended o := by
  unfold awake
  split
  · rename_i p n hc
    simp [hc, goto]
  · rfl

lemma Plain.not_past {d : Due} (h : Plain d m m') (n : Node) :
    ¬ ((∃ p, m'.control = .boundary p n) ∨ m'.control = .exec n) := by
  intro hn
  have hnone : m'.control.plain? = none := by
    rcases hn with ⟨p, hn⟩ | hn
    · rw [hn]
      rfl
    · rw [hn]
      rfl
  cases h.shape with
  | fails control _ _ => simp [control] at hn
  | goes control _ => simp [hnone] at control
  | awaits _ _ control _ => simp [hnone] at control

/-- Only a statement at its boundary stays there or comes to be executed. -/
lemma Move.eq_of_past (h : Move fragile m m') (hreach : ∀ n, m.control ≠ .reach n)
    (hboundary : ∀ p n, m.control ≠ .boundary p n) {n : Node}
    (hn : (∃ p, m'.control = .boundary p n) ∨ m'.control = .exec n) : m' = m := by
  cases h with
  | stay _ => rfl
  | plain _ h => exact absurd hn (h.not_past n)
  | task _ _ _ _ h => exact absurd hn (h.not_past n)
  | reach control _ => exact absurd control (hreach _)
  | breakdown control _ => exact absurd control (hboundary _ _)
  | pass control _ => exact absurd control (hboundary _ _)
  | outcome _ hc =>
      rcases hc with ⟨v, rfl⟩ | ⟨e, rfl⟩ | ⟨text, rfl⟩
      · simp [Machine.goto] at hn
      · simp [Machine.goto] at hn
      · simp [Machine.goto] at hn
  | request _ control' _ =>
      rcases hn with ⟨p, hn⟩ | hn
      · simp [hn, Control.due?] at control'
      · simp [hn, Control.due?] at control'
  | finish _ _ control' _ => simp [control'] at hn
  | _ => simp [Machine.await, Machine.goto] at hn

lemma Move.not_boundary (h : Move fragile m m') (hreach : ∀ n, m.control ≠ .reach n)
    (hboundary : ∀ p n, m.control ≠ .boundary p n) (p : Standing) (n : Node) :
    m'.control ≠ .boundary p n := by
  intro hn
  have heq := h.eq_of_past hreach hboundary (.inl ⟨p, hn⟩)
  exact hboundary p n (heq ▸ hn)

end Machine

namespace Session

open Machine

variable {s c : Session}

/-! ### Statements at their boundary -/

/-- How a run comes to stand at the boundary of a statement when it goes on, or stays there. -/
inductive Stands (s : Session) (n : Node) : Standing → Session → Prop where
  /-- It reaches the statement and has not been told to end. -/
  | reaches {t : Session} (control : s.machine.control = .reach n)
      (untold : s.controller.cancelled = false) (controller : t.controller = s.controller) :
      Stands s n .admitted t
  /-- It is slowed down. -/
  | slows {t : Session} (control : s.machine.control = .boundary .admitted n)
      (stepping : s.controller.stepping = false) : Stands s n .throttled t
  /-- It has been slowed down and has not been told to end. -/
  | passes {t : Session} (control : s.machine.control = .boundary .throttled n)
      (untold : s.controller.cancelled = false) : Stands s n .delayed t
  /-- It is held up. -/
  | pauses {t : Session} (control : s.machine.control = .boundary .admitted n)
      (stepping : s.controller.stepping = true) (phase : t.controller.phase = .paused) :
      Stands s n .paused t
  /-- It is held up and looks for a token and for word to end. -/
  | polls {t : Session} (control : s.machine.control = .boundary .paused n)
      (wait : s.controller.wait = .polling) (controller : t.controller = s.controller.poll) :
      Stands s n .paused t
  /-- It is held up and waits. -/
  | waits (control : s.machine.control = .boundary .paused n)
      (wait : s.controller.wait = .parked) : Stands s n .paused s

/-- A run stands at the boundary of a statement for one of these reasons. -/
theorem stands_of_proceed (hs : Sound s.machine) {p : Standing} {n : Node}
    (hn : s.proceed.machine.control = .boundary p n) : Stands s n p s.proceed := by
  cases hc : s.machine.control with
  | reach n' =>
      have harrival := arrival_proceed hc
      generalize s.proceed = t at hn harrival ⊢
      cases harrival with
      | admitted _ untold =>
          cases hn
          exact .reaches hc untold rfl
      | missing _ | excess _ _ | told _ _ => cases hn
  | boundary p' n' =>
      cases p' with
      | admitted =>
          have hheeding := heeding_proceed hc
          generalize s.proceed = t at hn hheeding ⊢
          cases hheeding with
          | begun _ _ _ => cases hn
          | slowed stepping _ _ =>
              cases hn
              exact .slows hc stepping
          | pauses stepping _ _ controller =>
              cases hn
              exact .pauses hc stepping (congrArg Controller.phase controller)
      | throttled =>
          rw [proceed_throttled hc] at hn ⊢
          split at hn
          · cases hn
          · rename_i huntold
            cases hn
            exact .passes hc (by simpa using huntold)
      | delayed =>
          rw [proceed_delayed hc] at hn
          split at hn
          · cases hn
          · cases hn
      | paused =>
          have hwaking := waking_proceed hc
          generalize s.proceed = t at hn hwaking ⊢
          cases hwaking with
          | polls wait =>
              cases hc.symm.trans hn
              exact .polls hc wait rfl
          | waits wait =>
              cases hc.symm.trans hn
              exact .waits hc wait
          | begun _ | told _ => cases hn
  | _ =>
      have hmove := proceed_move false hs
      exact absurd hn (hmove.not_boundary (by simp [hc]) (by simp [hc]) p n)

/-! ### What the controls matter to -/

/-- Away from statement boundaries, and as long as no host function asks for the controls, what a
run goes on with depends on them only in whether it has been told to end. -/
lemma proceed_withControls (ha : s.machine.control.Aloof)
    (hreach : ∀ n, s.machine.control ≠ .reach n)
    (hboundary : ∀ p n, s.machine.control ≠ .boundary p n) {k : Controller}
    (hk : k.cancelled = s.controller.cancelled) :
    ∃ k', { s with controller := k }.proceed = { s.proceed with controller := k' } := by
  cases hc : s.machine.control with
  | reach n => exact absurd hc (hreach n)
  | boundary p n => exact absurd hc (hboundary p n)
  | held site next => simp [hc, Control.Aloof] at ha
  | idle | ended o => exact ⟨k, by simp [Session.proceed, hc]⟩
  | ending o =>
      simp only [Session.proceed, hc]
      cases o with
      | _ => exact ⟨_, rfl⟩
  | eval n | exec n | block b | choose branches | call name args site =>
      exact ⟨k, by simp [Session.proceed, hc]⟩
  | value v =>
      simp only [Session.proceed, hc, withTask]
      cases hp : s.machine.pending with
      | nil => exact ⟨k, by simp [finishCompleted, Session.goto, hk]⟩
      | cons p rest => exact ⟨k, rfl⟩
  | complete d =>
      simp only [Session.proceed, hc, withTask]
      cases hp : s.machine.pending with
      | nil =>
          cases d with
          | returned v => exact ⟨_, rfl⟩
          | next => exact ⟨k, by simp [finishCompleted, Session.goto, hk]⟩
      | cons p rest => exact ⟨k, by rw [hk]⟩
  | fail e =>
      simp only [Session.proceed, hc, withTask]
      cases hp : s.machine.pending with
      | nil =>
          simp only [finishFailed, hk]
          split
          · exact ⟨_, rfl⟩
          · exact ⟨_, rfl⟩
      | cons p rest => exact ⟨k, rfl⟩
  | crash text =>
      simp only [Session.proceed, hc, withTask]
      cases hp : s.machine.pending with
      | nil => exact ⟨_, rfl⟩
      | cons p rest => exact ⟨k, rfl⟩
  | host site a =>
      simp only [Session.proceed, hc]
      rw [hc] at ha
      cases ha with
      | pure v => exact ⟨k, rfl⟩
      | fail e => exact ⟨k, rfl⟩
      | crash text => exact ⟨k, rfl⟩
      | @ask q next hq _ =>
          -- the requests that read or change the controls are not aloof
          cases q with
          | cancelled | stop | resume _ | status | snapshot | speed | setSpeed _ | hold =>
              simp [Request.isAloof] at hq
          | _ => exact ⟨k, rfl⟩

/-- An aloof host function makes aloof requests. -/
lemma isAloof_of_host (ha : s.machine.control.Aloof) {site : Span} {q : Request}
    {next : q.Answer → Action Value} (hc : s.machine.control = .host site (.ask q next)) :
    q.isAloof = true := by
  rw [hc] at ha
  cases ha with
  | ask hq _ => exact hq

/-- Away from statement boundaries, the controls change when the run ends and not before. -/
lemma controller_proceed (hs : Sound s.machine) (ha : s.machine.control.Aloof)
    (hgoes : s.controller.reporting = false)
    (hboundary : ∀ p n, s.machine.control ≠ .boundary p n) :
    s.proceed.controller = s.controller ∨
      ∃ o, s.proceed.machine.control = .ended o ∧
        s.proceed.controller = s.controller.ended o := by
  cases proceed_turn hs with
  | report reporting _ _ => simp [hgoes] at reporting
  | aside controller _ _ | settle _ _ controller _ => exact .inl controller
  | pass control _ _ _ | slow control _ _ _ | pause control _ _ _ _ _ | poll control _ _ _
  | wake control _ _ _ | dismiss control _ _ _ => exact absurd control (hboundary _ _)
  | stop control _ _ => simpa [Request.isAloof] using isAloof_of_host ha control
  | resume control _ _ => simpa [Request.isAloof] using isAloof_of_host ha control
  | setSpeed control _ _ => simpa [Request.isAloof] using isAloof_of_host ha control
  | finish _ controller control' => exact .inr ⟨_, control', controller⟩

/-- No step changes the mode of a run, or tells it to end before it does. -/
lemma calm_step (hs : Sound s.machine) (ha : s.machine.control.Aloof) :
    s.step.controller.stepping = s.controller.stepping ∧
      (s.step.controller.cancelled = s.controller.cancelled ∨
        ∃ o, s.step.machine.control = .ended o) := by
  cases step_turn hs with
  | report _ controller _ | wake _ _ controller _ =>
      rw [controller]
      exact ⟨rfl, .inl rfl⟩
  | aside controller _ _ | pass _ _ controller _ | slow _ _ controller _
  | pause _ _ _ _ controller _ | dismiss _ _ controller _ | settle _ _ controller _ =>
      rw [controller]
      exact ⟨rfl, .inl rfl⟩
  | poll _ _ controller _ =>
      rw [controller, Controller.poll_eq]
      exact ⟨rfl, .inl rfl⟩
  | stop control _ _ => simpa [Request.isAloof] using isAloof_of_host ha control
  | resume control _ _ => simpa [Request.isAloof] using isAloof_of_host ha control
  | setSpeed control _ _ => simpa [Request.isAloof] using isAloof_of_host ha control
  | finish _ controller control' =>
      rw [controller]
      exact ⟨rfl, .inr ⟨_, control'⟩⟩

/-! ### Past a boundary without waiting -/

/-- The statement that passes its boundary with the next step, if one does. -/
def begunSpan (s : Session) : List Span :=
  match s.machine.control, s.step.machine.control with
  | .boundary _ _, .exec n => [n.span]
  | _, _ => []

/-- The statements that a run begins within a number of steps. -/
def begunSpans : Nat → Session → List Span
  | 0, _ => []
  | k + 1, s => s.begunSpan ++ begunSpans k s.step

/-- The run `c` comes to `c'` within a number of steps, the last of which takes the statement past
its boundary.  Before that the statement comes to its boundary or stands there. -/
inductive Crosses (n : Node) : Nat → Session → Session → Prop where
  | last {c : Session} {p : Standing} (control : c.machine.control = .boundary p n)
      (begins : c.step.machine.control = .exec n) : Crosses n 1 c c.step
  | more {i : Nat} {c c' : Session} (stays : c.begunSpan = [])
      (control : c.machine.control = .reach n ∨ ∃ p, c.machine.control = .boundary p n)
      (rest : Crosses n i c.step c') : Crosses n (i + 1) c c'

namespace Crosses

variable {n : Node} {i j : Nat} {c' : Session}

lemma pos (h : Crosses n i c c') : 0 < i := by
  cases h with
  | last _ _ => exact Nat.zero_lt_one
  | more _ _ _ => exact Nat.succ_pos _

lemma after_eq (h : Crosses n i c c') : c.after (List.replicate i .step) = c' := by
  induction h with
  | last _ _ => rfl
  | more _ _ _ ih => exact ih

lemma begunSpans_eq (h : Crosses n i c c') : c.begunSpans i = [n.span] := by
  induction h with
  | last control begins => simp [begunSpans, begunSpan, control, begins]
  | more stays _ _ ih => rw [begunSpans, stays, ih, List.nil_append]

/-- Before that it has not begun anything, and is not over. -/
lemma before (h : Crosses n i c c') (hj : j < i) :
    c.begunSpans j = [] ∧ (c.after (List.replicate j .step)).outcome? = none := by
  induction h generalizing j with
  | last control _ =>
      obtain rfl : j = 0 := by omega
      exact ⟨rfl, by simp [outcome?, control]⟩
  | more stays control _ ih =>
      cases j with
      | zero => exact ⟨rfl, by rcases control with hc | ⟨p, hc⟩ <;> simp [outcome?, hc]⟩
      | succ j =>
          obtain ⟨hspans, houtcome⟩ := ih (Nat.lt_of_succ_lt_succ hj)
          exact ⟨by rw [begunSpans, stays, hspans, List.nil_append], houtcome⟩

end Crosses

/-- A run that goes on without single-stepping: it has not been told to end, and has nothing to
report. -/
structure Flows (k : Controller) : Prop where
  stepping : k.stepping = false
  cancelled : k.cancelled = false
  reporting : k.reporting = false

lemma crosses_delayed {n : Node} (hc : c.machine.control = .boundary .delayed n)
    (h : Flows c.controller) :
    Crosses n 1 c (c.goto (.exec n)) := by
  have hstep : c.step = c.goto (.exec n) := by
    rw [step_of_not_reporting h.reporting, proceed_delayed hc]
    simp [h.cancelled]
  rw [← hstep]
  exact .last hc (by rw [hstep]; rfl)

lemma crosses_throttled {n : Node} (hc : c.machine.control = .boundary .throttled n)
    (h : Flows c.controller) :
    Crosses n 2 c (c.goto (.exec n)) := by
  have hstep : c.step = c.goto (.boundary .delayed n) := by
    rw [step_of_not_reporting h.reporting, proceed_throttled hc]
    simp [h.cancelled]
  refine .more ?_ (.inr ⟨_, hc⟩) ?_
  · simp [begunSpan, hc, hstep]
  · rw [hstep]
    exact crosses_delayed (c := c.goto (.boundary .delayed n)) rfl h

/-- A statement that heeds the controls of a run that flows is executed, at once or after the
delay. -/
lemma crosses_admitted {n : Node} (hc : c.machine.control = .boundary .admitted n)
    (h : Flows c.controller) :
    ∃ i k, Crosses n i c (Session.goto { c with controller := k } (.exec n)) ∧ Flows k := by
  have hheeding := heeding_proceed hc
  rw [← step_of_not_reporting h.reporting] at hheeding
  generalize hstep : c.step = t at hheeding
  cases hheeding with
  | @begun k token speed controller =>
      refine ⟨1, k, ?_, ?_⟩
      · rw [← hstep]
        exact .last hc (by rw [hstep]; rfl)
      · rw [controller]
        exact ⟨h.stepping, h.cancelled, h.reporting⟩
  | @slowed k stepping speed controller =>
      have hk : Flows k := by
        rw [controller]
        exact ⟨h.stepping, h.cancelled, h.reporting⟩
      refine ⟨3, k, .more (i := 2) ?_ (.inr ⟨_, hc⟩) ?_, hk⟩
      · simp [begunSpan, hc, hstep]
      · rw [hstep]
        exact crosses_throttled
          (c := Session.goto { c with controller := k } (.boundary .throttled n)) rfl hk
  | pauses stepping token phase controller => simp [h.stepping] at stepping

/-- So is a statement that reaches its boundary, unless it is missing or one too many. -/
lemma crosses_reach {n : Node} (hc : c.machine.control = .reach n) (hn : Counted c n)
    (h : Flows c.controller) :
    ∃ i k, Crosses n i c (Session.goto
      { c.arrived n (c.machine.steps + 1) with controller := k } (.exec n)) ∧ Flows k := by
  have hstep : c.step = (c.arrived n (c.machine.steps + 1)).goto (.boundary .admitted n) := by
    rw [step_of_not_reporting h.reporting, proceed_reach hc]
    exact Arrival.reach_eq (.admitted hn h.cancelled)
  obtain ⟨i, k, hcrosses, hk⟩ := crosses_admitted
    (c := (c.arrived n (c.machine.steps + 1)).goto (.boundary .admitted n)) rfl h
  refine ⟨i + 1, k, .more (by simp [begunSpan, hc]) (.inl hc) ?_, hk⟩
  rw [hstep]
  exact hcrosses

/-! ### The run without waits -/

/-- The session `c` runs without single-stepping and is at the same place as `s`, except that in `s`
a statement may stand at a boundary which `c` has passed.  Neither has been told to end. -/
structure Twin (s c : Session) : Prop where
  same : ∃ k, c = { s with machine := s.machine.awake, controller := k }
  sound : Sound s.machine
  sound' : Sound c.machine
  aloof : Aloof s.machine
  sturdy : s.controller.fragile = false
  continuous : c.controller.stepping = false
  untold : (∃ o, s.machine.control = .ended o) ∨
    (s.controller.cancelled = false ∧ s.controller.wait ≠ .dismissed) ∧ Flows c.controller

/-- No command but the two that are made for it tells a run to end. -/
lemma untold_happen {e : Event} (he : e ≠ .step) (hstop : e ≠ .stop) (hcancel : e ≠ .cancel) :
    (s.happen e).controller.cancelled = s.controller.cancelled ∧
      (s.controller.wait ≠ .dismissed → (s.happen e).controller.wait ≠ .dismissed) := by
  have hcommand := s.command he
  generalize (s.happen e).controller = c at hcommand ⊢
  cases hcommand with
  | stop _ => exact absurd rfl hstop
  | cancel => exact absurd rfl hcancel
  | resume accepted =>
      refine ⟨by rw [Controller.resume?_eq accepted], fun hwait => ?_⟩
      rcases Controller.wait_of_resume? accepted with heq | ⟨-, heq⟩
      · rwa [heq]
      · simp [heq]
  | aside | report _ | setSpeed _ | favour _ => exact ⟨rfl, id⟩

namespace Twin

lemma machine_eq (h : Twin s c) : c.machine = s.machine.awake := by
  obtain ⟨k, rfl⟩ := h.same
  rfl

lemma aloof' (h : Twin s c) : c.machine.control.Aloof := by
  rw [h.machine_eq]
  unfold awake
  split
  · trivial
  · exact h.aloof.control

/-- The one run ends when the other does, and in the same way. -/
lemma ended_iff (h : Twin s c) (o : Outcome) :
    c.machine.control = .ended o ↔ s.machine.control = .ended o := by
  rw [h.machine_eq]
  exact ended_awake o

/-- The run that waits may change its controls, as long as it is not told to end. -/
lemma withControls (h : Twin s c) {k : Controller} (hfragile : k.fragile = s.controller.fragile)
    (hcancelled : k.cancelled = s.controller.cancelled)
    (hwait : s.controller.wait ≠ .dismissed → k.wait ≠ .dismissed) :
    Twin { s with controller := k } c := by
  refine ⟨h.same, h.sound, h.sound', h.aloof, hfragile.trans h.sturdy, h.continuous, ?_⟩
  exact h.untold.imp_right fun ⟨⟨htold, hdismissed⟩, hflows⟩ =>
    ⟨⟨hcancelled.trans htold, hwait hdismissed⟩, hflows⟩

/-- Where it stands at a boundary is no matter. -/
lemma pass (h : Twin s c) {p : Standing} {n : Node} (hn : s.machine.control = .boundary p n)
    {k : Controller} (hfragile : k.fragile = s.controller.fragile)
    (hcancelled : k.cancelled = s.controller.cancelled)
    (hwait : s.controller.wait ≠ .dismissed → k.wait ≠ .dismissed) {d : Control}
    (hd : d = .exec n ∨ ∃ q, d = .boundary q n) :
    Twin (Session.goto { s with controller := k } d) c := by
  have h' := h.withControls hfragile hcancelled hwait
  have hd' : (s.machine.goto d).awake = s.machine.awake ∧ passes n d ∧ d.Aloof := by
    rw [awake_of_boundary hn]
    rcases hd with rfl | ⟨q, rfl⟩
    · exact ⟨rfl, rfl, trivial⟩
    · exact ⟨rfl, rfl, trivial⟩
  have hmove : Move false s.machine (s.machine.goto d) := .pass hn hd'.2.1
  refine ⟨?_, hmove.sound h.sound, h.sound',
    ⟨h.aloof.functions, hd'.2.2, h.aloof.pending⟩, h'.sturdy, h.continuous, ?_⟩
  · obtain ⟨k', rfl⟩ := h.same
    exact ⟨k', by rw [← hd'.1]; rfl⟩
  · exact .inr (h'.untold.resolve_left fun ⟨o, ho⟩ => by simp [hn] at ho)

/-- While a statement stands at its boundary in the one run, the other stays where it is. -/
lemma stays (h : Twin s c) {p : Standing} {n : Node} (hn : s.machine.control = .boundary p n) :
    Twin s.proceed c := by
  obtain ⟨⟨htold, hwait⟩, -⟩ := h.untold.resolve_left fun ⟨o, ho⟩ => by simp [hn] at ho
  cases p with
  | admitted =>
      have hheeding := heeding_proceed hn
      generalize s.proceed = t at hheeding ⊢
      cases hheeding with
      | @begun k token speed controller =>
          exact h.pass (k := k) hn (by rw [controller]) (by rw [controller])
            (by rw [controller]; exact id) (.inl rfl)
      | @slowed k stepping speed controller =>
          exact h.pass (k := k) hn (by rw [controller]) (by rw [controller])
            (by rw [controller]; exact id) (.inr ⟨_, rfl⟩)
      | @pauses k stepping token phase controller =>
          exact h.pass (k := k) hn (by rw [controller]) (by rw [controller])
            (by rw [controller]; exact id) (.inr ⟨_, rfl⟩)
  | throttled =>
      rw [proceed_throttled hn, if_neg (by simp [htold])]
      exact h.pass hn rfl rfl id (.inr ⟨_, rfl⟩)
  | delayed =>
      rw [proceed_delayed hn, if_neg (by simp [htold])]
      exact h.pass hn rfl rfl id (.inl rfl)
  | paused =>
      have hwaking := waking_proceed hn
      generalize s.proceed = t at hwaking ⊢
      cases hwaking with
      | polls wait =>
          have hpoll : s.controller.poll.wait ≠ .dismissed := by
            simp only [Controller.poll, htold]
            split <;> simp
          refine h.withControls ?_ ?_ fun _ => hpoll
          · rw [Controller.poll_eq]
          · rw [Controller.poll_eq]
      | waits wait => exact h
      | begun wait =>
          exact h.pass (k := s.controller.proceed) hn rfl rfl
            (fun _ => by simp [Controller.proceed]) (.inl rfl)
      | told wait => exact absurd wait hwait

/-- A statement that reaches its boundary in the one run fails in both, or the other passes the
boundary. -/
lemma arrives (h : Twin s c) {n : Node} (hn : s.machine.control = .reach n) :
    (∃ e, s.proceed.machine.control = .fail e) ∧ s.proceed.controller = s.controller ∧
        Twin s.proceed c.step ∨
      s.proceed = (s.arrived n (s.machine.steps + 1)).goto (.boundary .admitted n) ∧
        ∃ i c', Crosses n i c c' ∧ Twin s.proceed c' := by
  obtain ⟨htold, hflows⟩ := h.untold.resolve_left fun ⟨o, ho⟩ => by simp [hn] at ho
  have hsound := (proceed_move false h.sound).sound h.sound
  have hn' : c.machine.control = .reach n := by
    rw [h.machine_eq, awake_of_not_boundary (by simp [hn]), hn]
  have haloof : Aloof s.proceed.machine := aloof_proceed h.sound h.aloof
  have hsound' := sound_happen h.sound' .step
  have hfails : ∀ {steps : Nat} {e : Failure},
      s.proceed = (s.arrived n steps).goto (.fail e) →
      c.step = (c.arrived n steps).goto (.fail e) →
      (∃ e, s.proceed.machine.control = .fail e) ∧ s.proceed.controller = s.controller ∧
        Twin s.proceed c.step := by
    intro steps e heq heq'
    refine ⟨⟨e, by rw [heq]; rfl⟩, by rw [heq]; rfl, ?_, hsound, hsound', haloof, ?_, ?_, ?_⟩
    · obtain ⟨k, rfl⟩ := h.same
      rw [heq, heq', awake_of_not_boundary (by simp [hn])]
      exact ⟨k, rfl⟩
    · rw [heq]
      exact h.sturdy
    · rw [heq']
      exact h.continuous
    · rw [heq, heq']
      exact .inr ⟨htold, hflows⟩
  have hmachine : c.machine = s.machine := by
    rw [h.machine_eq, awake_of_not_boundary (by simp [hn])]
  have hstep : c.step = c.reach n := by
    rw [step_of_not_reporting hflows.reporting, proceed_reach hn']
  have harrival := arrival_proceed hn
  generalize ht : s.proceed = t at harrival
  rw [← ht]
  cases harrival with
  | missing absent =>
      refine .inl (hfails ht ?_)
      rw [hstep, ← hmachine]
      exact Arrival.reach_eq (.missing absent)
  | excess present exceeded =>
      refine .inl (hfails ht ?_)
      rw [hstep, ← hmachine]
      exact Arrival.reach_eq (.excess present (hmachine ▸ exceeded))
  | told counted cancelled => simp [htold.1] at cancelled
  | admitted counted cancelled =>
      refine .inr ⟨ht, ?_⟩
      have hcounted : Counted c n := ⟨counted.present, hmachine ▸ counted.within⟩
      obtain ⟨i, k, hcrosses, hk⟩ := crosses_reach hn' hcounted hflows
      have hcrossed : passes n (.exec n) := rfl
      refine ⟨i, _, hcrosses, ?_, hsound, ?_, haloof, ?_, hk.stepping, ?_⟩
      · obtain ⟨k', rfl⟩ := h.same
        rw [ht, awake_of_not_boundary (by simp [hn])]
        exact ⟨k, rfl⟩
      · have hmove : Move false c.machine
            ((c.arrived n (c.machine.steps + 1)).machine.goto (.exec n)) := .reach hn' hcrossed
        exact hmove.sound h.sound'
      · rw [ht]
        exact h.sturdy
      · rw [ht]
        exact .inr ⟨htold, hk⟩

/-- Away from statement boundaries both runs take a step. -/
lemma both (h : Twin s c) (hgoes : s.controller.reporting = false)
    (hended : ∀ o, s.machine.control ≠ .ended o) (hreach : ∀ n, s.machine.control ≠ .reach n)
    (hboundary : ∀ p n, s.machine.control ≠ .boundary p n) : Twin s.proceed c.step := by
  obtain ⟨htold, hflows⟩ := h.untold.resolve_left fun ⟨o, ho⟩ => hended o ho
  have hmove := proceed_move false h.sound
  have hstep := step_of_not_reporting hflows.reporting
  have hmachine : c.machine = s.machine := by
    rw [h.machine_eq, awake_of_not_boundary hboundary]
  have hsame : ∃ k, c.step =
      { s.proceed with machine := s.proceed.machine.awake, controller := k } := by
    have hcancelled := hflows.cancelled.trans htold.1.symm
    rw [hstep, awake_of_not_boundary (hmove.not_boundary hreach hboundary)]
    obtain ⟨k, rfl⟩ := h.same
    rw [awake_of_not_boundary hboundary] at hcancelled ⊢
    exact proceed_withControls h.aloof.control hreach hboundary hcancelled
  have hcontroller := controller_proceed h.sound h.aloof.control hgoes hboundary
  have hcontroller' : c.step.controller = c.controller ∨
      ∃ o, c.step.machine.control = .ended o ∧ c.step.controller = c.controller.ended o := by
    rw [hstep]
    exact controller_proceed h.sound' h.aloof' hflows.reporting (by rwa [hmachine])
  refine ⟨hsame, hmove.sound h.sound, sound_happen h.sound' .step, aloof_proceed h.sound h.aloof,
    ?_, ?_, ?_⟩
  · rcases hcontroller with heq | ⟨o, -, heq⟩
    · rw [heq]
      exact h.sturdy
    · rw [heq]
      exact h.sturdy
  · rcases hcontroller' with heq | ⟨o, -, heq⟩
    · rw [heq]
      exact h.continuous
    · rw [heq]
      exact h.continuous
  · rcases hcontroller with heq | ⟨o, ho, -⟩
    · rcases hcontroller' with heq' | ⟨o, ho, -⟩
      · rw [heq, heq']
        exact .inr ⟨htold, hflows⟩
      · obtain ⟨k, hk⟩ := hsame
        rw [hk] at ho
        exact .inl ⟨o, (ended_awake o).mp ho⟩
    · exact .inl ⟨o, ho⟩

/-- Whatever happens to the one run, short of being told to end, the other keeps up with some
steps. -/
lemma happen (h : Twin s c) {e : Event} (hstop : e ≠ .stop) (hcancel : e ≠ .cancel) :
    ∃ k, Twin (s.happen e) (c.after (List.replicate k .step)) := by
  by_cases he : e = .step
  · subst he
    refine step_cases (P := fun t => ∃ k, Twin t (c.after (List.replicate k .step))) ?_ ?_ ?_
    · exact fun _ _ => ⟨0, h.withControls rfl rfl id⟩
    · exact fun _ hfalters => by simp [falters, h.sturdy] at hfalters
    · intro hgoes
      cases hc : s.machine.control with
      | ended o =>
          refine ⟨0, ?_⟩
          simpa [Session.proceed, hc] using h
      | boundary p n => exact ⟨0, h.stays hc⟩
      | reach n =>
          rcases h.arrives hc with ⟨-, -, hboth⟩ | ⟨-, i, c', hcrosses, htwin⟩
          · exact ⟨1, hboth⟩
          · exact ⟨i, hcrosses.after_eq ▸ htwin⟩
      | _ => exact ⟨1, h.both hgoes (by simp [hc]) (by simp [hc]) (by simp [hc])⟩
  · refine ⟨0, ?_⟩
    rcases happen_command s he with heq | ⟨site, next, hheld, -⟩
    · obtain ⟨hcancelled, hwait⟩ := untold_happen he hstop hcancel
      rw [heq]
      exact h.withControls (fragile_happen h.sound e) hcancelled hwait
    · -- an aloof host function does not wait
      have haloof := h.aloof.control
      simp [hheld, Control.Aloof] at haloof

lemma after (h : Twin s c) {es : List Event} (hes : ∀ e ∈ es, e ≠ .stop ∧ e ≠ .cancel) :
    ∃ k, Twin (s.after es) (c.after (List.replicate k .step)) := by
  induction es generalizing s c with
  | nil => exact ⟨0, h⟩
  | cons e es ih =>
      have he := hes e List.mem_cons_self
      obtain ⟨j, hj⟩ := h.happen he.1 he.2
      obtain ⟨k, hk⟩ := ih hj fun e' he' => hes e' (List.mem_cons_of_mem _ he')
      refine ⟨j + k, ?_⟩
      rwa [← List.replicate_append_replicate, after_append]

lemma outcome?_eq (h : Twin s c) : c.outcome? = s.outcome? := by
  refine Option.ext fun o => ?_
  rw [outcome?_eq_some, outcome?_eq_some]
  exact h.ended_iff o

/-- When the runs have ended, their sessions show the same. -/
lemma shows_same (h : Twin s c) (hs : Settled s) (hc : Settled c) {o : Outcome}
    (ho : s.outcome? = some o) : c.output = s.output ∧ c.snapshot? = s.snapshot? := by
  have hended := outcome?_eq_some.mp ho
  have hended' := outcome?_eq_some.mp (h.outcome?_eq.trans ho)
  have hphase : c.controller.phase = s.controller.phase :=
    (hc o hended').1.trans (hs o hended).1.symm
  have hmachine : c.machine = s.machine := by
    rw [h.machine_eq]
    exact awake_of_not_boundary (by simp [hended])
  refine ⟨?_, ?_⟩
  · obtain ⟨k, rfl⟩ := h.same
    rfl
  · unfold snapshot? Controller.inspectable
    rw [hphase, hmachine]

end Twin

/-! ### Stepping through a program -/

/-- What happens next if every pause is answered with a step. -/
def nextEvent (s : Session) : Event := if s.waits then .resume true else .step

/-- The session after a number of events, every pause being answered with a step. -/
def stepThrough : Nat → Session → Session
  | 0, s => s
  | k + 1, s => stepThrough k (s.happen s.nextEvent)

/-- The statements that the session shows at the pauses meanwhile. -/
def pauseSpans : Nat → Session → List Span
  | 0, _ => []
  | k + 1, s =>
      (if s.waits then [s.controller.status.span] else []) ++ pauseSpans k (s.happen s.nextEvent)

lemma stepThrough_add (j k : Nat) (s : Session) :
    s.stepThrough (j + k) = (s.stepThrough j).stepThrough k := by
  induction j generalizing s with
  | zero => rw [Nat.zero_add]; rfl
  | succ j ih =>
      rw [Nat.succ_add]
      exact ih _

lemma pauseSpans_add (j k : Nat) (s : Session) :
    s.pauseSpans (j + k) = s.pauseSpans j ++ (s.stepThrough j).pauseSpans k := by
  induction j generalizing s with
  | zero => rw [Nat.zero_add]; rfl
  | succ j ih =>
      rw [Nat.succ_add]
      simp only [pauseSpans, stepThrough, ih, List.append_assoc]

lemma begunSpans_add (j k : Nat) (c : Session) :
    c.begunSpans (j + k) =
      c.begunSpans j ++ (c.after (List.replicate j .step)).begunSpans k := by
  induction j generalizing c with
  | zero => rw [Nat.zero_add]; rfl
  | succ j ih =>
      rw [Nat.succ_add]
      simp only [begunSpans, ih, List.append_assoc]
      rfl

/-- What a run has begun at some time during some steps, it has begun after some of them. -/
lemma begunSpans_of_prefix {k : Nat} {l : List Span} (h : l <+: c.begunSpans k) :
    ∃ j, l = c.begunSpans j := by
  induction k generalizing l c with
  | zero => exact ⟨0, List.prefix_nil.mp h⟩
  | succ k ih =>
      cases l with
      | nil => exact ⟨0, rfl⟩
      | cons x l =>
          simp only [begunSpans] at h
          cases hb : c.begunSpan with
          | nil =>
              rw [hb, List.nil_append] at h
              obtain ⟨j, hj⟩ := ih h
              exact ⟨j + 1, by simp [begunSpans, hb, hj]⟩
          | cons y ys =>
              have hys : ys = [] := by
                unfold begunSpan at hb
                split at hb
                · exact (List.cons.inj hb).2.symm
                · cases hb
              rw [hb, hys] at h
              obtain ⟨hxy, htail⟩ := List.cons_prefix_cons.mp h
              obtain ⟨j, hj⟩ := ih htail
              exact ⟨j + 1, by simp [begunSpans, hb, hys, hxy, hj]⟩

/-- A run that does not wait takes a step. -/
lemma stepThrough_of_not_waits (h : s.waits = false) :
    s.stepThrough 1 = s.step ∧ s.pauseSpans 1 = [] := by
  have hnext : s.nextEvent = .step := by simp [nextEvent, h]
  simp only [stepThrough, pauseSpans, hnext, h]
  exact ⟨rfl, rfl⟩

lemma not_waits_of_not_paused (h : ∀ n, s.machine.control ≠ .boundary .paused n) :
    s.waits = false := by
  unfold waits isPaused
  split
  · rename_i n hn
    exact absurd hn (h n)
  · rfl

/-- The controls of a run that is stepped through, at a moment at which it neither waits nor has
anything to report. -/
structure Stepped (k : Controller) : Prop where
  stepping : k.stepping = true
  token : k.token = false
  wait : k.wait = .polling
  phase : k.phase = .running
  reporting : k.reporting = false

/-- The one run is stepped through, is not at a boundary, and is where the other is. -/
structure InStep (s c : Session) : Prop where
  twin : Twin s c
  moving : ∀ p n, s.machine.control ≠ .boundary p n
  stepped : (∃ o, s.machine.control = .ended o) ∨ Stepped s.controller

/-- A run that does not wait goes on by itself. -/
lemma stepThrough_succ {t : Session} (h : s.waits = false) (ht : s.step = t) (k : Nat) :
    s.stepThrough (k + 1) = t.stepThrough k ∧ s.pauseSpans (k + 1) = t.pauseSpans k := by
  obtain ⟨hone, hpause⟩ := stepThrough_of_not_waits h
  rw [Nat.add_comm, stepThrough_add, pauseSpans_add, hone, hpause, ht]
  exact ⟨rfl, rfl⟩

/-- One that waits is told to take a step. -/
lemma stepThrough_succ_of_waits {t : Session} (h : s.waits = true)
    (ht : s.happen (.resume true) = t) (k : Nat) :
    s.stepThrough (k + 1) = t.stepThrough k ∧
      s.pauseSpans (k + 1) = s.controller.status.span :: t.pauseSpans k := by
  have hnext : s.nextEvent = .resume true := by simp [nextEvent, h]
  simp [stepThrough, pauseSpans, hnext, h, ht]

/-- The run is held up at the boundary of a statement, with the given controls. -/
def heldUp (s : Session) (n : Node) (k : Controller) : Session :=
  Session.goto { s with controller := k } (.boundary .paused n)

lemma waits_heldUp {n : Node} {k : Controller} :
    (s.heldUp n k).waits = (!k.reporting && k.wait == .parked) := rfl

/-- From a pause that is due to be reported, four events lead to the moment at which the run goes
on: the pause is reported, the run looks for a token and finds none, gets one, and goes on. -/
lemma stepThrough_heldUp {n : Node} {k : Controller} (hstepping : k.stepping = true)
    (htoken : k.token = false) (hwait : k.wait = .polling) (hphase : k.phase = .paused)
    (hreporting : k.reporting = true) (hsturdy : k.fragile = false)
    (htold : k.cancelled = false) (j : Nat) :
    (s.heldUp n k).stepThrough (j + 4) = (Session.goto { s with controller :=
        { k.notify with phase := .running } } (.exec n)).stepThrough j ∧
      (s.heldUp n k).pauseSpans (j + 4) = k.span :: (Session.goto { s with controller :=
        { k.notify with phase := .running } } (.exec n)).pauseSpans j := by
  have hreport : (s.heldUp n k).step = s.heldUp n k.report := by
    rw [step_of_reporting hreporting, report_eq]
    exact if_neg (by simp [falters, heldUp, Session.goto, hsturdy])
  have hpoll : (s.heldUp n k.report).step =
      s.heldUp n { k.report with wait := .parked } := by
    rw [step_of_not_reporting (by rfl), proceed_boundary (p := .paused) rfl]
    simp [pass, wake, heldUp, Session.goto, Controller.report, Controller.notify, Controller.poll,
      hwait, htoken, htold]
  have hresume : (s.heldUp n { k.report with wait := .parked }).happen (.resume true) =
      s.heldUp n { k.report with wait := .granted } := by
    rw [happen_resume]
    simp [heldUp, Session.goto, Controller.report, Controller.notify, Controller.resume?,
      Controller.grant, Phase.isActive, hphase, hstepping]
  have hwake : (s.heldUp n { k.report with wait := .granted }).step =
      Session.goto { s with controller := { k.notify with phase := .running } } (.exec n) := by
    rw [step_of_not_reporting (by rfl), proceed_boundary (p := .paused) rfl]
    simp [pass, wake, heldUp, Session.goto, Machine.goto, Controller.report, Controller.notify,
      Controller.proceed, hphase, hwait, hreporting]
  obtain ⟨h₁, h₁'⟩ := stepThrough_succ (by simp [waits_heldUp, hreporting]) hreport (j + 3)
  obtain ⟨h₂, h₂'⟩ := stepThrough_succ
    (by simp [waits_heldUp, Controller.report, Controller.notify, hwait]) hpoll (j + 2)
  obtain ⟨h₃, h₃'⟩ := stepThrough_succ_of_waits
    (by simp [waits_heldUp, Controller.report]) hresume (j + 1)
  obtain ⟨h₄, h₄'⟩ := stepThrough_succ (by simp [waits_heldUp]) hwake j
  rw [h₁, h₁', h₂, h₂', h₃, h₃', h₄, h₄']
  exact ⟨rfl, rfl⟩

/-- A pause that is answered with a step is over after six events: the run pauses, is told to go on,
and reports that at last. -/
lemma stepThrough_of_admitted {n : Node} (h : Twin s c)
    (hn : s.machine.control = .boundary .admitted n) (hstepped : Stepped s.controller) :
    InStep (s.stepThrough 6) c ∧ s.pauseSpans 6 = [n.span] := by
  obtain ⟨⟨htold, -⟩, -⟩ := h.untold.resolve_left fun ⟨o, ho⟩ => by simp [hn] at ho
  have hpause : s.step = s.heldUp n
      { s.controller with span := n.span, phase := .paused, reporting := true } := by
    rw [step_of_not_reporting hstepped.reporting, proceed_boundary hn]
    simp [pass, heed, heldUp, hstepped.stepping, hstepped.token, hstepped.phase]
  obtain ⟨h₁, h₁'⟩ := stepThrough_succ (not_waits_of_not_paused (by simp [hn])) hpause 5
  obtain ⟨h₂, h₂'⟩ := stepThrough_heldUp (s := s) (n := n)
    (k := { s.controller with span := n.span, phase := .paused, reporting := true })
    hstepped.stepping hstepped.token hstepped.wait rfl rfl h.sturdy htold 1
  obtain ⟨h₃, h₃'⟩ := stepThrough_succ (s := Session.goto { s with controller :=
    { Controller.notify { s.controller with span := n.span, phase := .paused, reporting := true }
      with phase := .running } } (.exec n)) rfl (step_of_reporting rfl) 0
  refine ⟨?_, ?_⟩
  · rw [h₁, h₂, h₃]
    refine ⟨h.pass (k := _) hn ?_ ?_ ?_ (.inl rfl), ?_, .inr ?_⟩
    · rfl
    · rfl
    · exact id
    · rintro p n ⟨⟩
    · exact ⟨hstepped.stepping, hstepped.token, hstepped.wait, rfl, rfl⟩
  · rw [h₁', h₂', h₃']
    rfl

namespace InStep

/-- The runs stay together when they are over. -/
lemma of_ended (h : InStep s c) {o : Outcome} (ho : s.machine.control = .ended o) :
    InStep s.step c.step := by
  have hstays : ∀ {t : Session}, t.machine.control = .ended o →
      ∃ k, t.step = { t with controller := k } ∧ k.stepping = t.controller.stepping ∧
        k.fragile = t.controller.fragile := by
    intro t ht
    rcases step_of_ended ht with heq | heq
    · exact ⟨_, heq, rfl, rfl⟩
    · exact ⟨_, heq, rfl, rfl⟩
  obtain ⟨k, hs, -, hfragile⟩ := hstays ho
  obtain ⟨k', hc, hstepping, -⟩ := hstays ((h.twin.ended_iff o).mpr ho)
  rw [hs, hc]
  refine ⟨⟨?_, h.twin.sound, h.twin.sound', h.twin.aloof, hfragile.trans h.twin.sturdy,
    hstepping.trans h.twin.continuous, .inl ⟨o, ho⟩⟩, h.moving, .inl ⟨o, ho⟩⟩
  obtain ⟨k'', rfl⟩ := h.twin.same
  exact ⟨k', rfl⟩

/-- Away from statement boundaries both runs take a step. -/
lemma away (h : InStep s c) (hreach : ∀ n, s.machine.control ≠ .reach n) :
    InStep s.step c.step := by
  by_cases hended : ∃ o, s.machine.control = .ended o
  · obtain ⟨o, ho⟩ := hended
    exact h.of_ended ho
  · have hstepped := h.stepped.resolve_left hended
    have hmove := proceed_move false h.twin.sound
    rw [step_of_not_reporting hstepped.reporting]
    refine ⟨h.twin.both hstepped.reporting (fun o ho => hended ⟨o, ho⟩) hreach h.moving,
      hmove.not_boundary hreach h.moving, ?_⟩
    rcases controller_proceed h.twin.sound h.twin.aloof.control hstepped.reporting h.moving with
      heq | ⟨o, ho, -⟩
    · exact .inr (heq ▸ hstepped)
    · exact .inl ⟨o, ho⟩

/-- From a moment at which both are at the same place, the runs come to the next such moment.  The
one pauses if and only if the other begins a statement, and this does so at the end. -/
lemma round (h : InStep s c) :
    ∃ i j, 0 < i ∧ 0 < j ∧ InStep (s.stepThrough j) (c.after (List.replicate i .step)) ∧
      s.pauseSpans j = c.begunSpans i ∧
      ∀ i' < i, c.begunSpans i' = [] ∧
        (c.after (List.replicate i' .step)).outcome? = c.outcome? := by
  obtain ⟨hone, hpause⟩ := stepThrough_of_not_waits (not_waits_of_not_paused (h.moving .paused))
  have hbegun : c.begunSpans 1 = [] := by
    have hc : ∀ p n, c.machine.control ≠ .boundary p n := by
      rw [h.twin.machine_eq, awake_of_not_boundary h.moving]
      exact h.moving
    simp only [begunSpans, begunSpan]
    split
    · rename_i p n _ hn _
      exact absurd hn (hc p n)
    · rfl
  have htogether : InStep s.step c.step → ∃ i j, 0 < i ∧ 0 < j ∧
      InStep (s.stepThrough j) (c.after (List.replicate i .step)) ∧
      s.pauseSpans j = c.begunSpans i ∧
      ∀ i' < i, c.begunSpans i' = [] ∧
        (c.after (List.replicate i' .step)).outcome? = c.outcome? := by
    intro hnext
    refine ⟨1, 1, Nat.one_pos, Nat.one_pos, by rw [hone]; exact hnext, hpause.trans hbegun.symm,
      fun i' hi' => ?_⟩
    obtain rfl : i' = 0 := by omega
    exact ⟨rfl, rfl⟩
  by_cases hreach : ∃ n, s.machine.control = .reach n
  · obtain ⟨n, hn⟩ := hreach
    have hstepped := h.stepped.resolve_left (by simp [hn])
    have hstep := step_of_not_reporting hstepped.reporting
    rcases h.twin.arrives hn with ⟨⟨e, he⟩, heq, htwin⟩ | ⟨heq, i, c', hcrosses, htwin⟩
    · refine htogether ?_
      rw [hstep]
      exact ⟨htwin, by simp [he], .inr (heq ▸ hstepped)⟩
    · have hcontroller : s.proceed.controller = s.controller := by rw [heq]; rfl
      obtain ⟨hin, hspans⟩ := stepThrough_of_admitted htwin (by rw [heq]; rfl)
        (hcontroller ▸ hstepped)
      refine ⟨i, 1 + 6, hcrosses.pos, by omega, ?_, ?_, fun i' hi' => ?_⟩
      · rw [stepThrough_add, hone, hstep, hcrosses.after_eq]
        exact hin
      · rw [pauseSpans_add, hone, hstep, hpause, hspans, hcrosses.begunSpans_eq, List.nil_append]
      · obtain ⟨hspans, houtcome⟩ := hcrosses.before hi'
        exact ⟨hspans, houtcome.trans (hcrosses.before hcrosses.pos).2.symm⟩
  · exact htogether (h.away fun n hn => hreach ⟨n, hn⟩)

/-- After any number of events of the one run there is a moment at which the other is where it is,
and has begun all the statements before which the one has paused. -/
lemma rounds (h : InStep s c) (k : Nat) :
    ∃ i j, k ≤ j ∧ InStep (s.stepThrough j) (c.after (List.replicate i .step)) ∧
      s.pauseSpans j = c.begunSpans i := by
  induction k generalizing s c with
  | zero => exact ⟨0, 0, Nat.le_refl 0, h, rfl⟩
  | succ k ih =>
      obtain ⟨i, j, -, hj, hin, hspans, -⟩ := h.round
      obtain ⟨i', j', hj', hin', hspans'⟩ := ih hin
      refine ⟨i + i', j + j', by omega, ?_, ?_⟩
      · rw [stepThrough_add, ← List.replicate_append_replicate, after_append]
        exact hin'
      · rw [pauseSpans_add, begunSpans_add, hspans, hspans']

/-- After any number of steps of the other run, the one has been at a moment at which it had paused
before the same statements and was over if the other is. -/
lemma catches_up (h : InStep s c) (fuel : Nat) :
    ∃ k, s.pauseSpans k = c.begunSpans fuel ∧
      (s.stepThrough k).outcome? = (c.after (List.replicate fuel .step)).outcome? := by
  induction fuel using Nat.strongRecOn generalizing s c with
  | ind fuel ih =>
      obtain ⟨i, j, hi, -, hin, hspans, hbefore⟩ := h.round
      by_cases hfuel : fuel < i
      · obtain ⟨hnone, houtcome⟩ := hbefore fuel hfuel
        exact ⟨0, hnone.symm, h.twin.outcome?_eq.symm.trans houtcome.symm⟩
      · obtain ⟨rest, rfl⟩ := Nat.exists_eq_add_of_le (Nat.le_of_not_lt hfuel)
        obtain ⟨k, hk, houtcome⟩ := ih rest (by omega) hin
        refine ⟨j + k, ?_, ?_⟩
        · rw [pauseSpans_add, begunSpans_add, hspans, hk]
        · rw [stepThrough_add, houtcome, ← List.replicate_append_replicate, after_append]

end InStep

/-- A program that can be started with single-stepping can be started without, and when the
beginning has been reported, the runs are at the same place. -/
lemma exists_inStep {s₀ : Session} {program : Program} {plugins : List Plugin}
    {random : RandomSource} (hsturdy : s₀.controller.fragile = false)
    (haloof : ∀ p ∈ plugins, p.Aloof)
    (hs : s₀.launch program { stepping := true, plugins, random } = .ok s) :
    ∃ c, s₀.launch program { stepping := false, plugins, random } = .ok c ∧
      InStep s.step c.step ∧ Twin s c.step ∧ s.waits = false ∧ c.begunSpan = [] ∧
      s.outcome? = none ∧ c.outcome? = none := by
  have hsound := sound_launch hs
  have haloof' := aloof_launch haloof hs
  obtain ⟨machine, hm, rfl⟩ := launch_eq_ok.mp hs
  -- the mode has no part in the machine
  refine ⟨_, launch_eq_ok.mpr ⟨machine, hm, rfl⟩, ?_⟩
  obtain ⟨functions, -, rfl⟩ := freshMachine_eq_ok hm
  refine ⟨⟨⟨⟨_, rfl⟩, hsound, hsound, haloof', hsturdy, rfl, .inr ⟨⟨rfl, ?_⟩, rfl, rfl, rfl⟩⟩, ?_,
    .inr ⟨rfl, rfl, rfl, rfl, rfl⟩⟩, ⟨⟨_, rfl⟩, hsound, hsound, haloof', hsturdy, rfl,
    .inr ⟨⟨rfl, ?_⟩, rfl, rfl, rfl⟩⟩, rfl, rfl, rfl, rfl⟩
  · rintro ⟨⟩
  · rintro p n ⟨⟩
  · rintro ⟨⟩

/-- **Single-stepping does not change what a run does.**  Start a program with the builtin
functions from any session `s₀` whose observer does not break down, once with single-stepping and
once without.

* Let anything happen to the run that is single-stepped, in particular let its pauses be answered
  with a step or with going on, in any order and at any time.  If it ends and was not told to, then
  the continuous run ends with the same outcome, and the sessions show the same output and frames.
* If every pause is answered with a step, the statements shown at the pauses are those that the
  continuous run begins, each once and in the same order, and the run ends if that one does. -/
theorem stepping_same_run {s₀ s : Session} {program : Program} {random : RandomSource}
    (hook : s₀.controller.fragile = false)
    (hs : s₀.launch program { stepping := true, plugins := [Builtins.plugin], random } = .ok s) :
    ∃ c, s₀.launch program { stepping := false, plugins := [Builtins.plugin], random } = .ok c ∧
      (∀ es o, (∀ e ∈ es, e ≠ .stop ∧ e ≠ .cancel) → (s.after es).outcome? = some o →
        ∃ fuel, (c.advance fuel).outcome? = some o ∧
          (c.advance fuel).output = (s.after es).output ∧
          (c.advance fuel).snapshot? = (s.after es).snapshot?) ∧
      (∀ k, ∃ fuel, s.pauseSpans k = c.begunSpans fuel) ∧
      (∀ fuel, ∃ k, s.pauseSpans k = c.begunSpans fuel ∧
        (s.stepThrough k).outcome? = (c.advance fuel).outcome?) := by
  have hplugins : ∀ p ∈ [Builtins.plugin], p.Aloof := by
    simpa using Builtins.aloof_plugin
  obtain ⟨c, hc, hin, htwin, hwaits, hbegun, houtcome, houtcome'⟩ := exists_inStep hook hplugins hs
  obtain ⟨hone, hpause⟩ := stepThrough_of_not_waits hwaits
  have hlater : ∀ k, s.pauseSpans (1 + k) = s.step.pauseSpans k ∧
      s.stepThrough (1 + k) = s.step.stepThrough k := by
    intro k
    rw [pauseSpans_add, stepThrough_add, hone, hpause]
    exact ⟨rfl, rfl⟩
  have hlater' : ∀ k, c.begunSpans (k + 1) = c.step.begunSpans k := by
    intro k
    rw [begunSpans, hbegun, List.nil_append]
  refine ⟨c, hc, ?_, ?_, ?_⟩
  · intro es o hes ho
    obtain ⟨fuel, htwin⟩ := htwin.after hes
    have hadvance : c.step.after (List.replicate fuel .step) = c.advance (fuel + 1) :=
      (advance_eq_after (fuel + 1) c).symm
    rw [hadvance] at htwin
    have hsettled : Settled (s.after es) := Reachable.settled ⟨s₀, _, _, s, es, hs, rfl⟩
    have hsettled' : Settled (c.advance (fuel + 1)) :=
      Reachable.settled ⟨s₀, _, _, c, _, hc, advance_eq_after _ c⟩
    exact ⟨fuel + 1, htwin.outcome?_eq.trans ho, htwin.shows_same hsettled hsettled' ho⟩
  · intro k
    -- by the end of `k` rounds there have been all the pauses of the first `k` events, or more
    obtain ⟨i, j, hj, -, hspans⟩ := hin.rounds k
    apply begunSpans_of_prefix (k := i + 1)
    rw [hlater', ← hspans, ← (hlater j).1, ← Nat.add_sub_cancel' (show k ≤ 1 + j by omega),
      pauseSpans_add]
    exact List.prefix_append _ _
  · intro fuel
    cases fuel with
    | zero => exact ⟨0, rfl, houtcome.trans houtcome'.symm⟩
    | succ fuel =>
        obtain ⟨k, hspans, hsame⟩ := hin.catches_up fuel
        refine ⟨1 + k, ?_, ?_⟩
        · rw [(hlater k).1, hlater', hspans]
        · rw [(hlater k).2, hsame, advance_eq_after]
          rfl

/-- A program that makes a list, puts it into itself inside a conditional, and returns its
length. -/
def tally : Program where
  statements :=
    [.assignment (.point 1 1) (.identifier .none "xs") (.list .none []),
     .ifElse (.point 2 1) [.of .missing (.of .none
       [.call (.point 3 3) (some ⟨.none, "APPEND"⟩)
         [.identifier .none "xs", .identifier .none "xs"]])],
     .return (.point 4 1) (.call .none (some ⟨.none, "LENGTH"⟩) [.identifier .none "xs"])]

/-- The first pause is answered with a step, the second with going on. -/
def tallyAnswers : List Event :=
  List.replicate 6 Event.step ++ Event.resume true :: List.replicate 11 Event.step ++
    Event.resume false :: List.replicate 45 Event.step

set_option maxRecDepth 1000 in
/-- The program returns one in either mode, and the continuous run begins the statements before
which the other pauses. -/
theorem stepping_same_run_tally :
    ∃ s c, launch {} tally { stepping := true, plugins := [Builtins.plugin] } = .ok s ∧
      launch {} tally { stepping := false, plugins := [Builtins.plugin] } = .ok c ∧
      (s.after tallyAnswers).outcome? = some (.completed (.number (.ofNat 1))) ∧
      (∃ fuel, (c.advance fuel).outcome? = some (.completed (.number (.ofNat 1)))) ∧
      ∃ fuel, c.begunSpans fuel = [.point 1 1, .point 2 1, .point 3 3, .point 4 1] := by
  have hs : launch {} tally { stepping := true, plugins := [Builtins.plugin] } =
    .ok (begun tally { stepping := true, plugins := [Builtins.plugin] }) := rfl
  obtain ⟨c, hc, hends, hpauses, -⟩ := stepping_same_run rfl hs
  refine ⟨_, c, hs, hc, rfl, ?_, ?_⟩
  · obtain ⟨fuel, ho, -⟩ := hends tallyAnswers _ (by decide) rfl
    exact ⟨fuel, ho⟩
  · obtain ⟨fuel, hspans⟩ := hpauses 90
    exact ⟨fuel, hspans.symm⟩

end Session

end Pseudocode
