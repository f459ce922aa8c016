/-
# Step tokens

While a run is single-stepping, a statement at its boundary begins with a token.  A request to go on
leaves one if it asks for a single step or if the session is paused: it hands the token to a run
that waits, and stores it otherwise.  At most one is stored, and besides that one may have been
handed over.  Here the tokens are accounted for, whoever makes the requests and in whatever order
they come.

A request to step that the paused session accepts is meant to let one statement begin.  It does so
unless the run has been told to end before; if a host function has caught the failure of its wait,
the session is paused still, and it accepts requests that let nothing begin.

A statement that has been let past the look for word to end heeds the controls only after that.  If
a stop is accepted in between, the session is no longer shown as running, and the statement begins
without a token.

The main results are

* `Session.Attended.happen`: a session in the paused phase has a run that is held up, or one that
  has been told to end;
* `Session.Orderly.stepped_happen`: a statement uses up a token, and a request leaves no more than
  one;
* `Session.Orderly.beginnings_of_due`: what a run begins that is held up and has a token;
* `Session.step_accounting`: the account of a whole schedule, and what an accepted request to step
  lets begin;
* `Session.step_granted_in_vain`: a request that is accepted and lets nothing begin.
-/
import Pseudocode.Proofs.Halting
import Pseudocode.Proofs.Suspension

namespace Pseudocode

namespace Controller

variable {c : Controller}

/-- The tokens that are left: the one that is stored and the one with which a wait has ended. -/
def tokens (c : Controller) : Nat := c.token.toNat + (if c.wait = .granted then 1 else 0)

lemma tokens_cancel (c : Controller) : c.cancel.tokens = c.tokens := by
  unfold tokens cancel
  dsimp only
  split
  · rename_i hwait
    simp [hwait]
  · rfl

lemma tokens_requestStop (c : Controller) : c.requestStop.tokens = c.tokens := by
  unfold requestStop
  split
  · exact tokens_cancel _
  · rfl

lemma tokens_grant_le (c : Controller) : c.grant.tokens ≤ c.tokens + 1 := by
  unfold tokens grant
  split
  · rename_i hwait
    simp [hwait]
  · dsimp only
    have hle : c.token.toNat ≤ 1 := Bool.toNat_le _
    simp only [Bool.toNat_true]
    omega

/-- A request to go on leaves at most one token. -/
lemma tokens_resume?_le {c' : Controller} {stepping : Bool} (h : c.resume? stepping = some c') :
    c'.tokens ≤ c.tokens + 1 := by
  obtain ⟨-, rfl⟩ := resume?_eq_some h
  split
  · exact tokens_grant_le { c with stepping }
  · exact Nat.le_succ _

/-- A run that looks for a token takes the one that is stored. -/
lemma tokens_poll (h : c.wait = .polling) : c.poll.tokens = c.tokens := by
  unfold tokens poll
  split
  · rename_i htoken
    rw [Bool.and_eq_true] at htoken
    simp [htoken.1, h]
  · dsimp only
    split
    · simp [h]
    · simp [h]

/-- A run that goes on after a wait has used up the token. -/
lemma tokens_proceed (h : c.wait = .granted) : c.tokens = c.proceed.tokens + 1 := by
  simp [tokens, proceed, h]

lemma stepping_requestStop (c : Controller) : c.requestStop.stepping = c.stepping := by
  unfold requestStop
  split
  · rfl
  · rfl

end Controller

namespace Session

open Machine

variable {s : Session}

/-! ### Paused sessions -/

/-- A session in the paused phase has a run that is held up, or one that has been told to end. -/
def Attended (s : Session) : Prop :=
  s.controller.phase = .paused → s.isPaused = true ∨ s.controller.cancelled = true

theorem Attended.happen (h : Attended s) (hs : Sound s.machine) (hwait : Attentive s)
    (hook : s.controller.fragile = false) (e : Event) : Attended (s.happen e) := by
  cases hcancelled : s.controller.cancelled with
  | true => exact fun _ => .inr (cancelled_happen hs hcancelled e)
  | false =>
      have hsuspended : Suspended s := fun hphase =>
        (h hphase).resolve_right (by simp [hcancelled])
      have hwhole : ¬ BreaksOff s := by
        intro hb
        have htold := hwait.controller.dismissed hb.wait
        simp [hcancelled] at htold
      intro hphase
      by_cases he : e = .step
      · subst he
        exact .inl (hsuspended.step hs hook hwhole hphase)
      · exact .inl (hsuspended.command he hphase)

/-- What the account of the tokens rests on. -/
structure Orderly (s : Session) : Prop where
  sound : Sound s.machine
  sturdy : s.controller.fragile = false
  attentive : Attentive s
  attended : Attended s
  told : Told s.controller
  /-- A statement that has been let past the look for word to end belongs to a run that is shown as
  running, or has been asked to stop since. -/
  shown : ∀ n, s.machine.control = .boundary .admitted n →
    s.controller.phase = .running ∨ s.controller.phase = .stopping

/-- A run that reaches a statement is shown as running until it is told to end. -/
lemma Orderly.running (h : Orderly s) {n : Node} (hc : s.machine.control = .reach n)
    (hcancelled : s.controller.cancelled = false) : s.controller.phase = .running := by
  cases hphase : s.controller.phase with
  | running => rfl
  | paused =>
      have hwaits := h.attended hphase
      simp [isPaused, hc, hcancelled] at hwaits
  | _ =>
      have htold := h.told (by simp [hphase, Phase.isActive])
      simp [hcancelled] at htold

/-- What happens aside does not let a statement past the look for word to end. -/
lemma Aside.of_admitted {t : Session} (h : Aside s t) {n : Node}
    (hn : t.machine.control = .boundary .admitted n) :
    s.machine.control = .boundary .admitted n := by
  cases h with
  | controls c => exact hn
  | release control => cases hn
  | falter c falters => cases hn

/-- Aside, the phase changes only by a request to stop. -/
lemma phase_of_not_goesOn {e : Event} (hgoes : s.goesOn e = false) :
    (s.happen e).controller.phase = s.controller.phase ∨
      e = .stop ∧ (s.happen e).controller.phase = .stopping := by
  by_cases he : e = .step
  · subst he
    refine .inl (step_cases (P := fun t => t.controller.phase = s.controller.phase)
      (fun _ _ => rfl) (fun _ _ => rfl) fun hr => ?_)
    simp [goesOn, hr] at hgoes
  · rcases (phase_of_command he).1 with hsame | ⟨hstop, -, hstopping⟩
    · exact .inl hsame
    · exact .inr ⟨hstop, hstopping⟩

lemma Orderly.shown_happen (h : Orderly s) (e : Event) {n : Node}
    (hn : (s.happen e).machine.control = .boundary .admitted n) :
    (s.happen e).controller.phase = .running ∨ (s.happen e).controller.phase = .stopping := by
  rcases happen_cases s e with ⟨-, heq⟩ | ⟨hgoes, haside⟩
  · rw [heq] at hn ⊢
    have hstands := stands_of_proceed h.sound hn
    generalize s.proceed = t at hstands ⊢
    cases hstands with
    | reaches control untold controller =>
        rw [controller]
        exact .inl (h.running control untold)
  · rcases phase_of_not_goesOn hgoes with hsame | ⟨-, hstopping⟩
    · rw [hsame]
      exact h.shown n (haside.of_admitted hn)
    · exact .inr hstopping

lemma Orderly.happen (h : Orderly s) (e : Event) : Orderly (s.happen e) where
  sound := sound_happen h.sound e
  sturdy := (fragile_happen h.sound e).trans h.sturdy
  attentive := h.attentive.happen h.sound e
  attended := h.attended.happen h.sound h.attentive h.sturdy e
  told := h.told.happen h.sound e
  shown _ hn := h.shown_happen e hn

lemma Orderly.after (h : Orderly s) (es : List Event) : Orderly (s.after es) :=
  after_induction (fun _ e h => h.happen e) h es

lemma orderly_launch {s₀ : Session} {program : Program} {l : Launch}
    (h : s₀.launch program l = .ok s) (hook : s.controller.fragile = false) : Orderly s := by
  have hreachable : s.Reachable := ⟨s₀, program, l, s, [], h, rfl⟩
  refine ⟨sound_launch h, hook, hreachable.attentive, ?_, hreachable.told, ?_⟩
  · obtain ⟨machine, -, rfl⟩ := launch_eq_ok.mp h
    intro hphase
    cases hphase
  · obtain ⟨machine, hm, rfl⟩ := launch_eq_ok.mp h
    obtain ⟨functions, -, rfl⟩ := freshMachine_eq_ok hm
    rintro n ⟨⟩

/-! ### Requests and statements -/

/-- The request to go on that an event makes, from outside or by a host function: whether it asks
for single-stepping. -/
def request? (s : Session) (e : Event) : Option Bool :=
  match e with
  | .resume stepping => some stepping
  | .step =>
      match s.controller.reporting, s.machine.control with
      | false, .host _ (.ask (.resume stepping) _) => some stepping
      | _, _ => none
  | _ => none

/-- An event makes a request to go on, and it is accepted. -/
def accepts (s : Session) (e : Event) : Bool :=
  (s.request? e).any fun stepping => (s.controller.resume? stepping).isSome

/-- How many requests to go on are accepted during a schedule. -/
def requests : Session → List Event → Nat
  | _, [] => 0
  | s, e :: es => (s.accepts e).toNat + (s.happen e).requests es

/-- A statement stands at a boundary that was reached while single-stepping.  Only there is one held
up. -/
def isStepwise (s : Session) : Bool :=
  match s.machine.control with
  | .boundary .admitted _ => s.controller.stepping
  | .boundary .paused _ => true
  | _ => false

/-- The statements that begin during a schedule at boundaries reached while single-stepping. -/
def stepped : Session → List Event → List Node
  | _, [] => []
  | s, e :: es => (if s.isStepwise then s.beginning e else []) ++ (s.happen e).stepped es

/-- A stop has been accepted after a statement was let past the look for word to end and before it
heeds the controls. -/
def isOvertaken (s : Session) : Bool :=
  match s.machine.control with
  | .boundary .admitted _ => s.controller.phase == .stopping
  | _ => false

/-! ### The account -/

/-- No event leaves a token but an accepted request, and that leaves one. -/
lemma tokens_happen (hs : Sound s.machine) (e : Event) :
    (s.happen e).controller.tokens ≤ s.controller.tokens + (s.accepts e).toNat := by
  have hsame : ∀ {c : Controller}, c.tokens = s.controller.tokens →
      c.tokens ≤ s.controller.tokens + (s.accepts e).toNat := by
    intro c hc
    omega
  by_cases he : e = .step
  · subst he
    refine step_cases
      (P := fun t => t.controller.tokens ≤ s.controller.tokens + (s.accepts .step).toNat)
      (fun _ _ => hsame rfl) (fun _ _ => hsame rfl) fun hgoes => ?_
    cases proceed_turn hs with
    | report reporting _ _ => simp [hgoes] at reporting
    | pass _ _ controller _ =>
        rw [controller]
        simp only [Controller.tokens]
        have hle : (s.controller.token && !s.controller.stepping).toNat ≤
            s.controller.token.toNat := by
          cases s.controller.token with
          | false => simp
          | true => exact Bool.toNat_le _
        omega
    | poll _ wait controller _ => exact hsame (by rw [controller, Controller.tokens_poll wait])
    | wake _ wait controller _ =>
        have htokens := Controller.tokens_proceed wait
        rw [controller]
        omega
    | dismiss _ wait controller _ => exact hsame (by simp [controller, Controller.tokens, wait])
    | stop _ controller _ =>
        refine hsame ?_
        rw [controller]
        exact Controller.tokens_requestStop s.controller
    | resume control controller _ =>
        have haccepts : s.accepts .step = true := by
          simp [accepts, request?, hgoes, control, controller]
        rw [haccepts]
        exact Controller.tokens_resume?_le controller
    | aside controller _ _ | slow _ _ controller _ | pause _ _ _ _ controller _
    | setSpeed _ controller _ | settle _ _ controller _ | finish _ controller _ =>
        rw [controller]
        exact hsame rfl
  · have hcommand := s.command he
    generalize (s.happen e).controller = c at hcommand ⊢
    cases hcommand with
    | stop _ => exact hsame (Controller.tokens_requestStop s.controller)
    | cancel => exact hsame (Controller.tokens_cancel s.controller)
    | resume accepted =>
        have haccepts : ∀ stepping, s.controller.resume? stepping = some c →
            s.accepts (.resume stepping) = true := by
          intro stepping h
          simp [accepts, request?, h]
        rw [haccepts _ accepted]
        exact Controller.tokens_resume?_le accepted
    | aside | report _ | setSpeed _ | favour _ => exact hsame rfl

lemma tokens_after (hs : Sound s.machine) (es : List Event) :
    (s.after es).controller.tokens ≤ s.controller.tokens + s.requests es := by
  induction es generalizing s with
  | nil => exact Nat.le_refl _
  | cons e es ih =>
      have hfirst := tokens_happen hs e
      have hrest := ih (sound_happen hs e)
      rw [after_cons, requests]
      omega

/-- A statement at a boundary that was reached while single-stepping uses up a token to begin,
unless a stop has overtaken it. -/
lemma Orderly.tokens_of_exec (h : Orderly s) (hstepwise : s.isStepwise = true) {n : Node}
    (hn : s.proceed.machine.control = .exec n) :
    s.controller.tokens = s.proceed.controller.tokens + 1 ∨ s.isOvertaken = true := by
  unfold isStepwise at hstepwise
  split at hstepwise
  · rename_i n' hc
    have hheeding := heeding_proceed hc
    generalize s.proceed = t at hn hheeding ⊢
    cases hheeding with
    | begun token _ controller =>
        rcases token hstepwise with htoken | hphase
        · left
          rw [controller_goto, controller]
          simp only [Controller.tokens, htoken, hstepwise]
          simp only [Bool.not_true, Bool.and_false, Bool.toNat_true, Bool.toNat_false]
          omega
        · right
          have hstopping := (h.shown n' hc).resolve_left hphase
          simp [isOvertaken, hc, hstopping]
    | slowed stepping _ _ => simp [hstepwise] at stepping
    | pauses _ _ _ _ => cases hn
  · rename_i n' hc
    have hwaking := waking_proceed hc
    generalize s.proceed = t at hn hwaking ⊢
    cases hwaking with
    | polls _ | waits _ => simp [hc] at hn
    | begun wait => exact .inl (Controller.tokens_proceed wait)
    | told _ => cases hn
  · cases hstepwise

/-- One event: what begins and what is left of tokens was there before or is asked for. -/
theorem Orderly.stepped_happen (h : Orderly s) (e : Event) :
    (if s.isStepwise then s.beginning e else []).length + (s.happen e).controller.tokens ≤
      s.controller.tokens + (s.accepts e).toNat + s.isOvertaken.toNat := by
  have hle := tokens_happen h.sound e
  by_cases hbegins : s.isStepwise = true ∧ ∃ n, n ∈ s.beginning e
  · obtain ⟨hstepwise, n, hn⟩ := hbegins
    rcases happen_cases s e with ⟨-, heq⟩ | ⟨-, haside⟩
    · obtain ⟨⟨p, n', hc⟩, hexec⟩ := mem_beginning.mp hn
      have htokens := h.tokens_of_exec hstepwise (heq ▸ hexec)
      rw [if_pos hstepwise, beginning_of_exec hc hexec, List.length_singleton]
      rcases htokens with htokens | hovertaken
      · rw [← heq] at htokens
        omega
      · rw [hovertaken, Bool.toNat_true]
        omega
    · simp [(beginning_aside haside).1] at hn
  · have hnone : (if s.isStepwise then s.beginning e else []) = [] := by
      split
      · rename_i hstepwise
        rw [List.eq_nil_iff_forall_not_mem]
        exact fun n hn => hbegins ⟨hstepwise, n, hn⟩
      · rfl
    rw [hnone, List.length_nil]
    omega

/-- As long as no stop overtakes a statement, no more of them have begun than there were tokens and
accepted requests. -/
lemma Orderly.stepped_le (h : Orderly s) {es : List Event}
    (hes : ∀ es', es' <+: es → (s.after es').isOvertaken = false) :
    (s.stepped es).length + (s.after es).controller.tokens ≤
      s.controller.tokens + s.requests es := by
  induction es generalizing s with
  | nil => simp [stepped, requests]
  | cons e es ih =>
      have hfirst := h.stepped_happen e
      have hnone : s.isOvertaken = false := hes [] List.nil_prefix
      rw [hnone] at hfirst
      have hrest := ih (h.happen e) fun es' hes' =>
        hes (e :: es') (List.cons_prefix_cons.mpr ⟨rfl, hes'⟩)
      rw [stepped, requests, List.length_append, after_cons]
      simp only [Bool.toNat_false] at hfirst
      omega

/-- What begins at boundaries reached while single-stepping is some of what begins. -/
lemma stepped_sublist (s : Session) (es : List Event) :
    (s.stepped es).Sublist (s.beginnings es) := by
  induction es generalizing s with
  | nil => exact List.Sublist.refl _
  | cons e es ih =>
      rw [stepped, beginnings]
      refine List.Sublist.append ?_ (ih _)
      split
      · exact List.Sublist.refl _
      · exact List.nil_sublist _

/-- A run of which a statement has been overtaken begins at most that one. -/
lemma Orderly.stepped_of_overtaken (h : Orderly s) (hs : s.Reachable) (ho : s.isOvertaken = true)
    (es : List Event) : (s.stepped es).length ≤ 1 := by
  unfold isOvertaken at ho
  split at ho
  · rename_i n hc
    have hcancelled := h.told (by simp [eq_of_beq ho, Phase.isActive])
    have hbegun := beginnings_of_cancelled hs hcancelled es
    rw [underWay_of_admitted hc] at hbegun
    exact ((stepped_sublist s es).trans hbegun).length_le
  · cases ho

/-- A stop overtakes at most one statement. -/
lemma Orderly.stepped_le_succ (h : Orderly s) (hs : s.Reachable) (es : List Event) :
    (s.stepped es).length + (s.after es).controller.tokens ≤
      s.controller.tokens + s.requests es + 1 := by
  induction es generalizing s with
  | nil => simp [stepped, requests]
  | cons e es ih =>
      cases ho : s.isOvertaken with
      | true =>
          have hbegun := h.stepped_of_overtaken hs ho (e :: es)
          have htokens := tokens_after h.sound (e :: es)
          omega
      | false =>
          have hfirst := h.stepped_happen e
          have hrest := ih (h.happen e) (hs.after [e])
          rw [ho, Bool.toNat_false] at hfirst
          rw [stepped, requests, List.length_append, after_cons]
          omega

/-! ### One request -/

/-- During the schedule nobody makes a request to go on, and the run is not told from outside to
end. -/
def Unasked : Session → List Event → Prop
  | _, [] => True
  | s, e :: es => s.request? e = none ∧ e ≠ .stop ∧ e ≠ .cancel ∧ (s.happen e).Unasked es

/-- Only a request to go on switches single-stepping on or off. -/
lemma stepping_happen (hs : Sound s.machine) {e : Event} (hask : s.request? e = none) :
    (s.happen e).controller.stepping = s.controller.stepping := by
  by_cases he : e = .step
  · subst he
    refine step_cases (P := fun t => t.controller.stepping = s.controller.stepping)
      (fun _ _ => rfl) (fun _ _ => rfl) fun hgoes => ?_
    cases proceed_turn hs with
    | report reporting _ _ => simp [hgoes] at reporting
    | poll _ _ controller _ => rw [controller, Controller.poll_eq]
    | stop _ controller _ =>
        rw [controller]
        exact Controller.stepping_requestStop s.controller
    | resume control _ _ => simp [request?, hgoes, control] at hask
    | aside controller _ _ | pass _ _ controller _ | slow _ _ controller _
    | pause _ _ _ _ controller _ | dismiss _ _ controller _ | settle _ _ controller _ =>
        rw [controller]
    | wake _ _ controller _ | setSpeed _ controller _ | finish _ controller _ =>
        rw [controller]
        rfl
  · have hcommand := s.command he
    generalize (s.happen e).controller = c at hcommand ⊢
    cases hcommand with
    | stop _ => exact Controller.stepping_requestStop s.controller
    | resume _ => cases hask
    | aside | report _ | cancel | setSpeed _ | favour _ => rfl

/-- A run that is single-stepping and has not been overtaken by a stop. -/
structure Paces (s : Session) : Prop where
  stepping : s.controller.stepping = true
  admitted : ∀ n, s.machine.control = .boundary .admitted n → s.controller.phase = .running
  /-- It is not slowed down. -/
  unslowed : ∀ p n, s.machine.control = .boundary p n → p = .admitted ∨ p = .paused

/-- A run that is single-stepping goes on so until it is told otherwise. -/
lemma Paces.happen (h : Paces s) (hs : Orderly s) {e : Event} (hask : s.request? e = none)
    (hstop : e ≠ .stop) : Paces (s.happen e) := by
  refine ⟨(stepping_happen hs.sound hask).trans h.stepping, fun n hn => ?_, fun p n hn => ?_⟩
  · rcases happen_cases s e with ⟨-, heq⟩ | ⟨hgoes, haside⟩
    · rw [heq] at hn ⊢
      have hstands := stands_of_proceed hs.sound hn
      generalize s.proceed = t at hstands ⊢
      cases hstands with
      | reaches control untold controller =>
          rw [controller]
          exact hs.running control untold
    · rw [(phase_of_not_goesOn hgoes).resolve_right fun h => hstop h.1]
      exact h.admitted n (haside.of_admitted hn)
  · rcases happen_cases s e with ⟨-, heq⟩ | ⟨-, haside⟩
    · rw [heq] at hn
      have hstands := stands_of_proceed hs.sound hn
      generalize s.proceed = t at hstands
      cases hstands with
      | reaches _ _ _ => exact .inl rfl
      | slows _ stepping => simp [h.stepping] at stepping
      | passes control _ => simpa using h.unslowed _ _ control
      | pauses _ _ _ | polls _ _ _ | waits _ _ => exact .inr rfl
    · generalize s.happen e = t at hn haside
      cases haside with
      | controls c => exact h.unslowed p n hn
      | release control => cases hn
      | falter c falters => cases hn

/-- While single-stepping every statement uses up a token. -/
lemma Paces.beginning_le (h : Paces s) (hs : Orderly s) {e : Event} (hask : s.request? e = none) :
    (s.beginning e).length + (s.happen e).controller.tokens ≤ s.controller.tokens := by
  have hle := hs.stepped_happen e
  have haccepts : s.accepts e = false := by simp [accepts, hask]
  have hovertaken : s.isOvertaken = false := by
    unfold isOvertaken
    split
    · rename_i n hc
      simp [h.admitted n hc]
    · rfl
  have hstepwise : (if s.isStepwise then s.beginning e else []) = s.beginning e := by
    by_cases hboundary : ∃ p n, s.machine.control = .boundary p n
    · obtain ⟨p, n, hc⟩ := hboundary
      refine if_pos ?_
      rcases h.unslowed p n hc with rfl | rfl
      · simp [isStepwise, hc, h.stepping]
      · simp [isStepwise, hc]
    · rw [beginning_eq_nil fun hb => absurd hb hboundary]
      exact ite_self _
  rw [hstepwise, haccepts, hovertaken] at hle
  exact hle

/-- Without requests, no more begins than there are tokens. -/
lemma Paces.beginnings_le (h : Paces s) (hs : Orderly s) {es : List Event} (hes : s.Unasked es) :
    (s.beginnings es).length ≤ s.controller.tokens := by
  induction es generalizing s with
  | nil => exact Nat.zero_le _
  | cons e es ih =>
      obtain ⟨hask, hstop, -, hrest⟩ := hes
      have hfirst := h.beginning_le hs hask
      have hlater := ih (h.happen hs hask hstop) (hs.happen e) hrest
      rw [beginnings, List.length_append]
      omega

/-- A run that is single-stepping and held up has a token and has not been told to end. -/
structure Due (s : Session) (n : Node) : Prop where
  control : s.machine.control = .boundary .paused n
  stepping : s.controller.stepping = true
  untold : s.controller.cancelled = false
  token : s.controller.wait = .granted ∨ s.controller.wait = .polling ∧ s.controller.token = true

lemma Due.paces {n : Node} (h : Due s n) : Paces s where
  stepping := h.stepping
  admitted n' hc := by simp [h.control] at hc
  unslowed p n' hc := by
    rw [h.control, Control.boundary.injEq] at hc
    exact .inr hc.1.symm

/-- Nothing that matters to a run with a token changes by a command that is neither a request to go
on nor tells the run to end. -/
lemma Due.command {n : Node} (h : Due s n) {e : Event} (he : e ≠ .step)
    (hask : s.request? e = none) (hstop : e ≠ .stop) (hcancel : e ≠ .cancel) :
    Due (s.happen e) n ∧ (s.happen e).controller.tokens = s.controller.tokens ∧
      (s.happen e).lag = s.lag := by
  have hmachine : (s.happen e).machine = s.machine := machine_of_command (by simp) h.control he
  have hcommand := s.command he
  have hcontrol : (s.happen e).machine.control = .boundary .paused n := by rw [hmachine, h.control]
  generalize hc : (s.happen e).controller = c at hcommand
  have hdue : c.stepping = s.controller.stepping → c.cancelled = s.controller.cancelled →
      c.wait = s.controller.wait → c.token = s.controller.token →
      c.reporting = s.controller.reporting →
      Due (s.happen e) n ∧ c.tokens = s.controller.tokens ∧ (s.happen e).lag = s.lag := by
    intro hstepping hcancelled hwait htoken hreporting
    refine ⟨⟨hcontrol, ?_, ?_, ?_⟩, ?_, ?_⟩
    · rw [hc, hstepping, h.stepping]
    · rw [hc, hcancelled, h.untold]
    · rw [hc, hwait, htoken]
      exact h.token
    · rw [Controller.tokens, Controller.tokens, hwait, htoken]
    · rw [lag, lag, hc, hwait, hreporting]
  cases hcommand with
  | stop _ => exact absurd rfl hstop
  | cancel => exact absurd rfl hcancel
  | resume _ => cases hask
  | aside | report _ | setSpeed _ | favour _ => exact hdue rfl rfl rfl rfl rfl

/-- A run with a token reports, takes the token and begins the statement at which it is held up. -/
lemma Due.step {n : Node} (h : Due s n) (hs : Orderly s) :
    (0 < s.lag ∧ Due s.step n ∧ s.step.controller.tokens = s.controller.tokens ∧
        s.lag = s.step.lag + 1) ∨
      s.lag = 0 ∧ s.step.machine.control = .exec n ∧
        s.controller.tokens = s.step.controller.tokens + 1 := by
  have hfalters : s.falters = false := by simp [falters, hs.sturdy]
  cases hr : s.controller.reporting with
  | true =>
      have hwait := hs.attentive.wait_eq_polling (.inr hr)
      have hstep : s.step = s.reported := by
        rw [step_of_reporting hr, report_eq, hfalters]
        rfl
      rw [hstep]
      refine .inl ⟨by simp [lag, hr], ⟨h.control, h.stepping, h.untold, h.token⟩, rfl, ?_⟩
      simp [lag, hr, hwait, reported, Controller.report, Controller.notify]
  | false =>
      rw [step_of_not_reporting hr, proceed_boundary h.control]
      rcases h.token with hwait | ⟨hwait, htoken⟩
      · refine .inr ⟨by simp [lag, hr, hwait], ?_, ?_⟩
        · simp [pass, wake, hwait]
        · simp only [pass, wake, hwait]
          exact Controller.tokens_proceed hwait
      · have hpoll : s.controller.poll =
            { s.controller with token := false, wait := .granted } := by
          simp [Controller.poll, htoken, h.untold]
        have hpass : s.pass n .paused =
            { s with controller := { s.controller with token := false, wait := .granted } } := by
          simp only [pass, wake, hwait, hpoll]
        rw [hpass]
        refine .inl ⟨by simp [lag, hwait], ⟨h.control, h.stepping, h.untold, .inl rfl⟩, ?_, ?_⟩
        · simp [Controller.tokens, htoken, hwait]
        · simp [lag, hr, hwait]

/-- A run that is held up and has a token begins the statement as soon as it has taken a few steps,
and after that as many as there are further tokens, at most. -/
lemma Orderly.beginnings_of_due (h : Orderly s) {n : Node} (hn : Due s n) {es : List Event}
    (hes : s.Unasked es) :
    ∃ ns : List Node, ns.length < s.controller.tokens ∧
      s.beginnings es = if s.lag < es.count .step then n :: ns else [] := by
  have hpos : 0 < s.controller.tokens := by
    rcases hn.token with hwait | ⟨-, htoken⟩
    · simp [Controller.tokens, hwait]
    · simp [Controller.tokens, htoken]
  induction es generalizing s with
  | nil => exact ⟨[], hpos, by simp [beginnings]⟩
  | cons e es ih =>
      obtain ⟨hask, hstop, hcancel, hrest⟩ := hes
      by_cases he : e = .step
      · subst he
        have hdue := hn.step h
        rcases hdue with ⟨-, hdue, htokens, hlag⟩ | ⟨hlag, hexec, htokens⟩
        · obtain ⟨ns, hns, hbegins⟩ := ih (h.happen .step) hdue hrest (htokens ▸ hpos)
          refine ⟨ns, htokens ▸ hns, ?_⟩
          have hnil : s.beginning .step = [] := by
            refine beginning_eq_nil fun _ n' hn' => ?_
            have hcontrol := hdue.control
            rw [show s.step = s.happen .step from rfl, hn'] at hcontrol
            cases hcontrol
          rw [beginnings, hnil, List.nil_append, hbegins, List.count_cons_self, hlag]
          simp only [Nat.add_lt_add_iff_right]
          rfl
        · -- the statement begins, and from then on the tokens that are left bound what begins
          have hpaces : Paces (s.happen .step) := hn.paces.happen h hask (by simp)
          have hle := hpaces.beginnings_le (h.happen .step) hrest
          refine ⟨(s.happen .step).beginnings es, ?_, ?_⟩
          · rw [htokens]
            exact Nat.lt_succ_of_le hle
          · rw [beginnings, beginning_of_exec (e := .step) hn.control hexec, hlag,
              List.count_cons_self]
            simp
      · obtain ⟨hdue, htokens, hlag⟩ := hn.command he hask hstop hcancel
        obtain ⟨ns, hns, hbegins⟩ := ih (h.happen e) hdue hrest (htokens ▸ hpos)
        refine ⟨ns, htokens ▸ hns, ?_⟩
        rw [beginnings, beginning_command he, List.nil_append, hbegins, hlag,
          List.count_cons_of_ne he]

/-- A request to step that is made while the session is paused and has not been told to end leaves
the run with a token for the statement at which it is held up. -/
lemma Orderly.due_of_resume (h : Orderly s) (hphase : s.controller.phase = .paused)
    (hcancelled : s.controller.cancelled = false) {n : Node}
    (hn : s.machine.control = .boundary .paused n) :
    Due (s.happen (.resume true)) n ∧
      (s.happen (.resume true)).controller.tokens =
        if s.controller.wait = .granted then 2 else 1 := by
  have hactive : s.controller.phase.isActive = true := by simp [hphase, Phase.isActive]
  have hresume : s.happen (.resume true) =
      { s with controller := { s.controller with stepping := true }.grant } := by
    rw [happen_resume]
    simp [Controller.resume?, hactive]
  have hwait : s.controller.wait ≠ .dismissed := by
    intro hwait
    have htold := h.attentive.controller.dismissed hwait
    simp [hcancelled] at htold
  have hparked := h.attentive.controller.parked
  rw [hresume]
  refine ⟨⟨hn, ?_, ?_, ?_⟩, ?_⟩
  · rw [Controller.grant_eq]
  · rw [Controller.grant_eq]
    exact hcancelled
  · unfold Controller.grant
    cases hcase : s.controller.wait with
    | dismissed => exact absurd hcase hwait
    | parked | polling | granted => simp
  · unfold Controller.tokens Controller.grant
    cases hcase : s.controller.wait with
    | dismissed => exact absurd hcase hwait
    | parked => simp [(hparked hcase).2]
    | polling | granted => simp

/-- **Steps are accounted for.**  Follow any schedule `es` of commands and steps from the start of a
run, with any host functions, which may make requests themselves.  The observer does not break down.

* A statement at a boundary reached while single-stepping uses up a token to begin, unless a stop
  was accepted between its look for word to end and its look at the controls.
* A token is left by an accepted request, and by nothing else.
* So no more statements have begun at such boundaries than requests have been accepted, unless a
  stop overtook one; a token that is left is one of those.
* A stop overtakes at most one statement.
* A request to step that is made while the session is paused is accepted.  If the run has not been
  told to end, it is held up at some statement.  As long as no other request follows, this statement
  begins as soon as the run has reported its pause and looked for the token, and no other one
  begins; but if the run had got a token before that request, the statement after it may begin as
  well.
* If it has been told to end, nothing begins any more but what was under way. -/
theorem step_accounting {s₀ t : Session} {program : Program} {l : Launch}
    (ht : s₀.launch program l = .ok t) (hook : t.controller.fragile = false) (es : List Event) :
    let s := t.after es
    (∀ n, s.isStepwise = true → n ∈ s.beginning .step →
      s.controller.tokens = s.step.controller.tokens + 1 ∨ s.isOvertaken = true) ∧
    (∀ e, (s.happen e).controller.tokens ≤ s.controller.tokens + (s.accepts e).toNat) ∧
    ((∀ es', es' <+: es → (t.after es').isOvertaken = false) →
      (t.stepped es).length + s.controller.tokens ≤ t.requests es) ∧
    (t.stepped es).length + s.controller.tokens ≤ t.requests es + 1 ∧
    (s.controller.phase = .paused → ∀ e, s.request? e = some true →
      s.accepts e = true ∧
      (s.controller.cancelled = false → ∃ n, s.machine.control = .boundary .paused n ∧
        ∀ es', (s.happen e).Unasked es' →
          let begins := (s.happen e).lag < es'.count .step
          (s.controller.wait ≠ .granted →
            (s.happen e).beginnings es' = if begins then [n] else []) ∧
          (s.controller.wait = .granted → ∃ ns : List Node, ns.length ≤ 1 ∧
            (s.happen e).beginnings es' = if begins then n :: ns else [])) ∧
      (s.controller.cancelled = true →
        ∀ es', ((s.happen e).beginnings es').Sublist s.underWay)) := by
  intro s
  have hreachable : s.Reachable := ⟨s₀, program, l, t, es, ht, rfl⟩
  have hlaunch := orderly_launch ht hook
  have hs : Orderly s := hlaunch.after es
  have hempty : t.controller.tokens = 0 := by
    obtain ⟨machine, -, rfl⟩ := launch_eq_ok.mp ht
    rfl
  refine ⟨fun n hstepwise hn => ?_, tokens_happen hs.sound, fun hes => ?_, ?_,
    fun hphase e hask => ⟨?_, ?_, ?_⟩⟩
  · rcases happen_cases s .step with ⟨-, heq⟩ | ⟨-, haside⟩
    · have hexec := (mem_beginning.mp hn).2
      rw [heq] at hexec
      rw [show s.step = s.proceed from heq]
      exact hs.tokens_of_exec hstepwise hexec
    · simp [(beginning_aside haside).1] at hn
  · have hle := hlaunch.stepped_le hes
    rwa [hempty, Nat.zero_add] at hle
  · have hle := hlaunch.stepped_le_succ ⟨s₀, program, l, t, [], ht, rfl⟩ es
    rwa [hempty, Nat.zero_add] at hle
  · simp [accepts, hask, Controller.resume?, hphase, Phase.isActive]
  · intro hcancelled
    obtain ⟨n, hn⟩ := isPaused_iff.mp ((hs.attended hphase).resolve_right (by simp [hcancelled]))
    refine ⟨n, hn, fun es' hes' => ?_⟩
    -- while the run is held up, no host function can make the request
    have he : e = .resume true := by
      cases e with
      | resume stepping => simpa [request?] using hask
      | step => simp [request?, hn] at hask
      | _ => simp [request?] at hask
    subst he
    obtain ⟨hdue, htokens⟩ := hs.due_of_resume hphase hcancelled hn
    obtain ⟨ns, hns, hbegins⟩ := (hs.happen _).beginnings_of_due hdue hes'
    rw [htokens] at hns
    refine ⟨fun hwait => ?_, fun hwait => ⟨ns, ?_, hbegins⟩⟩
    · rw [if_neg hwait, Nat.lt_one_iff, List.length_eq_zero_iff] at hns
      rw [hbegins, hns]
    · rw [if_pos hwait] at hns
      omega
  · intro hcancelled es'
    have hbegun := beginnings_of_cancelled hreachable hcancelled (e :: es')
    rw [beginnings] at hbegun
    exact (List.sublist_append_right _ _).trans hbegun

/-- A host function that asks for two steps. -/
def eager : Native :=
  fun _ => .ask (.resume true) fun _ => .ask (.resume true) fun _ => .pure .nothing

/-- A program that calls it. -/
def hurried : Program where
  statements := [.call (.point 1 1) (some ⟨.none, "EAGER"⟩) [], .pass (.point 2 1),
    .pass (.point 3 1)]

def hurriedLaunch : Launch where
  stepping := true
  plugins := [{ functions := [("EAGER", eager)] }]

/-- The run waits at its first statement and is let go on, until it waits again. -/
def hurriedSteps : List Event :=
  List.replicate 6 Event.step ++ Event.resume true :: List.replicate 21 Event.step

/-- The host function makes two requests and leaves one token, with which the second statement
begins.  The third one waits, and a request to step lets it begin. -/
theorem step_accounting_hurried :
    ∃ t s, launch {} hurried hurriedLaunch = .ok t ∧ t.controller.fragile = false ∧
      s = t.after hurriedSteps ∧ s.controller.phase = .paused ∧
      t.requests hurriedSteps = 3 ∧ (t.stepped hurriedSteps).length = 2 ∧
      (t.stepped hurriedSteps).length + s.controller.tokens ≤ t.requests hurriedSteps ∧
      (s.happen (.resume true)).beginnings [.setSpeed 5, .step, .step] = [.pass (.point 3 1)] := by
  have ht : launch {} hurried hurriedLaunch = .ok (begun hurried hurriedLaunch) := rfl
  obtain ⟨-, -, hbalance, -, hgrant⟩ := step_accounting ht rfl hurriedSteps
  have hnone : ∀ es', es' <+: hurriedSteps →
      ((begun hurried hurriedLaunch).after es').isOvertaken = false := by
    intro es' hes'
    rw [List.prefix_iff_eq_take.mp hes']
    have hle : es'.length ≤ 28 := hes'.length_le
    interval_cases es'.length
    all_goals rfl
  obtain ⟨-, hone, -⟩ := hgrant rfl (.resume true) rfl
  obtain ⟨n, hn, hbegins⟩ := hone rfl
  cases hn
  refine ⟨_, _, ht, rfl, rfl, rfl, rfl, rfl, hbalance hnone,
    (hbegins [.setSpeed 5, .step, .step] ?_).1 nofun⟩
  exact ⟨rfl, nofun, nofun, rfl, nofun, nofun, rfl, nofun, nofun, trivial⟩

/-- Of two requests that are made while the run waits, the first one hands over a token and the
second one stores one. -/
example : (((begun hurried hurriedLaunch).after
      (List.replicate 6 Event.step ++ [Event.resume true, Event.resume true])).beginnings
    (List.replicate 20 Event.step)).length = 2 := by rfl

/-- A host function that calls the procedure `f`, whatever comes of the call, and then asks for a
step. -/
def urge : Native :=
  fun _ => .ask (.call "f" []) fun _ => .ask (.resume true) fun _ => .pure .nothing

/-- A program that calls it. -/
def urged : Program where
  statements := [.call (.point 1 1) (some ⟨.none, "URGE"⟩) []]
  procedures := [some (.of .none (some ⟨.none, "f"⟩) [] (.of .none [.pass (.point 3 3)]))]

def urgedLaunch : Launch where
  stepping := true
  plugins := [{ functions := [("URGE", urge)] }]

/-- The run waits in the procedure when it is told to end without being asked to stop.  The host
function sees the failure of its call and asks for a step.  The session is still in the paused
phase and accepts the request, but nothing begins, and the run ends. -/
theorem step_granted_in_vain :
    ∃ t s, launch {} urged urgedLaunch = .ok t ∧ t.controller.fragile = false ∧
      s = t.after (List.replicate 6 Event.step ++ Event.resume true ::
        List.replicate 13 Event.step ++ Event.cancel :: List.replicate 5 Event.step) ∧
      s.controller.phase = .paused ∧ s.request? .step = some true ∧ s.accepts .step = true ∧
      (∀ es, (s.happen .step).beginnings es = []) ∧
      ((s.happen .step).after (List.replicate 7 Event.step)).outcome? = some .stopped := by
  have ht : launch {} urged urgedLaunch = .ok (begun urged urgedLaunch) := rfl
  refine ⟨_, _, ht, rfl, rfl, rfl, rfl, rfl, fun es => ?_, rfl⟩
  have hreachable := ((reachable_begun ht).after (List.replicate 6 Event.step ++
    Event.resume true :: List.replicate 13 Event.step ++ Event.cancel ::
      List.replicate 5 Event.step)).after [.step]
  exact List.sublist_nil.mp (beginnings_of_cancelled hreachable rfl es)

end Session

end Pseudocode
