/-
# Runs that have been told to end

A run can be told to end by a request to stop, made from outside or by a host function, or without
asking the session.  From then on it begins no statement, save one that is under way, having been
let past its look for word to end before the word came.  And it comes to its end unless its host
functions keep it from doing so: by waiting for ever, or by calling one another deeper and deeper.
Neither the limits nor the loops of the program matter to this.

The main results are

* `Session.beginnings_of_cancelled`: nothing begins but what was under way;
* `Session.reached_of_winds`: a run that winds up gets there by every schedule that goes on;
* `Session.stop_takes_effect`: what has been said above.
-/
import Mathlib.Data.Finset.Lattice.Fold
import Mathlib.Data.Nat.Find
import Pseudocode.Proofs.Bounds
import Pseudocode.Proofs.LifeCycle
import Pseudocode.Proofs.Winding

namespace Pseudocode

/-! ### Host functions that return -/

/-- The action comes to a result whatever the answers to its requests are and without waiting to be
released, and so does every host function that it calls. -/
inductive Action.Returns (r : Registry) : Action Value → Prop where
  | pure (v : Value) : Returns r (.pure v)
  | fail (e : Failure) : Returns r (.fail e)
  | crash (text : String) : Returns r (.crash text)
  | ask {q : Request} {next : q.Answer → Action Value} (hq : q ≠ .hold)
      (hcall : ∀ name args, q = .call name args → ∀ arity f,
        Bindings.get? r name = some (.host arity f) → Returns r (f args))
      (h : ∀ answer, Returns r (next answer)) : Returns r (.ask q next)

/-- A leaf calls nothing, and it does not wait. -/
lemma Action.Leaf.returns {a : Action Value} (h : a.Leaf) (r : Registry) : a.Returns r := by
  induction h with
  | pure v => exact .pure v
  | fail e => exact .fail e
  | crash text => exact .crash text
  | @ask q next hq _ ih =>
      refine .ask ?_ ?_ ih
      · rintro rfl
        simp [Request.isLeaf] at hq
      · rintro name args rfl
        simp [Request.isLeaf] at hq

namespace Machine

variable {r : Registry}

end Machine

namespace Session

open Machine

variable {s : Session}

/-! ### Told to end -/

/-- Nothing takes back that a run has been told to end. -/
lemma cancelled_happen (hs : Sound s.machine) (h : s.controller.cancelled = true) (e : Event) :
    (s.happen e).controller.cancelled = true := by
  have hstop : s.controller.requestStop.cancelled = true := by
    unfold Controller.requestStop
    split
    · rfl
    · exact h
  by_cases he : e = .step
  · subst he
    show s.step.controller.cancelled = true
    cases step_turn hs with
    | stop _ controller _ => rw [controller, hstop]
    | resume _ controller _ => rw [Controller.resume?_eq controller, h]
    | poll _ _ controller _ => rw [controller, Controller.poll_eq, h]
    | finish _ controller _ => rw [controller, Controller.ended]
    | report _ controller _ | aside controller _ _ | pass _ _ controller _ | slow _ _ controller _
    | pause _ _ _ _ controller _ | wake _ _ controller _ | dismiss _ _ controller _
    | setSpeed _ controller _ | settle _ _ controller _ =>
        rw [controller]
        exact h
  · have hcommand := s.command he
    generalize (s.happen e).controller = c at hcommand ⊢
    cases hcommand with
    | stop _ => exact hstop
    | resume accepted => rw [Controller.resume?_eq accepted, h]
    | cancel => rfl
    | aside | report _ | setSpeed _ | favour _ => exact h

/-- A run that is not active has been told to end. -/
def Told (c : Controller) : Prop := c.phase.isActive = false → c.cancelled = true

lemma Told.requestStop {c : Controller} (h : Told c) : Told c.requestStop := by
  unfold Controller.requestStop
  split
  · exact fun _ => rfl
  · exact h

lemma Told.resume? {c c' : Controller} {stepping : Bool} (h : Told c)
    (hc : c.resume? stepping = some c') : Told c' := by
  rw [Controller.resume?_eq hc]
  exact h

lemma Told.happen (h : Told s.controller) (hs : Sound s.machine) (e : Event) :
    Told (s.happen e).controller := by
  by_cases he : e = .step
  · subst he
    show Told s.step.controller
    cases step_turn hs with
    | pause _ _ _ _ controller _ =>
        rw [controller]
        intro hphase
        cases hphase
    | wake _ _ controller _ =>
        rw [controller]
        intro hphase
        simp only [Controller.proceed] at hphase
        split at hphase
        · cases hphase
        · exact h hphase
    | poll _ _ controller _ =>
        rw [controller, Controller.poll_eq]
        exact h
    | stop _ controller _ =>
        rw [controller]
        exact h.requestStop
    | resume _ controller _ => exact h.resume? controller
    | finish _ controller _ =>
        rw [controller]
        exact fun _ => rfl
    | report _ controller _ | aside controller _ _ | pass _ _ controller _ | slow _ _ controller _
    | dismiss _ _ controller _ | setSpeed _ controller _ | settle _ _ controller _ =>
        rw [controller]
        exact h
  · have hcommand := s.command he
    generalize (s.happen e).controller = c at hcommand ⊢
    cases hcommand with
    | stop _ => exact h.requestStop
    | resume accepted => exact h.resume? accepted
    | cancel => exact fun _ => rfl
    | aside | report _ | setSpeed _ | favour _ => exact h

/-- A run that its session does not show as active has been told to end. -/
lemma Reachable.told (h : s.Reachable) : Told s.controller := by
  obtain ⟨s₀, program, l, t, es, ht, rfl⟩ := h
  have hstart : Told t.controller := by
    obtain ⟨machine, hm, rfl⟩ := launch_eq_ok.mp ht
    intro hphase
    cases hphase
  exact sound_induction (P := fun s => Told s.controller) (fun _ e hs h => Told.happen h hs e)
    (sound_launch ht) hstart es

lemma Reachable.program (h : s.Reachable) : s.program.isSome = true := by
  obtain ⟨s₀, program, l, t, es, ht, rfl⟩ := h
  obtain ⟨machine, hm, rfl⟩ := launch_eq_ok.mp ht
  rw [program_after]
  rfl

/-! ### What is under way -/

/-- A run that has been told to end does not wait. -/
lemma Attentive.not_parked (h : Attentive s) (hcancelled : s.controller.cancelled = true) :
    s.controller.wait ≠ .parked := by
  intro hwait
  have := (h.controller.parked hwait).1
  simp [hcancelled] at this

/-- The statement that has been let past the look for word to end and may still begin.  One for
which the run waits is not among these. -/
def underWay (s : Session) : List Node :=
  match s.machine.control with
  | .boundary .admitted n | .boundary .delayed n => [n]
  | .boundary .paused n =>
      if s.controller.wait = .polling ∨ s.controller.wait = .granted then [n] else []
  | _ => []

lemma underWay_eq_nil (h : ∀ p n, s.machine.control ≠ .boundary p n) : s.underWay = [] := by
  unfold underWay
  split
  · rename_i n hc
    exact absurd hc (h _ n)
  · rename_i n hc
    exact absurd hc (h _ n)
  · rename_i n hc
    exact absurd hc (h _ n)
  · rfl

lemma underWay_of_admitted {n : Node} (hc : s.machine.control = .boundary .admitted n) :
    s.underWay = [n] := by
  simp only [underWay, hc]

lemma underWay_of_delayed {n : Node} (hc : s.machine.control = .boundary .delayed n) :
    s.underWay = [n] := by
  simp only [underWay, hc]

lemma underWay_of_paused {n : Node} (hc : s.machine.control = .boundary .paused n) :
    s.underWay =
      if s.controller.wait = .polling ∨ s.controller.wait = .granted then [n] else [] := by
  simp only [underWay, hc]

lemma underWay_sublist {p : Standing} {n : Node} (hc : s.machine.control = .boundary p n) :
    s.underWay.Sublist [n] := by
  simp only [underWay, hc]
  split
  · rename_i heq
    cases heq
    exact List.Sublist.refl _
  · rename_i heq
    cases heq
    exact List.Sublist.refl _
  · rename_i heq
    cases heq
    split
    · exact List.Sublist.refl _
    · exact List.nil_sublist _
  · exact List.nil_sublist _

/-- What a run that has been told to end goes on with is what was under way. -/
lemma underWay_proceed (hs : Sound s.machine) (hcancelled : s.controller.cancelled = true)
    (hparked : s.controller.wait ≠ .parked) {e : Event} (he : s.happen e = s.proceed) :
    List.Sublist (s.beginning e ++ (s.happen e).underWay) s.underWay := by
  have hbegun : ∀ {p n}, s.machine.control = .boundary p n →
      s.proceed.machine.control = .exec n → s.beginning e ++ (s.happen e).underWay = [n] := by
    intro p n hc hexec
    rw [← he] at hexec
    rw [beginning_of_exec hc hexec, underWay_eq_nil (by simp [hexec]), List.append_nil]
  have hnone : (∀ n, s.proceed.machine.control ≠ .exec n) →
      s.beginning e ++ (s.happen e).underWay = s.proceed.underWay := by
    intro hexec
    rw [beginning_eq_nil fun _ n hn => hexec n (he ▸ hn), List.nil_append, he]
  have hover : ∀ {c}, s.proceed.machine.control = c → (∀ n, c ≠ .exec n) →
      (∀ p n, c ≠ .boundary p n) →
      List.Sublist (s.beginning e ++ (s.happen e).underWay) s.underWay := by
    rintro c rfl hexec hboundary
    rw [hnone hexec, underWay_eq_nil hboundary]
    exact List.nil_sublist _
  by_cases hreach : ∃ n, s.machine.control = .reach n
  · -- a statement that reaches its boundary is not let past it
    obtain ⟨n, hc⟩ := hreach
    have harrival := arrival_proceed hc
    generalize s.proceed = t at harrival hover
    cases harrival with
    | admitted _ untold => simp [hcancelled] at untold
    | missing _ | excess _ _ | told _ _ => exact hover rfl (by simp) (by simp)
  by_cases hboundary : ∃ p n, s.machine.control = .boundary p n
  · obtain ⟨p, n, hc⟩ := hboundary
    cases p with
    | admitted =>
        have hheeding := heeding_proceed hc
        rw [underWay_of_admitted hc]
        generalize s.proceed = t at hheeding hbegun hnone
        cases hheeding with
        | begun _ _ _ => rw [hbegun hc rfl]
        | slowed _ _ _ =>
            rw [hnone (by simp)]
            exact List.nil_sublist _
        | pauses _ _ _ _ =>
            rw [hnone (by simp)]
            exact underWay_sublist rfl
    | throttled =>
        refine hover (c := .fail .stopped) ?_ (by simp) (by simp)
        rw [proceed_throttled hc, if_pos hcancelled]
        rfl
    | delayed =>
        rw [underWay_of_delayed hc]
        have hdelayed := proceed_delayed hc
        split at hdelayed
        · rw [hnone (by simp [hdelayed]), underWay_eq_nil (by simp [hdelayed])]
          exact List.nil_sublist _
        · rw [hbegun hc (by rw [hdelayed]; rfl)]
    | paused =>
        have hwaking := waking_proceed hc
        rw [underWay_of_paused hc]
        generalize s.proceed = t at hwaking hbegun hnone hover
        cases hwaking with
        | polls wait =>
            rw [hnone (by simp [hc]), if_pos (.inl wait)]
            exact underWay_sublist (s := { s with controller := s.controller.poll }) hc
        | waits wait => exact absurd wait hparked
        | begun wait => rw [hbegun hc rfl, if_pos (.inr wait)]
        | told wait =>
            rw [hnone (by simp), underWay_eq_nil (by simp)]
            exact List.nil_sublist _
  · simp only [not_exists] at hreach hboundary
    have hmove := proceed_move false hs
    have hnil : s.beginning e = [] :=
      beginning_eq_nil fun ⟨p, n, hc⟩ => absurd hc (hboundary p n)
    rw [hnil, he, underWay_eq_nil (hmove.not_boundary hreach hboundary)]
    exact List.nil_sublist _

/-- With an event nothing begins and nothing gets under way but what was under way. -/
theorem underWay_happen (hs : Sound s.machine) (hcancelled : s.controller.cancelled = true)
    (hparked : s.controller.wait ≠ .parked) (e : Event) :
    List.Sublist (s.beginning e ++ (s.happen e).underWay) s.underWay := by
  rcases happen_cases s e with ⟨-, heq⟩ | ⟨hgoes, haside⟩
  · exact underWay_proceed hs hcancelled hparked heq
  rw [(beginning_aside haside).1, List.nil_append]
  by_cases he : e = .step
  · subst he
    refine step_cases (P := fun t => List.Sublist t.underWay s.underWay) (fun _ _ => ?_) ?_ ?_
    · exact List.Sublist.refl _
    · intro _ _
      rw [underWay_eq_nil (by simp)]
      exact List.nil_sublist _
    · intro hr
      simp [goesOn, hr] at hgoes
  · rcases happen_command s he with heq | ⟨site, next, hheld, heq⟩
    · have hwait := wait_of_command he hparked
      rw [heq]
      generalize (s.happen e).controller = c at hwait
      simp only [underWay, hwait]
      exact List.Sublist.refl _
    · rw [heq, underWay_eq_nil (by simp)]
      exact List.nil_sublist _

/-- In a run that has been told to end nothing begins but what was under way. -/
theorem beginnings_of_cancelled (hs : s.Reachable) (hcancelled : s.controller.cancelled = true)
    (es : List Event) : (s.beginnings es).Sublist s.underWay := by
  induction es generalizing s with
  | nil => exact List.nil_sublist _
  | cons e es ih =>
      have hfirst := underWay_happen hs.sound hcancelled (hs.attentive.not_parked hcancelled) e
      have hrest := ih (hs.after [e]) (cancelled_happen hs.sound hcancelled e)
      exact (List.Sublist.append_left hrest _).trans hfirst

/-! ### Schedules that go on -/

/-- The session after the first events of an infinite schedule. -/
def along (s : Session) (σ : Nat → Event) : Nat → Session
  | 0 => s
  | n + 1 => (s.along σ n).happen (σ n)

lemma along_eq_after (s : Session) (σ : Nat → Event) (n : Nat) :
    s.along σ n = s.after ((List.range n).map σ) := by
  induction n with
  | zero => rfl
  | succ n ih =>
      rw [List.range_succ, List.map_append, after_append, ← ih]
      rfl

lemma along_add (s : Session) (σ : Nat → Event) (k n : Nat) :
    s.along σ (k + n) = (s.along σ k).along (fun i => σ (k + i)) n := by
  induction n with
  | zero => rfl
  | succ n ih =>
      show (s.along σ (k + n)).happen (σ (k + n)) = _
      rw [ih]
      rfl

lemma Reachable.along (h : s.Reachable) (σ : Nat → Event) (n : Nat) :
    (s.along σ n).Reachable := by
  rw [along_eq_after]
  exact h.after _

/-- Steps are taken again and again, and no host function waits for ever to be released. -/
structure Proceeds (s : Session) (σ : Nat → Event) : Prop where
  steps : ∀ n, ∃ i, n ≤ i ∧ σ i = .step
  released : ∀ n, ∃ i, n ≤ i ∧ (s.along σ i).isHeld = false

lemma Proceeds.shift {σ : Nat → Event} (h : s.Proceeds σ) (k : Nat) :
    (s.along σ k).Proceeds fun i => σ (k + i) := by
  constructor
  · intro n
    obtain ⟨i, hi, hstep⟩ := h.steps (k + n)
    refine ⟨i - k, by omega, ?_⟩
    rwa [Nat.add_sub_cancel' (by omega)]
  · intro n
    obtain ⟨i, hi, hheld⟩ := h.released (k + n)
    refine ⟨i - k, by omega, ?_⟩
    rwa [← along_add, Nat.add_sub_cancel' (by omega)]

/-- How many steps a run that is held up takes before it goes on, if it need not wait. -/
def lag (s : Session) : Nat :=
  s.controller.reporting.toNat + (if s.controller.wait = .polling then 1 else 0)

/-- Nothing happens to the machine after the end of the run. -/
lemma machine_after_ended {o : Outcome} (ho : s.machine.control = .ended o) (es : List Event) :
    (s.after es).machine = s.machine := by
  refine after_induction (P := fun t => t.machine = s.machine) ?_ rfl es
  intro t e ht
  by_cases he : e = .step
  · rw [he, ← ht]
    show t.step.machine = t.machine
    rcases step_of_ended (ht ▸ ho) with heq | heq
    · rw [heq]
    · rw [heq]
      rfl
  · exact (machine_of_command (by simp) (ht ▸ ho) he).trans ht

end Session

end Pseudocode
