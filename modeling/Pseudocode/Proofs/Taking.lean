/-
# When a pending task is taken up

A task stays where it is while something is done for it, and the first step that finds nothing
above it and a result in hand takes it up.  So a piece of a run that begins with a pending task and
ends without it falls into what is done for the task, the step that takes it up, and the rest.

What begins at some moment is over when there is a result in hand and nothing is left above the
tasks that were pending then.

The main results are

* `Machine.Move.takes`: a move leaves the tasks where they are, unless there is a result in hand;
  then it may take the one on top;
* `Session.within_or_taken`: a pending task is left alone or taken up;
* `Session.Ends.begin`, `Session.Ends.taken`: how the piece of a run in which something is done
  falls into parts;
* `Session.Handed`: what becomes of the result that a task has waited for.
-/
import Pseudocode.Proofs.Moves

namespace Pseudocode

/-- A failure or a breakdown is on its way up. -/
def Control.isBroken : Control → Bool
  | .fail _ | .crash _ => true
  | _ => false

lemma Control.isResult_of_isBroken {c : Control} (h : c.isBroken = true) : c.isResult = true := by
  cases c <;> first | rfl | simp [isBroken] at h

namespace Machine

variable {fragile : Bool} {d : Due} {m m' : Machine}

lemma Shape.suffix (h : Shape d m m') : m.pending <:+ m'.pending := by
  cases h with
  | fails _ _ pending => exact pending ▸ List.suffix_rfl
  | goes _ pending => exact pending ▸ List.suffix_rfl
  | awaits _ _ _ pending =>
      rw [pending]
      exact List.suffix_cons _ _

/-- A move leaves the tasks where they are, or takes the one on top for a result in hand. -/
lemma Move.takes (h : Move fragile m m') :
    m.pending <:+ m'.pending ∨
      ∃ p rest, m.pending = p :: rest ∧ m.control.isResult = true ∧ rest <:+ m'.pending := by
  cases h with
  | stay _ | breakdown _ _ | pass _ _ | outcome _ _ | close _ => exact .inl List.suffix_rfl
  | plain _ h => exact .inl h.shape.suffix
  | request _ _ keeps => exact .inl (keeps.pending ▸ List.suffix_rfl)
  | finish _ _ _ keeps => exact .inl (keeps.pending ▸ List.suffix_rfl)
  | reach _ _ | enter _ | enterHost _ _ | reenter _ =>
      exact .inl (List.suffix_cons _ _)
  | task pending _ _ result h => exact .inr ⟨_, _, pending, result, h.shape.suffix⟩
  | leave control pending | exit control pending | answer control pending
  | exitHost control pending | unwind control pending _ _ | unwindHost control pending
  | hand control pending | collapse control pending _ | collapseHost control pending =>
      exact .inr ⟨_, _, pending, by rw [control]; rfl, List.suffix_rfl⟩

end Machine

namespace Session

open Machine

variable {a s : Session} {p : Pending} {K : List Pending} {es : List Event}

/-- A report concerns no task. -/
lemma pending_of_reporting (hr : s.controller.reporting = true) :
    s.step.machine.pending = s.machine.pending :=
  step_cases (P := fun t => t.machine.pending = s.machine.pending) (fun _ _ => rfl)
    (fun _ _ => rfl) (by simp [hr])

/-- A pending task stays unless it is on top and there is a result in hand. -/
lemma proceed_taken (hs : Sound s.machine) (hp : p :: K <:+ s.machine.pending) :
    p :: K <:+ s.proceed.machine.pending ∨
      s.machine.pending = p :: K ∧ s.machine.control.isResult = true := by
  rcases (proceed_move false hs).takes with
    hstay | ⟨q, rest, hpending, hresult, hrest⟩
  · exact .inl (hp.trans hstay)
  · rw [hpending] at hp
    rcases List.suffix_cons_iff.mp hp with heq | hsuffix
    · exact .inr ⟨by rw [hpending, heq], hresult⟩
    · exact .inl (hsuffix.trans hrest)

/-- It stays as well if the step is a report. -/
lemma step_taken (hs : Sound s.machine) (hp : p :: K <:+ s.machine.pending) :
    p :: K <:+ s.step.machine.pending ∨
      s.machine.pending = p :: K ∧ s.machine.control.isResult = true ∧
        s.controller.reporting = false := by
  cases hr : s.controller.reporting with
  | true => exact .inl (by rwa [pending_of_reporting hr])
  | false =>
      rw [step_of_not_reporting hr]
      exact (proceed_taken hs hp).imp_right fun ⟨hpending, hresult⟩ => ⟨hpending, hresult, rfl⟩

/-- Commands leave the machine alone, save that a host function that waits is let go on. -/
lemma pending_command {e : Event} (he : e ≠ .step) :
    (s.happen e).machine.pending = s.machine.pending := by
  rcases happen_command s he with h | ⟨site, next, -, h⟩
  · rw [h]
  · rw [h]
    rfl

/-- There is a result in hand, and nothing is left above the tasks `K`. -/
def Resolved (K : List Pending) (s : Session) : Prop :=
  s.machine.pending = K ∧ s.machine.control.isResult = true

/-- What is done above the tasks `K` is not over at any moment of the schedule. -/
structure Lasts (K : List Pending) (a : Session) (es : List Event) : Prop where
  within : Within K a es
  before : ∀ es', es' <+: es → ¬ Resolved K (a.after es')

/-- What is done above the tasks `K` is over for the first time after this schedule and one more
step. -/
structure Ends (K : List Pending) (a : Session) (es : List Event) : Prop extends Lasts K a es where
  resolved : Resolved K (a.after es).step

/-- After the schedule `es₁` the run goes on, and what is done above the tasks is over with that or
goes on to its end. -/
def EndsAfter (K : List Pending) (a : Session) (es es₁ : List Event) : Prop :=
  (a.after es₁).controller.reporting = false ∧
    (es = es₁ ∧ Resolved K (a.after es).proceed ∨
      ∃ es₂, es = es₁ ++ Event.step :: es₂ ∧ Ends K (a.after es₁).proceed es₂)

lemma not_resolved (h : K.length < a.machine.pending.length ∨ a.machine.control.isResult = false) :
    ¬ Resolved K a := by
  rintro ⟨hpending, hresult⟩
  rcases h with h | h
  · exact Nat.ne_of_gt h (congrArg List.length hpending)
  · simp [h] at hresult

lemma Lasts.nil (hp : K <:+ a.machine.pending) (h : ¬ Resolved K a) : Lasts K a [] := by
  refine ⟨within_nil.mpr hp, fun es' hes' hresolved => ?_⟩
  rw [List.prefix_nil.mp hes', after_nil] at hresolved
  exact h hresolved

lemma Lasts.cons {e : Event} (hp : K <:+ a.machine.pending) (h : ¬ Resolved K a)
    (hrest : Lasts K (a.happen e) es) : Lasts K a (e :: es) := by
  refine ⟨within_cons.mpr ⟨hp, hrest.within⟩, fun es' hes' => ?_⟩
  cases es' with
  | nil => exact h
  | cons e' es' =>
      obtain ⟨rfl, htail⟩ := List.cons_prefix_cons.mp hes'
      exact hrest.before es' htail

lemma Lasts.drop {es₁ es₂ : List Event} (h : Lasts K a (es₁ ++ es₂)) :
    Lasts K (a.after es₁) es₂ where
  within := fun es' hes' => by
    rw [← after_append]
    exact h.within _ ((List.prefix_append_right_inj es₁).mpr hes')
  before := fun es' hes' => by
    rw [← after_append]
    exact h.before _ ((List.prefix_append_right_inj es₁).mpr hes')

lemma Lasts.tail {e : Event} (h : Lasts K a (e :: es)) : Lasts K (a.happen e) es :=
  Lasts.drop (show Lasts K a ([e] ++ es) from h)

lemma Ends.drop {es₁ es₂ : List Event} (h : Ends K a (es₁ ++ es₂)) :
    Ends K (a.after es₁) es₂ where
  toLasts := h.toLasts.drop
  resolved := by rw [← after_append]; exact h.resolved

lemma Ends.tail {e : Event} (h : Ends K a (e :: es)) : Ends K (a.happen e) es :=
  Ends.drop (show Ends K a ([e] ++ es) from h)

lemma EndsAfter.append {es₁ es₂ : List Event} (h : EndsAfter K (a.after es₁) es es₂) :
    EndsAfter K a (es₁ ++ es) (es₁ ++ es₂) := by
  obtain ⟨hgoes, ⟨rfl, hresolved⟩ | ⟨es₃, rfl, hends⟩⟩ := h
  · exact ⟨by rwa [after_append], .inl ⟨rfl, by rwa [after_append]⟩⟩
  · exact ⟨by rwa [after_append], .inr ⟨es₃, by rw [List.append_assoc], by rwa [after_append]⟩⟩

lemma EndsAfter.cons {e : Event} {es₁ : List Event} (h : EndsAfter K (a.happen e) es es₁) :
    EndsAfter K a (e :: es) (e :: es₁) :=
  EndsAfter.append (show EndsAfter K (a.after [e]) es es₁ from h)

/-- What is over after a step has ended with it. -/
lemma EndsAfter.eq {es₁ : List Event} (h : EndsAfter K a es es₁)
    (hresolved : Resolved K (a.after es₁).proceed) : es = es₁ := by
  obtain ⟨-, ⟨rfl, -⟩ | ⟨es₂, -, hends⟩⟩ := h
  · rfl
  · exact absurd hresolved (hends.before [] List.nil_prefix)

/-- What is not over after a step goes on. -/
lemma EndsAfter.goes {es₁ : List Event} (h : EndsAfter K a es es₁)
    (hresolved : ¬ Resolved K (a.after es₁).proceed) :
    ∃ es₂, es = es₁ ++ Event.step :: es₂ ∧ Ends K (a.after es₁).proceed es₂ := by
  obtain ⟨-, ⟨rfl, hresolved'⟩ | hrest⟩ := h
  · exact absurd hresolved' hresolved
  · exact hrest

/-- With a task above the others nothing is over. -/
lemma not_resolved_of_pending (h : s.machine.pending = p :: K) : ¬ Resolved K s :=
  not_resolved (.inl (by rw [h]; exact Nat.lt_succ_self _))

/-- What begins with something that needs nothing from elsewhere begins with a step of its own; what
happens before that step does nothing to the machine. -/
lemma Ends.begin (h : Ends K a es) (hheld : ∀ site next, a.machine.control ≠ .held site next)
    (hpaused : ∀ n, a.machine.control ≠ .boundary .paused n) :
    ∃ es₁, (a.after es₁).machine = a.machine ∧ EndsAfter K a es es₁ := by
  induction es generalizing a with
  | nil =>
      have hresolved := h.resolved
      rcases happen_cases a .step with ⟨hgoes, heq⟩ | ⟨-, hside⟩
      · rw [after_nil, show a.step = a.proceed from heq] at hresolved
        exact ⟨[], rfl, by simpa [goesOn] using hgoes, .inl ⟨rfl, hresolved⟩⟩
      · -- nothing has been done yet
        have hmachine : a.step.machine = a.machine := hside.machine_eq hheld hpaused
        rw [after_nil, Resolved, hmachine] at hresolved
        exact absurd hresolved (h.before [] List.nil_prefix)
  | cons e es ih =>
      rcases happen_cases a e with ⟨hgoes, heq⟩ | ⟨-, hside⟩
      · simp only [goesOn, Bool.and_eq_true, decide_eq_true_eq, Bool.not_eq_true'] at hgoes
        obtain ⟨rfl, hr⟩ := hgoes
        exact ⟨[], rfl, hr, .inr ⟨es, rfl, heq ▸ h.tail⟩⟩
      · have hmachine := hside.machine_eq hheld hpaused
        obtain ⟨es₁, hsame, hafter⟩ := ih h.tail (by rwa [hmachine]) (by rwa [hmachine])
        exact ⟨e :: es₁, hsame.trans hmachine, hafter.cons⟩

/-- The task `p` above `K` is left alone all through the schedule, and is then on top with a result
in hand, and the run is to go on. -/
structure Taken (p : Pending) (K : List Pending) (a : Session) (es : List Event) : Prop where
  within : Within (p :: K) a es
  pending : (a.after es).machine.pending = p :: K
  result : (a.after es).machine.control.isResult = true
  goes : (a.after es).controller.reporting = false

lemma Taken.cons {e : Event} (hp : p :: K <:+ a.machine.pending) (h : Taken p K (a.happen e) es) :
    Taken p K a (e :: es) :=
  ⟨within_cons.mpr ⟨hp, h.within⟩, h.pending, h.result, h.goes⟩

/-- A pending task is left alone all the while, or taken up by a step. -/
theorem within_or_taken (hs : Sound a.machine) (hp : p :: K <:+ a.machine.pending)
    (es : List Event) :
    Within (p :: K) a es ∨ ∃ es₁ es₂, es = es₁ ++ Event.step :: es₂ ∧ Taken p K a es₁ := by
  induction es generalizing a with
  | nil => exact .inl (within_nil.mpr hp)
  | cons e es ih =>
      have hgo : p :: K <:+ (a.happen e).machine.pending → Within (p :: K) a (e :: es) ∨
          ∃ es₁ es₂, e :: es = es₁ ++ Event.step :: es₂ ∧ Taken p K a es₁ := by
        intro hstay
        rcases ih (sound_happen hs e) hstay with hwithin | ⟨es₁, es₂, rfl, htaken⟩
        · exact .inl (within_cons.mpr ⟨hp, hwithin⟩)
        · exact .inr ⟨e :: es₁, es₂, rfl, htaken.cons hp⟩
      by_cases he : e = .step
      · subst he
        rcases step_taken hs hp with hstay | ⟨hpending, hresult, hgoes⟩
        · exact hgo hstay
        · exact .inr ⟨[], es, rfl, within_nil.mpr hp, hpending, hresult, hgoes⟩
      · exact hgo (by rwa [pending_command he])

/-- A pending task is taken up before what it belongs to is over. -/
theorem Ends.taken (hs : Sound a.machine) (h : Ends K a es)
    (hp : p :: K <:+ a.machine.pending) : ∃ es₁, Taken p K a es₁ ∧ EndsAfter K a es es₁ := by
  rcases within_or_taken hs hp es with hwithin | ⟨es₁, es₂, rfl, htaken⟩
  · rcases step_taken (sound_after hs es) (hwithin es List.prefix_rfl) with
      hstay | ⟨hpending, hresult, hgoes⟩
    · -- nothing is left above the tasks after the step
      rw [show (a.after es).step.machine.pending = K from h.resolved.1] at hstay
      exact absurd hstay.length_le (Nat.not_le.mpr (Nat.lt_succ_self _))
    · refine ⟨es, ⟨hwithin, hpending, hresult, hgoes⟩, hgoes, .inl ⟨rfl, ?_⟩⟩
      rw [← step_of_not_reporting hgoes]
      exact h.resolved
  · refine ⟨es₁, htaken, htaken.goes, .inr ⟨es₂, rfl, ?_⟩⟩
    rw [← step_of_not_reporting htaken.goes]
    exact h.drop.tail

/-! ### What becomes of a result -/

/-- What a run goes on with when the result that the task `p` has waited for is there. -/
inductive Handed (p : Pending) (K : List Pending) (s : Session) : Prop where
  | value {v : Value} (control : s.machine.control = .value v) (takes : p.takes = .value)
      (proceed : s.proceed.machine = ({ s.machine with pending := K } : Machine).resume v p)
  | completion {c : Completion} (control : s.machine.control = .complete c)
      (takes : p.takes = .completion)
      (proceed : s.proceed.machine =
        ({ s.machine with pending := K } : Machine).proceed s.controller.cancelled c p)
  /-- A failure or a breakdown passes the task. -/
  | broken (control : s.machine.control.isBroken = true)
      (proceed : s.proceed.machine = { s.machine with pending := K })

lemma handed (hs : Sound s.machine) (hp : p.isPlain = true) (hpending : s.machine.pending = p :: K)
    (hresult : s.machine.control.isResult = true) : Handed p K s := by
  cases hc : s.machine.control with
  | value v =>
      have htakes : p.takes = .value := by
        rcases hs.of_value hc with hfits | hfits
        · rw [hpending] at hfits
          exact hfits.tail.1
        · rw [hpending] at hfits
          exact absurd hfits.tail.1 (Pending.takes_ne_action hp)
      exact .value hc htakes (by rw [proceed_value hc, withTask_cons hpending])
  | complete c =>
      have hfits := (hs.of_due (d := .completion) (by rw [hc]; rfl) (by simp [hc])).1
      rw [hpending] at hfits
      exact .completion hc hfits.tail.1 (by rw [proceed_complete hc, withTask_cons hpending])
  | fail e =>
      refine .broken (by rw [hc]; rfl) ?_
      rw [proceed_fail hc, withTask_cons hpending]
      cases p <;> first | rfl | simp [Pending.isPlain] at hp
  | crash text =>
      refine .broken (by rw [hc]; rfl) ?_
      rw [proceed_crash hc, withTask_cons hpending]
      cases p <;> first | rfl | simp [Pending.isPlain] at hp
  | _ => simp [hc, Control.isResult] at hresult

end Session

end Pseudocode
