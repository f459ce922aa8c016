/-
# The step budget

A run with a limit on the statements it begins ends, unless it can go on for ever without beginning
a statement.  It can in a counted or conditional loop with an empty body, and nowhere else: every
step lowers the number of statements that may still begin, or else the effort up to the next one, or
else the slack.  Host functions are passed over, since a leaf has an outcome after finitely many
requests.

The main results are

* `Session.Progressing.descends`: whatever a run goes on with outside of host functions lowers its
  rank;
* `Session.step_budget`: a run with a limit ends if none of its loops is empty, and a loop that does
  nothing does not end.
-/
import Mathlib.Data.Prod.Lex
import Pseudocode.Proofs.Effort

namespace Pseudocode

/-- Whether a failure or a breakdown is on its way up. -/
def Control.unwinds : Control → Bool
  | .fail _ | .crash _ => true
  | _ => false

namespace Machine

variable {m m' : Machine} {a l : Nat}

/-! ### The rank decreases -/

/-- What decreases with every step: the statements that may still begin, or else the effort, or
else the slack. -/
def rank (m : Machine) : Nat ×ₗ Nat ×ₗ Nat :=
  toLex (m.maxSteps - m.steps, toLex (m.effort, m.slack))

/-- The loops of a run are busy: those of the functions that can be called, of what is being done
and of what remains to be done. -/
structure Busy (m : Machine) : Prop where
  functions : m.functions.All Function.Busy
  control : m.control.Busy
  pending : ∀ p ∈ m.pending, p.Busy

lemma rank_lt (hbudget : m'.maxSteps - m'.steps ≤ m.maxSteps - m.steps)
    (h : m'.effort < m.effort ∨ m'.effort ≤ m.effort ∧ m'.slack < m.slack) :
    m'.rank < m.rank := by
  simp only [rank, Prod.Lex.toLex_lt_toLex]
  omega

lemma rank_lt_of_budget (h : m'.maxSteps - m'.steps < m.maxSteps - m.steps) :
    m'.rank < m.rank := by
  simp only [rank, Prod.Lex.toLex_lt_toLex]
  omega

/-- The machine `m'` has a lower rank than `m`, and its loops are busy. -/
structure Descends (m m' : Machine) : Prop where
  rank : m'.rank < m.rank
  control : m'.control.Busy
  pending : ∀ p ∈ m'.pending, p.Busy

/-- A piece of work that spends no more than it is worth lowers the rank. -/
lemma Spends.descends {K : List Pending} (h : Spends a l { m with pending := K } m')
    (hnear : near? m.control m.pending = none)
    (heffort : m.control.effort + efforts m.pending = a + efforts K)
    (hslack : m.slack = l + slacks K)
    (hbudget : m'.maxSteps - m'.steps = m.maxSteps - m.steps) : Descends m m' := by
  refine ⟨rank_lt (Nat.le_of_eq hbudget) ?_, h.control, h.pending⟩
  have hm : m.effort = 5 + (a + efforts K) := by
    simp only [effort, hnear, Option.getD_none, heffort]
  rw [hm, hslack]
  exact h.less

lemma descends_block {b : Block} (hm : Busy m) (hc : m.control = .block b) :
    Descends m (m.block b) := by
  have hb := hm.control
  rw [hc] at hb
  cases b with
  | missing =>
      refine ⟨rank_lt (Nat.le_refl _) (.inl ?_), trivial, hm.pending⟩
      simp [effort, hc, block, raise, goto, near?]
  | of span statements =>
      refine ⟨rank_lt (Nat.le_refl _) ?_, trivial, List.forall_mem_cons.mpr ⟨hb, hm.pending⟩⟩
      cases statements with
      | nil =>
          refine .inr ⟨?_, ?_⟩
          · simp [effort, hc, block, await, near?, Control.effort, Pending.effort]
          · simp only [slack, hc, block, await, slacks_cons, Control.slack, Pending.slack]
            omega
      | cons n rest =>
          refine .inl ?_
          simp [effort, hc, block, await, near?]

lemma descends_sequence {n : Node} {rest : List Node} {K : List Pending} (hm : Busy m)
    (hc : m.control = .complete .next) (hp : m.pending = .sequence (n :: rest) :: K)
    (cancelled : Bool) :
    Descends m (proceed { m with pending := K } cancelled .next (.sequence (n :: rest))) := by
  have hK := hm.pending
  rw [hp] at hK
  obtain ⟨hbusy, hrest⟩ := List.forall_mem_cons.mp hK
  simp only [Pending.Busy, Node.busyAll, Bool.and_eq_true] at hbusy
  refine ⟨rank_lt (Nat.le_refl _) (.inl ?_), hbusy.1, List.forall_mem_cons.mpr ⟨hbusy.2, hrest⟩⟩
  simp [effort, hc, hp, proceed, await, near?]

/-- Statements are counted at their boundary only. -/
lemma Move.steps {fragile : Bool} (h : Move fragile m m') (hreach : ∀ n, m.control ≠ .reach n) :
    m'.steps = m.steps := by
  cases h with
  | plain _ h => exact h.steps
  | task _ _ _ _ h => exact h.steps
  | request _ _ keeps => exact keeps.steps
  | finish _ _ _ keeps => exact keeps.steps
  | reach control _ => exact absurd control (hreach _)
  | _ => rfl

lemma Sound.ne_idle (h : Sound m) : m.control ≠ .idle := by
  intro hc
  cases h with
  | active control _ _ => simp [hc, Control.due?] at control
  | handing control _ _ => simp [hc] at control
  | failing control _ _ _ => simp [hc] at control
  | broken control _ _ => simp [hc] at control
  | ended control => simp [hc] at control

lemma effort_of_unwinds (h : m.control.unwinds = true) : m.effort = 1 ∧ m.control.slack = 1 := by
  unfold effort
  cases hc : m.control with
  | fail _ | crash _ => exact ⟨rfl, rfl⟩
  | _ => simp [hc, Control.unwinds] at h

/-- What is on its way up passes one task after the other. -/
lemma Move.unwinds {fragile : Bool} {p : Pending} {K : List Pending} (h : Move fragile m m')
    (hleaf : Leaf m) (hc : m.control.unwinds = true) (hp : m.pending = p :: K) :
    m'.control.unwinds = true ∧ m'.pending = K ∧ m'.steps = m.steps := by
  cases h with
  | unwind _ pending _ _ => exact ⟨rfl, (List.cons.inj (pending.symm.trans hp)).2, rfl⟩
  | unwindHost _ pending => exact ⟨rfl, (List.cons.inj (pending.symm.trans hp)).2, rfl⟩
  | collapse _ pending _ => exact ⟨rfl, (List.cons.inj (pending.symm.trans hp)).2, rfl⟩
  | collapseHost _ pending => exact ⟨rfl, (List.cons.inj (pending.symm.trans hp)).2, rfl⟩
  | hand _ pending => exact absurd rfl (hleaf.pending _ (pending ▸ List.mem_cons_self))
  | finish _ pending _ _ => simp [pending] at hp
  | stay control | plain control _ | task _ _ control _ _ | request control _ _ =>
      cases hm : m.control with
      | fail _ | crash _ => simp [hm, Control.rests, Control.work?, Control.due?] at control
      | _ => simp [hm, Control.unwinds] at hc
  | _ => simp_all [Control.unwinds]

lemma Move.descends_of_unwinds {fragile : Bool} {p : Pending} {K : List Pending}
    (h : Move fragile m m') (hleaf : Leaf m) (hm : Busy m) (hc : m.control.unwinds = true)
    (hp : m.pending = p :: K) (hmax : m'.maxSteps = m.maxSteps) : Descends m m' := by
  obtain ⟨hc', hp', hsteps⟩ := h.unwinds hleaf hc hp
  obtain ⟨heffort, hslack⟩ := effort_of_unwinds hc
  obtain ⟨heffort', hslack'⟩ := effort_of_unwinds hc'
  have hK := hm.pending
  rw [hp] at hK
  refine ⟨rank_lt (by rw [hmax, hsteps]) (.inr ⟨by rw [heffort, heffort'], ?_⟩), ?_, ?_⟩
  · have hpos := p.one_le_slack
    simp only [slack, hslack, hslack', hp, hp', slacks_cons]
    omega
  · cases hm' : m'.control with
    | fail _ | crash _ => trivial
    | _ => simp [hm', Control.unwinds] at hc'
  · rw [hp']
    exact (List.forall_mem_cons.mp hK).2

/-- Without tasks a result settles the outcome of the run. -/
lemma Move.ends {fragile : Bool} (h : Move fragile m m') (hc : m.control.isResult = true)
    (hp : m.pending = []) :
    (∃ o, m'.control = .ending o) ∧ m'.pending = [] ∧ m'.steps = m.steps := by
  cases h with
  | finish _ _ control' keeps => exact ⟨⟨_, control'⟩, keeps.pending.trans hp, keeps.steps⟩
  | stay control | plain control _ | request control _ _ =>
      cases hm : m.control with
      | value _ | complete _ | fail _ | crash _ =>
          simp [hm, Control.rests, Control.work?, Control.due?] at control
      | _ => simp [hm, Control.isResult] at hc
  | _ => simp_all [Control.isResult]

lemma Move.descends_of_nil {fragile : Bool} (h : Move fragile m m')
    (hc : m.control.isResult = true) (hp : m.pending = []) (hmax : m'.maxSteps = m.maxSteps) :
    Descends m m' := by
  obtain ⟨⟨o, hc'⟩, hp', hsteps⟩ := h.ends hc hp
  refine ⟨rank_lt (by rw [hmax, hsteps]) (.inl ?_), by rw [hc']; trivial, by simp [hp']⟩
  have heffort : m'.effort = 0 := by simp [effort, hc', near?]
  rw [heffort]
  cases hm : m.control with
  | fail _ | crash _ => simp [effort, hm, near?]
  | value _ =>
      simp only [effort, hm, near?, Option.getD_none]
      omega
  | complete c =>
      simp only [effort, hm, hp, near?, Option.getD_none]
      omega
  | _ => simp [hm, Control.isResult] at hc

/-- To show the outcome is all that is left. -/
lemma descends_ending {o : Outcome} (hm : Busy m) (hc : m.control = .ending o) :
    Descends m (m.goto (.ended o)) := by
  refine ⟨rank_lt (Nat.le_refl _) (.inr ⟨?_, ?_⟩), trivial, hm.pending⟩
  · simp [effort, goto, near?]
  · simp [slack, hc, goto, Control.slack]

/-- A statement that does not wait for a token comes closer to its execution. -/
lemma descends_boundary {p q : Standing} {n : Node} {c : Control} (hm : Busy m)
    (hc : m.control = .boundary p n) (hp : 0 < p.effort)
    (hcloser : c = .exec n ∨ c = .boundary q n ∧ q.effort < p.effort) :
    Descends m (m.goto c) := by
  have hbusy := hm.control
  rw [hc] at hbusy
  have heffort : m.effort = 5 + (n.cost + 1 + p.effort + efforts m.pending) := by
    simp [effort, hc, near?, Control.effort]
  rcases hcloser with rfl | ⟨rfl, hlt⟩
  · refine ⟨rank_lt (Nat.le_refl _) (.inl ?_), hbusy, hm.pending⟩
    rw [heffort]
    simp only [effort, goto, near?, Option.getD_none, Control.effort]
    omega
  · refine ⟨rank_lt (Nat.le_refl _) (.inl ?_), hbusy, hm.pending⟩
    rw [heffort]
    simp only [effort, goto, near?, Option.getD_none, Control.effort]
    omega

end Machine

namespace Session

open Machine

variable {s : Session} {k d : Nat}

/-- A run of a program with busy loops under the given limits, that nobody disturbs, that does not
wait, and that has nothing to report before it is over. -/
structure Progressing (k d : Nat) (s : Session) : Prop where
  undisturbed : Undisturbed s
  limits : Under k d s
  continuous : s.controller.stepping = false
  awake : ∀ n, s.machine.control ≠ .boundary .paused n
  goes : (∃ o, s.machine.control = .ended o) ∨ s.controller.reporting = false
  busy : Busy s.machine

lemma Progressing.step_eq (h : Progressing k d s) (hended : ∀ o, s.machine.control ≠ .ended o) :
    s.step = s.proceed :=
  step_of_not_reporting (h.goes.resolve_left fun ⟨o, ho⟩ => hended o ho)

lemma Progressing.untold (h : Progressing k d s) (hended : ∀ o, s.machine.control ≠ .ended o) :
    s.controller.cancelled = false :=
  h.undisturbed.untold.resolve_left fun ⟨o, ho⟩ => hended o ho

lemma Progressing.maxSteps_proceed (h : Progressing k d s) :
    s.proceed.machine.maxSteps = s.machine.maxSteps :=
  h.limits.proceed.limits.1.trans h.limits.limits.1.symm

lemma Progressing.budget_proceed (h : Progressing k d s)
    (hreach : ∀ n, s.machine.control ≠ .reach n) :
    s.proceed.machine.maxSteps - s.proceed.machine.steps =
      s.machine.maxSteps - s.machine.steps := by
  rw [h.maxSteps_proceed,
    (proceed_move false h.undisturbed.sound).steps hreach]

/-- A statement that reaches its boundary is counted and stands there, or the run fails. -/
lemma proceed_at_boundary {n : Node} (hc : s.machine.control = .reach n)
    (hcancelled : s.controller.cancelled = false) :
    s.proceed.machine.pending = .leave s.machine.current :: s.machine.pending ∧
      s.proceed.controller = s.controller ∧
      ((∃ e, s.proceed.machine.control = .fail e) ∧ s.machine.steps ≤ s.proceed.machine.steps ∨
        s.proceed.machine.control = .boundary .admitted n ∧
          s.proceed.machine.steps = s.machine.steps + 1 ∧
          ¬(0 < s.machine.maxSteps ∧ s.machine.maxSteps < s.machine.steps + 1)) := by
  have h := arrival_proceed hc
  generalize s.proceed = t at h ⊢
  cases h with
  | missing absent => exact ⟨rfl, rfl, .inl ⟨⟨_, rfl⟩, Nat.le_refl _⟩⟩
  | excess present exceeded => exact ⟨rfl, rfl, .inl ⟨⟨_, rfl⟩, Nat.le_succ _⟩⟩
  | told counted cancelled => simp [hcancelled] at cancelled
  | admitted counted _ => exact ⟨rfl, rfl, .inr ⟨rfl, rfl, counted.within⟩⟩

/-- What a leaf does: it has an outcome, or goes on with an answer. -/
lemma proceed_of_leaf {site : Span} {a : Action Value} (hc : s.machine.control = .host site a)
    (ha : a.Leaf) :
    (s.proceed.machine.control.isResult = true ∨
      ∃ q next answer, a = .ask q next ∧ s.proceed.machine.control = .host site (next answer)) ∧
    s.proceed.machine.pending = s.machine.pending ∧
    s.proceed.machine.steps = s.machine.steps ∧ s.proceed.controller = s.controller := by
  simp only [Session.proceed, hc]
  cases ha with
  | pure v => exact ⟨.inl rfl, rfl, rfl, rfl⟩
  | fail e => exact ⟨.inl rfl, rfl, rfl, rfl⟩
  | crash text => exact ⟨.inl rfl, rfl, rfl, rfl⟩
  | @ask q next hq hnext =>
      cases q with
      | call _ _ | cancelled | stop | resume _ | status | snapshot | speed | setSpeed _ | hold =>
          simp [Request.isLeaf] at hq
      | _ => exact ⟨.inr ⟨_, _, _, rfl, rfl⟩, rfl, rfl, rfl⟩

lemma advance_step (fuel : Nat) (s : Session) : s.advance (fuel + 1) = s.step.advance fuel := by
  rw [advance_eq_after, advance_eq_after]
  rfl

/-- At a boundary the rank decreases, since the statement is counted or the run fails. -/
lemma Progressing.descends_reach (h : Progressing k d s) (hk : 0 < k) {n : Node}
    (hc : s.machine.control = .reach n) : Descends s.machine s.proceed.machine := by
  have hmax : s.machine.maxSteps = k := h.limits.limits.1
  have hmax' : s.proceed.machine.maxSteps = k := h.limits.proceed.limits.1
  have hn := h.busy.control
  rw [hc] at hn
  obtain ⟨hp, -, hcontrol⟩ := proceed_at_boundary hc (h.untold (by simp [hc]))
  have hpending : ∀ p ∈ s.proceed.machine.pending, p.Busy := by
    rw [hp]
    exact List.forall_mem_cons.mpr ⟨trivial, h.busy.pending⟩
  rcases hcontrol with ⟨⟨e, he⟩, hsteps⟩ | ⟨hadmitted, hsteps, hover⟩
  · refine ⟨rank_lt (by omega) (.inl ?_), by rw [he]; trivial, hpending⟩
    simp [effort, he, hc, near?]
  · refine ⟨rank_lt_of_budget (by omega), by rw [hadmitted]; exact hn, hpending⟩

/-- A statement that stands at its boundary is executed or slowed down, and not held up. -/
lemma Progressing.at_boundary (h : Progressing k d s) {p : Standing} {n : Node}
    (hc : s.machine.control = .boundary p n) :
    0 < p.effort ∧ s.proceed.controller.reporting = s.controller.reporting ∧
      ∃ c, (c = .exec n ∨ ∃ q, c = .boundary q n ∧ q.effort < p.effort ∧ q ≠ .paused) ∧
        s.proceed.machine = s.machine.goto c := by
  have huntold := h.untold (by simp [hc])
  cases p with
  | admitted =>
      refine ⟨Nat.succ_pos _, ?_⟩
      have hheeding := heeding_proceed hc
      generalize s.proceed = t at hheeding ⊢
      cases hheeding with
      | begun token speed controller => exact ⟨by rw [controller]; rfl, _, .inl rfl, rfl⟩
      | slowed stepping speed controller =>
          refine ⟨by rw [controller]; rfl, _, .inr ⟨.throttled, rfl, Nat.lt_succ_self _, ?_⟩, rfl⟩
          simp
      | pauses stepping token phase controller => simp [h.continuous] at stepping
  | throttled =>
      rw [proceed_throttled hc, if_neg (by simp [huntold])]
      exact ⟨Nat.succ_pos _, rfl, _, .inr ⟨.delayed, rfl, Nat.lt_succ_self _, by simp⟩, rfl⟩
  | delayed =>
      rw [proceed_delayed hc, if_neg (by simp [huntold])]
      exact ⟨Nat.succ_pos _, rfl, _, .inl rfl, rfl⟩
  | paused => exact absurd hc (h.awake n)

/-- Outside of host functions and away from boundaries, the rank gets lower if no more is spent than
the control is worth. -/
lemma Progressing.descends_work (h : Progressing k d s) {a : Nat} {m' : Machine}
    (hproceed : s.proceed.machine = m')
    (hnear : near? s.machine.control s.machine.pending = none)
    (heffort : s.machine.control.effort = a) (hslack : s.machine.control.slack = 1)
    (hspends : Spends a 1 s.machine m') : Descends s.machine s.proceed.machine := by
  subst hproceed
  have hreach : ∀ n, s.machine.control ≠ .reach n := by
    intro n hc
    simp [hc, near?] at hnear
  exact hspends.descends (K := s.machine.pending) hnear (by rw [heffort]) (by rw [slack, hslack])
    (h.budget_proceed hreach)

/-- The same where no more is spent than the task is worth to which a result is handed. -/
lemma Progressing.descends_task (h : Progressing k d s) {p : Pending} {K : List Pending}
    {m' : Machine} (hproceed : s.proceed.machine = m') (hp : s.machine.pending = p :: K)
    (hnear : near? s.machine.control (p :: K) = none)
    (hresult : s.machine.control.isResult = true)
    (hspends : Spends p.effort (1 + p.slack) { s.machine with pending := K } m') :
    Descends s.machine s.proceed.machine := by
  subst hproceed
  have hreach : ∀ n, s.machine.control ≠ .reach n := by
    intro n hc
    simp [hc, near?] at hnear
  obtain ⟨heffort, hslack⟩ := Control.effort_of_isResult hresult
  refine hspends.descends (by rwa [hp]) ?_ ?_ (h.budget_proceed hreach)
  · rw [hp, heffort, efforts_cons, Nat.zero_add]
  · rw [slack, hslack, hp, slacks_cons, Nat.add_assoc]

lemma Progressing.descends_value (h : Progressing k d s) {v : Value} {p : Pending}
    {K : List Pending} (hc : s.machine.control = .value v) (hp : s.machine.pending = p :: K) :
    Descends s.machine s.proceed.machine := by
  have hK := h.busy.pending
  have hyields := h.undisturbed.leaf.pending p (hp ▸ List.mem_cons_self)
  rw [hp] at hK
  obtain ⟨hbusy, hrest⟩ := List.forall_mem_cons.mp hK
  refine h.descends_task ?_ hp (by rw [hc]; rfl) (by rw [hc]; rfl)
    (spends_resume _ hrest v hbusy hyields)
  rw [proceed_value hc, withTask_cons hp]

lemma Progressing.descends_complete (h : Progressing k d s) {c : Completion} {p : Pending}
    {K : List Pending} (hc : s.machine.control = .complete c) (hp : s.machine.pending = p :: K) :
    Descends s.machine s.proceed.machine := by
  have hK := h.busy.pending
  rw [hp] at hK
  obtain ⟨hbusy, hrest⟩ := List.forall_mem_cons.mp hK
  have hproceed : s.proceed.machine =
      Machine.proceed { s.machine with pending := K } s.controller.cancelled c p := by
    rw [proceed_complete hc, withTask_cons hp]
  cases hnear : near? (.complete c) (p :: K) with
  | none =>
      exact h.descends_task hproceed hp (by rwa [hc]) (by rw [hc]; rfl)
        (spends_proceed _ hrest _ c hbusy hnear)
  | some i =>
      obtain ⟨rfl, n, rest, rfl⟩ := near?_complete hnear
      rw [hproceed]
      exact descends_sequence h.busy hc hp _

/-- The rank decreases whatever the run goes on with outside of host functions. -/
theorem Progressing.descends (h : Progressing k d s) (hk : 0 < k)
    (hended : ∀ o, s.machine.control ≠ .ended o)
    (hhost : ∀ site a, s.machine.control ≠ .host site a) :
    Descends s.machine s.proceed.machine := by
  have hleaf := h.undisturbed.leaf
  have hmove := proceed_move false h.undisturbed.sound
  have hmax := h.maxSteps_proceed
  have hK := h.busy.pending
  have hcontrol := h.busy.control
  cases hc : s.machine.control with
  | idle => exact absurd hc h.undisturbed.sound.ne_idle
  | ended o => exact absurd hc (hended o)
  | host site a => exact absurd hc (hhost site a)
  | held site next =>
      have hheld := hleaf.control
      simp [hc, Control.Leaf] at hheld
  | reach n => exact h.descends_reach hk hc
  | boundary p n =>
      obtain ⟨hp, -, c, hcloser, hproceed⟩ := h.at_boundary hc
      rw [hproceed]
      rcases hcloser with hexec | ⟨q, hq, hlt, -⟩
      · exact descends_boundary (q := p) h.busy hc hp (.inl hexec)
      · exact descends_boundary h.busy hc hp (.inr ⟨hq, hlt⟩)
  | block b =>
      have hproceed : s.proceed.machine = s.machine.block b := by simp only [Session.proceed, hc]
      rw [hproceed]
      exact descends_block h.busy hc
  | eval n =>
      exact h.descends_work (by simp only [Session.proceed, hc]) (by rw [hc]; rfl) (by rw [hc]; rfl)
        (by rw [hc]; rfl) (spends_eval s.machine hK n)
  | exec n =>
      rw [hc] at hcontrol
      exact h.descends_work (by simp only [Session.proceed, hc]) (by rw [hc]; rfl) (by rw [hc]; rfl)
        (by rw [hc]; rfl) (spends_exec s.machine hK hcontrol)
  | choose branches =>
      rw [hc] at hcontrol
      exact h.descends_work (by simp only [Session.proceed, hc]) (by rw [hc]; rfl) (by rw [hc]; rfl)
        (by rw [hc]; rfl) (spends_choose s.machine hK hcontrol)
  | call name args site =>
      exact h.descends_work (by simp only [Session.proceed, hc]) (by rw [hc]; rfl) (by rw [hc]; rfl)
        (by rw [hc]; rfl) (spends_call s.machine hK h.busy.functions name args site)
  | value v =>
      cases hp : s.machine.pending with
      | nil => exact hmove.descends_of_nil (by rw [hc]; rfl) hp hmax
      | cons p rest => exact h.descends_value hc hp
  | complete c =>
      cases hp : s.machine.pending with
      | nil => exact hmove.descends_of_nil (by rw [hc]; rfl) hp hmax
      | cons p rest => exact h.descends_complete hc hp
  | fail e =>
      cases hp : s.machine.pending with
      | nil => exact hmove.descends_of_nil (by rw [hc]; rfl) hp hmax
      | cons p rest => exact hmove.descends_of_unwinds hleaf h.busy (by rw [hc]; rfl) hp hmax
  | crash text =>
      cases hp : s.machine.pending with
      | nil => exact hmove.descends_of_nil (by rw [hc]; rfl) hp hmax
      | cons p rest => exact hmove.descends_of_unwinds hleaf h.busy (by rw [hc]; rfl) hp hmax
  | ending o =>
      have hproceed : s.proceed.machine = s.machine.goto (.ended o) := by
        simp only [Session.proceed, hc]
        rfl
      rw [hproceed]
      exact descends_ending h.busy hc

/-- Whatever the run goes on with keeps the loops busy. -/
lemma Progressing.busy_proceed (h : Progressing k d s) (hk : 0 < k)
    (hended : ∀ o, s.machine.control ≠ .ended o) : Busy s.proceed.machine := by
  have hfunctions : s.proceed.machine.functions.All Function.Busy :=
    (proceed_move false h.undisturbed.sound).functions ▸ h.busy.functions
  by_cases hhost : ∃ site a, s.machine.control = .host site a
  · obtain ⟨site, a, hc⟩ := hhost
    have hleaf := h.undisturbed.leaf.control
    rw [hc] at hleaf
    obtain ⟨hcontrol, hpending, -⟩ := proceed_of_leaf hc hleaf
    refine ⟨hfunctions, ?_, hpending ▸ h.busy.pending⟩
    rcases hcontrol with hresult | ⟨q, next, answer, -, hcontrol⟩
    · exact Control.busy_of_isResult hresult
    · rw [hcontrol]
      trivial
  · have hdescends := h.descends hk hended fun site a hc => hhost ⟨site, a, hc⟩
    exact ⟨hfunctions, hdescends.control, hdescends.pending⟩

/-- The run does not come to be held up. -/
lemma Progressing.awake_proceed (h : Progressing k d s)
    (hended : ∀ o, s.machine.control ≠ .ended o) (n : Node) :
    s.proceed.machine.control ≠ .boundary .paused n := by
  intro hpaused
  cases hc : s.machine.control with
  | reach n' =>
      rcases (proceed_at_boundary hc (h.untold hended)).2.2 with ⟨⟨e, he⟩, -⟩ | ⟨hadmitted, -⟩
      · simp [hpaused] at he
      · simp [hpaused] at hadmitted
  | boundary p n' =>
      obtain ⟨-, -, c, hcloser, hproceed⟩ := h.at_boundary hc
      rw [hproceed] at hpaused
      rcases hcloser with rfl | ⟨q, rfl, -, hq⟩
      · cases hpaused
      · exact hq (Control.boundary.inj hpaused).1
  | _ =>
      exact (proceed_move false h.undisturbed.sound).not_boundary (by simp [hc])
        (by simp [hc]) .paused n hpaused

/-- Nor does it come to have anything to report before it is over. -/
lemma Progressing.goes_proceed (h : Progressing k d s)
    (hgoes : s.controller.reporting = false) :
    (∃ o, s.proceed.machine.control = .ended o) ∨ s.proceed.controller.reporting = false := by
  by_cases hboundary : ∃ p n, s.machine.control = .boundary p n
  · obtain ⟨p, n, hc⟩ := hboundary
    exact .inr ((h.at_boundary hc).2.1.trans hgoes)
  · rcases controller_proceed h.undisturbed.sound h.undisturbed.leaf.control.aloof hgoes
      fun p n hc => hboundary ⟨p, n, hc⟩ with heq | ⟨o, ho, -⟩
    · exact .inr (heq ▸ hgoes)
    · exact .inl ⟨o, ho⟩

lemma Progressing.step (h : Progressing k d s) (hk : 0 < k) : Progressing k d s.step := by
  have hcalm := calm_step h.undisturbed.sound h.undisturbed.leaf.control.aloof
  by_cases hended : ∃ o, s.machine.control = .ended o
  · obtain ⟨o, ho⟩ := hended
    have hmachine : s.step.machine = s.machine := by
      rcases step_of_ended ho with heq | heq
      · rw [heq]
      · rw [heq]
        rfl
    exact ⟨h.undisturbed.step, h.limits.step, hcalm.1.trans h.continuous, hmachine ▸ h.awake,
      .inl ⟨o, hmachine ▸ ho⟩, hmachine ▸ h.busy⟩
  · have hended : ∀ o, s.machine.control ≠ .ended o := fun o ho => hended ⟨o, ho⟩
    have hgoes := h.goes.resolve_left fun ⟨o, ho⟩ => hended o ho
    have hstep := step_of_not_reporting hgoes
    refine ⟨h.undisturbed.step, h.limits.step, hcalm.1.trans h.continuous, ?_, ?_, ?_⟩
    · rw [hstep]
      exact h.awake_proceed hended
    · rw [hstep]
      exact h.goes_proceed hgoes
    · rw [hstep]
      exact h.busy_proceed hk hended

/-- A leaf has an outcome after finitely many steps. -/
lemma exists_result {site : Span} {a : Action Value} (ha : a.Leaf)
    (hc : s.machine.control = .host site a) (hgoes : s.controller.reporting = false) :
    ∃ j, (s.advance j).machine.control.isResult = true ∧
      (s.advance j).machine.pending = s.machine.pending ∧
      (s.advance j).machine.steps = s.machine.steps := by
  have hone : ∀ t : Session, t.advance 1 = t.step := advance_step 0
  induction ha generalizing s with
  | pure _ | fail _ | crash _ =>
      refine ⟨1, ?_⟩
      simp [hone, step_of_not_reporting hgoes, Session.proceed, hc, act, goto, Machine.goto,
        Control.isResult]
  | @ask q next hq hnext ih =>
      have hstep := step_of_not_reporting hgoes
      obtain ⟨hcontrol, hpending, hsteps, hcontroller⟩ := proceed_of_leaf hc (.ask hq hnext)
      rw [← hstep] at hcontrol hpending hsteps hcontroller
      rcases hcontrol with hresult | ⟨q', next', answer, heq, hcontrol⟩
      · exact ⟨1, by rwa [hone], by rwa [hone], by rwa [hone]⟩
      · cases heq
        have hgoes' : s.step.controller.reporting = false := by
          rw [hcontroller]
          exact hgoes
        obtain ⟨j, hresult, hp, hs⟩ := ih answer hcontrol hgoes'
        exact ⟨j + 1, by rwa [advance_step], by rw [advance_step, hp, hpending],
          by rw [advance_step, hs, hsteps]⟩

lemma Progressing.advance (h : Progressing k d s) (hk : 0 < k) (fuel : Nat) :
    Progressing k d (s.advance fuel) := by
  induction fuel with
  | zero => exact h
  | succ fuel ih =>
      rw [advance_succ]
      exact ih.step hk

lemma advance_add (i j : Nat) (s : Session) : s.advance (i + j) = (s.advance i).advance j := by
  rw [advance_eq_after, advance_eq_after, advance_eq_after, ← List.replicate_append_replicate,
    after_append]

/-- A run that makes progress ends. -/
theorem Progressing.ends (h : Progressing k d s) (hk : 0 < k) :
    ∃ fuel o, (s.advance fuel).outcome? = some o := by
  induction hr : s.machine.rank using WellFoundedLT.induction generalizing s with
  | ind r ih =>
      subst hr
      -- it is enough to come to a lower rank
      have hlower : ∀ j, (s.advance j).machine.rank < s.machine.rank →
          ∃ fuel o, (s.advance fuel).outcome? = some o := by
        intro j hj
        obtain ⟨fuel, o, ho⟩ := ih _ hj (h.advance hk j) rfl
        exact ⟨j + fuel, o, by rwa [advance_add]⟩
      cases hc : s.machine.control with
      | ended o => exact ⟨0, o, outcome?_eq_some.mpr hc⟩
      | host site a =>
          have hleaf := h.undisturbed.leaf.control
          rw [hc] at hleaf
          have hgoes := h.goes.resolve_left (by simp [hc])
          obtain ⟨j, hresult, hpending, hsteps⟩ := exists_result hleaf hc hgoes
          refine hlower j (rank_lt ?_ (.inl ?_))
          · rw [hsteps, (h.advance hk j).limits.limits.1, h.limits.limits.1]
          · have heffort : s.machine.effort = 5 + (1 + efforts s.machine.pending) := by
              simp [effort, hc, near?, Control.effort]
            have hle := effort_le (s.advance j).machine
            rw [(Control.effort_of_isResult hresult).1, hpending] at hle
            omega
      | _ =>
          refine hlower 1 ?_
          rw [advance_succ]
          have hended : ∀ o, s.machine.control ≠ .ended o := by simp [hc]
          change s.step.machine.rank < s.machine.rank
          rw [h.step_eq hended]
          exact (h.descends hk hended (by simp [hc])).rank

/-- A run makes progress once its beginning has been reported. -/
lemma progressing_launch {s₀ : Session} {program : Program} {l : Launch}
    (hl : ∀ p ∈ l.plugins, p.Leaf) (hcancelled : l.cancelled = false)
    (hstepping : l.stepping = false) (hbusy : program.busy = true)
    (h : s₀.launch program l = .ok s) : Progressing s₀.maxSteps s₀.maxDepth s.step := by
  simp only [Program.busy, Bool.and_eq_true, List.all_eq_true] at hbusy
  have hfunctions : s.machine.functions.All Function.Busy := by
    refine all_functions_launch (fun _ _ _ _ => trivial) ?_ h
    intro q hq params
    exact hbusy.2 _ hq
  have hundisturbed := undisturbed_launch hl hcancelled h
  have hlimits := under_launch h
  obtain ⟨machine, hm, rfl⟩ := launch_eq_ok.mp h
  obtain ⟨functions, -, rfl⟩ := freshMachine_eq_ok hm
  refine ⟨hundisturbed.step, hlimits.step, hstepping, by rintro n ⟨⟩, .inr rfl, hfunctions,
    trivial, ?_⟩
  exact List.forall_mem_cons.mpr ⟨hbusy.1, by simp⟩

/-! ### A loop that does nothing -/

/-- The condition that is never met. -/
def never (span : Span) : Node := .literal span (.bool false)

/-- A conditional loop with an empty body whose condition is never met. -/
def idleLoop (span cond body : Span) : Node := .repeatUntil span (never cond) (.of body [])

/-- The program that is just this loop. -/
def idling (span cond body : Span) : Program where
  statements := [idleLoop span cond body]

/-- Where a run of this program can be. -/
inductive Spins (span cond body : Span) (m : Machine) : Prop where
  | begins (control : m.control = .complete .next)
      (pending : m.pending = [.sequence [idleLoop span cond body]]) (steps : m.steps = 0)
  | reaches (control : m.control = .reach (idleLoop span cond body)) (steps : m.steps = 0)
  | enters (control : m.control = .exec (idleLoop span cond body) ∨
      ∃ p, m.control = .boundary p (idleLoop span cond body))
  | rounds {K : List Pending} (control : m.control = .complete .next)
      (pending : m.pending = .until (never cond) (.of body []) :: K)
  | tests {K : List Pending} (control : m.control = .eval (never cond))
      (pending : m.pending = .untilTest (never cond) (.of body []) :: K)
  | goesOn {K : List Pending} (control : m.control = .value (.bool false))
      (pending : m.pending = .untilTest (never cond) (.of body []) :: K)
  | turns {K : List Pending} (control : m.control = .block (.of body []))
      (pending : m.pending = .until (never cond) (.of body []) :: K)
  | returns {K : List Pending} (control : m.control = .complete .next)
      (pending : m.pending = .sequence [] :: .until (never cond) (.of body []) :: K)

/-- The run goes round the loop and has not been told to end; its observer does not break down if
it is single-stepped. -/
structure Idle (span cond body : Span) (s : Session) : Prop where
  spins : Spins span cond body s.machine
  untold : s.controller.cancelled = false ∧ s.controller.wait ≠ .dismissed
  sturdy : s.controller.stepping = true ∨ (∃ n, s.machine.control = .boundary .paused n) →
    s.controller.fragile = false

/-- Where it stands at the boundary of the loop is no matter. -/
lemma Idle.pass {span cond body : Span} {p : Standing}
    (h : Idle span cond body s)
    (hc : s.machine.control = .boundary p (idleLoop span cond body)) :
    Idle span cond body s.proceed := by
  obtain ⟨-, ⟨huntold, hwait⟩, hsturdy⟩ := h
  have hexec : ∀ {k : Controller}, k.cancelled = s.controller.cancelled →
      k.stepping = s.controller.stepping → k.fragile = s.controller.fragile →
      k.wait ≠ .dismissed →
      Idle span cond body (Session.goto { s with controller := k }
        (.exec (idleLoop span cond body))) := by
    intro k hcancelled hstepping hfragile hwait'
    refine ⟨.enters (.inl rfl), ⟨hcancelled.trans huntold, hwait'⟩, ?_⟩
    rintro (hstepping' | ⟨n, ⟨⟩⟩)
    exact hfragile.trans (hsturdy (.inl (hstepping.symm.trans hstepping')))
  cases p with
  | admitted =>
      have hheeding := heeding_proceed hc
      generalize s.proceed = t at hheeding ⊢
      cases hheeding with
      | @begun k token speed controller =>
          subst controller
          exact hexec rfl rfl rfl hwait
      | slowed stepping speed controller =>
          subst controller
          refine ⟨.enters (.inr ⟨_, rfl⟩), ⟨huntold, hwait⟩, ?_⟩
          rintro (hstepping | ⟨n, ⟨⟩⟩)
          exact hsturdy (.inl hstepping)
      | pauses stepping token phase controller =>
          subst controller
          exact ⟨.enters (.inr ⟨_, rfl⟩), ⟨huntold, hwait⟩, fun _ => hsturdy (.inl stepping)⟩
  | throttled =>
      rw [proceed_throttled hc, if_neg (by simp [huntold])]
      refine ⟨.enters (.inr ⟨_, rfl⟩), ⟨huntold, hwait⟩, ?_⟩
      rintro (hstepping | ⟨n, ⟨⟩⟩)
      exact hsturdy (.inl hstepping)
  | delayed =>
      rw [proceed_delayed hc, if_neg (by simp [huntold])]
      exact hexec rfl rfl rfl hwait
  | paused =>
      have hfragile := hsturdy (.inr ⟨_, hc⟩)
      have hwaking := waking_proceed hc
      generalize s.proceed = t at hwaking ⊢
      cases hwaking with
      | polls wait =>
          refine ⟨.enters (.inr ⟨_, hc⟩), ⟨?_, ?_⟩, fun _ => ?_⟩
          · rw [Controller.poll_eq]
            exact huntold
          · simp only [Controller.poll, huntold]
            split
            · simp
            · simp
          · rw [Controller.poll_eq]
            exact hfragile
      | waits wait => exact ⟨.enters (.inr ⟨_, hc⟩), ⟨huntold, hwait⟩, hsturdy⟩
      | begun wait => exact hexec rfl rfl rfl (by simp [Controller.proceed])
      | told wait => exact absurd wait hwait

/-- The run goes on round the loop. -/
lemma Idle.proceed {span cond body : Span} (h : Idle span cond body s) :
    Idle span cond body s.proceed := by
  have hpass := fun p => h.pass (p := p)
  obtain ⟨hspins, huntold, hsturdy⟩ := h
  -- away from the boundary the controls are left alone
  have hkeep : ∀ {m' : Machine}, s.proceed = { s with machine := m' } → Spins span cond body m' →
      (∀ n, m'.control ≠ .boundary .paused n) → Idle span cond body s.proceed := by
    intro m' hproceed hm' hmoving
    rw [hproceed]
    refine ⟨hm', huntold, ?_⟩
    rintro (hstepping | ⟨n, hn⟩)
    · exact hsturdy (.inl hstepping)
    · exact absurd hn (hmoving n)
  cases hspins with
  | begins control pending steps =>
      refine hkeep (by rw [proceed_complete control, withTask_cons pending]) ?_ ?_
      · exact .reaches rfl steps
      · rintro n ⟨⟩
  | reaches control steps =>
      -- the first statement is within every limit
      have hover : ¬(0 < s.machine.maxSteps ∧ s.machine.maxSteps < s.machine.steps + 1) := by
        omega
      have harrival := arrival_proceed control
      generalize hproceed : s.proceed = t at harrival hkeep ⊢
      cases harrival with
      | missing absent => simp [idleLoop, Node.isMissing] at absent
      | excess present exceeded => exact absurd exceeded hover
      | told counted cancelled => simp [huntold] at cancelled
      | admitted counted cancelled =>
          exact hkeep rfl (.enters (.inr ⟨_, rfl⟩)) (by rintro n ⟨⟩)
  | enters control =>
      rcases control with control | ⟨p, control⟩
      · have hproceed : s.proceed =
            { s with machine := s.machine.exec (idleLoop span cond body) } := by
          simp only [Session.proceed, control]
        exact hkeep hproceed (.rounds rfl rfl) (by rintro n ⟨⟩)
      · exact hpass p control
  | rounds control pending =>
      refine hkeep (by rw [proceed_complete control, withTask_cons pending]) ?_ ?_
      · rw [huntold.1]
        exact .tests rfl rfl
      · rw [huntold.1]
        rintro n ⟨⟩
  | tests control pending =>
      have hproceed : s.proceed = { s with machine := s.machine.eval (never cond) } := by
        simp only [Session.proceed, control]
      exact hkeep hproceed (.goesOn rfl pending) (by rintro n ⟨⟩)
  | goesOn control pending =>
      refine hkeep (by rw [proceed_value control, withTask_cons pending]) ?_ ?_
      · exact .turns rfl rfl
      · rintro n ⟨⟩
  | turns control pending =>
      have hproceed : s.proceed = { s with machine := s.machine.block (.of body []) } := by
        simp only [Session.proceed, control]
      exact hkeep hproceed (.returns rfl (congrArg _ pending)) (by rintro n ⟨⟩)
  | returns control pending =>
      refine hkeep (by rw [proceed_complete control, withTask_cons pending]) ?_ ?_
      · exact .rounds rfl rfl
      · rintro n ⟨⟩

/-- So it does at every step, as the observer does not break down. -/
lemma Idle.step {span cond body : Span} (h : Idle span cond body s) :
    Idle span cond body s.step := by
  refine step_cases (fun _ _ => ⟨h.spins, h.untold, h.sturdy⟩) ?_ fun _ => h.proceed
  intro _ hfalters
  have hfragile := h.sturdy (.inr (exists_paused_of_falters hfalters))
  simp [falters, hfragile] at hfalters

lemma Spins.goes {span cond body : Span} {m : Machine} (h : Spins span cond body m) :
    (∀ o, m.control ≠ .ended o) ∧ ∀ site a, m.control ≠ .held site a := by
  cases h with
  | enters control =>
      rcases control with control | ⟨p, control⟩
      · simp [control]
      · simp [control]
  | begins control _ _ | reaches control _ | rounds control _ | tests control _ | goesOn control _
  | turns control _ | returns control _ => simp [control]

lemma Idle.happen {span cond body : Span} (h : Idle span cond body s) {e : Event}
    (hstop : e ≠ .stop) (hcancel : e ≠ .cancel)
    (hsturdy : e = .resume true → s.controller.fragile = false) :
    Idle span cond body (s.happen e) := by
  cases e with
  | step => exact h.step
  | stop => exact absurd rfl hstop
  | cancel => exact absurd rfl hcancel
  | setSpeed n => exact ⟨h.spins, h.untold, h.sturdy⟩
  | favour eager => exact ⟨h.spins, h.untold, h.sturdy⟩
  | report =>
      simp only [Session.happen, reportCall]
      split
      · exact ⟨h.spins, h.untold, h.sturdy⟩
      · exact h
  | resume stepping =>
      rw [happen_resume]
      cases hresume : s.controller.resume? stepping with
      | none => exact h
      | some c =>
          have heq := Controller.resume?_eq hresume
          have hfragile : c.fragile = s.controller.fragile := by rw [heq]
          have hstepping : c.stepping = stepping := by rw [heq]
          refine ⟨h.spins, ⟨?_, ?_⟩, ?_⟩
          · rw [Option.getD_some, heq]
            exact h.untold.1
          · rcases Controller.wait_of_resume? hresume with hwait | ⟨-, hwait⟩
            · rw [Option.getD_some, hwait]
              exact h.untold.2
            · simp [hwait]
          · rintro (hmode | hpaused)
            · refine hfragile.trans (hsturdy ?_)
              rw [← hstepping, show c.stepping = true from hmode]
            · exact hfragile.trans (h.sturdy (.inr hpaused))
  | release =>
      rcases happen_release s with heq | ⟨site, next, hheld, -⟩
      · rw [heq]
        exact h
      · exact absurd hheld (h.spins.goes.2 site next)

/-- The loop goes on whatever happens, short of being told to end. -/
lemma Idle.after {span cond body : Span} (h : Idle span cond body s) (hs : Sound s.machine)
    {es : List Event} (hes : ∀ e ∈ es, e ≠ .stop ∧ e ≠ .cancel ∧
      (e = .resume true → s.controller.fragile = false)) :
    Idle span cond body (s.after es) := by
  induction es generalizing s with
  | nil => exact h
  | cons e es ih =>
      obtain ⟨hstop, hcancel, hsturdy⟩ := hes e List.mem_cons_self
      refine ih (h.happen hstop hcancel hsturdy) (sound_happen hs e) fun e' he' => ?_
      rw [fragile_happen hs e]
      exact hes e' (List.mem_cons_of_mem _ he')

/-- **The step budget bounds a run.**  Take a session `s₀` with a limit on the statements of a run
and the builtin functions.

* Every program ends in which no counted and no conditional loop has an empty body.
* The program that is just a conditional loop with an empty body, whose condition is never met, does
  not end: not after any number of steps and whatever happens meanwhile, unless the run is told to
  end, or its observer breaks down because it is single-stepped. -/
theorem step_budget {s₀ : Session} (hpositive : 0 < s₀.maxSteps) (random : RandomSource) :
    (∀ program s, program.busy = true →
      s₀.launch program { plugins := [Builtins.plugin], random } = .ok s →
      ∃ fuel o, (s.advance fuel).outcome? = some o) ∧
    ∀ span cond body, ∃ t,
      s₀.launch (idling span cond body) { plugins := [Builtins.plugin], random } = .ok t ∧
      ∀ es, (∀ e ∈ es, e ≠ .stop ∧ e ≠ .cancel ∧
          (e = .resume true → s₀.controller.fragile = false)) →
        (t.after es).outcome? = none := by
  have hplugins : ∀ p ∈ [Builtins.plugin], p.Leaf := by
    simpa using Builtins.leaf_plugin
  constructor
  · intro program s hbusy hs
    obtain ⟨fuel, o, ho⟩ := (progressing_launch hplugins rfl rfl hbusy hs).ends hpositive
    exact ⟨fuel + 1, o, by rwa [advance_step]⟩
  · intro span cond body
    have ht : s₀.launch (idling span cond body) { plugins := [Builtins.plugin], random } =
      .ok (s₀.launched _ _ _) := launch_eq_ok.mpr ⟨_, rfl, rfl⟩
    refine ⟨_, ht, fun es hes => ?_⟩
    have hidle := Idle.after ⟨.begins rfl rfl rfl, ⟨rfl, by rintro ⟨⟩⟩,
      by rintro (⟨⟨⟩⟩ | ⟨n, ⟨⟩⟩)⟩
      (sound_launch ht) hes
    cases ho : (Session.after _ es).outcome? with
    | none => rfl
    | some o => exact absurd (outcome?_eq_some.mp ho) (hidle.spins.goes.1 o)

/-- A procedure that calls itself, and a loop over its result that never ends. -/
def endless : Program where
  statements :=
    [.repeatUntil (.point 1 1) (.literal .none (.bool false))
      (.of .none [.call (.point 2 3) (some ⟨.none, "f"⟩) []])]
  procedures :=
    [some (.of .none (some ⟨.none, "f"⟩) [] (.of .none
      [.ifElse (.point 4 3) [],
       .return (.point 5 3) (.call .none (some ⟨.none, "f"⟩) [])]))]

/-- A program that calls a procedure without end is ended by a limit of nine statements, a loop that
does nothing is not. -/
theorem step_budget_endless :
    (∃ s, launch { maxSteps := 9 } endless { plugins := [Builtins.plugin] } = .ok s ∧
      ∃ fuel o, (s.advance fuel).outcome? = some o) ∧
    ∃ t, launch { maxSteps := 9 } (idling .none .none .none) { plugins := [Builtins.plugin] } =
        .ok t ∧
      ∀ fuel, (t.advance fuel).outcome? = none := by
  obtain ⟨hends, hspins⟩ := @step_budget { maxSteps := 9 } (by decide) default
  constructor
  · have hs : launch { maxSteps := 9 } endless { plugins := [Builtins.plugin] } =
      .ok ((begun endless { plugins := [Builtins.plugin] }).withLimits 9 10000) := rfl
    exact ⟨_, hs, hends endless _ rfl hs⟩
  · obtain ⟨t, ht, hnone⟩ := hspins .none .none .none
    refine ⟨t, ht, fun fuel => ?_⟩
    rw [advance_eq_after]
    refine hnone _ fun e he => ?_
    rw [List.eq_of_mem_replicate he]
    simp

end Session

end Pseudocode
