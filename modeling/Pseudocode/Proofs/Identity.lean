/-
# The identity of failures

A fault is what it was when it arose, however it comes to be reported.  On its way up it passes
procedures, which leave it alone, and it is handed to the host functions whose calls have failed.
Such a function may fail with it in turn, with or without a context around it, and the fault is on
its way again.  Only the frames that it takes along are added to it.

Where a fault is, is told by a record that is kept beside the run: it is on its way up, or it has
been handed to a host function that is still acting, or it is lost, because the host function that
had it has ended otherwise.

An error of the host's own, or a breakdown of a host function, becomes a fault that is located at
the call of the host function.  So what a run reports in the end is always a fault.

The main results are

* `Machine.Move.acts`: a host function goes on acting while there is anything left for it to do;
* `Session.Traced.step`: a step keeps the record of a fault true;
* `Session.failure_identity`: what has been said above.
-/
import Pseudocode.Proofs.Balance
import Pseudocode.Proofs.Custody
import Pseudocode.Proofs.Limits
import Pseudocode.Proofs.Location
import Pseudocode.Proofs.Taking

namespace Pseudocode

namespace Failure

/-- The failure tells of the fault `f`, which may have taken frames along. -/
def Reports (e : Failure) (f : Fault) : Prop := ∃ stack, e.fault? = some { f with stack }

/-- A failure is `e`, or `e` in one or more contexts. -/
inductive Relays (e : Failure) : Failure → Prop where
  | same : Relays e e
  | wrapped {e' : Failure} (context : String) (h : Relays e e') : Relays e (.wrapped context e')

variable {e e' : Failure} {f : Fault}

lemma Relays.fault?_eq (h : e.Relays e') : e'.fault? = e.fault? := by
  induction h with
  | same => rfl
  | wrapped context _ ih => exact ih

lemma Reports.relays (h : e.Reports f) (hrelays : e.Relays e') : e'.Reports f := by
  obtain ⟨stack, hf⟩ := h
  exact ⟨stack, by rw [hrelays.fault?_eq, hf]⟩

lemma Reports.isOwn (h : e.Reports f) : e.isOwn = true := by
  obtain ⟨stack, hf⟩ := h
  simp [Failure.isOwn, hf]

lemma Reports.isStopped (h : e.Reports f) : e.isStopped = false := by
  obtain ⟨stack, hf⟩ := h
  exact isStopped_of_fault? hf

/-- It makes no difference to the fault that it takes frames along. -/
lemma Reports.handed (h : e.Reports f) (m : Machine) (depth : Nat) :
    (m.handed e depth).Reports f := by
  obtain ⟨stack, hf⟩ := h
  unfold Machine.handed
  split
  · exact ⟨_, by rw [fault?_withStack, hf]; rfl⟩
  · exact ⟨stack, hf⟩

end Failure

namespace Machine

variable {m m' : Machine}

/-- A host function comes to its end by an outcome of its own: when there is a result in hand for
the task that leaves it, it has just had that outcome, or there was one before. -/
lemma Move.acts (h : Move false m m') (hm : Sound m)
    (hcrash : ∀ text, m.control = .crash text → Fits .action m.pending) {name : String}
    {site : Span} {depth : Nat} {K : List Pending}
    (hpending : m'.pending = .hostCall name site depth :: K)
    (hresult : m'.control.isResult = true) : m.pending = m'.pending := by
  -- the task on top then waits for a host function and for nothing else
  have hlast : ∀ {d : Due} {L : List Pending}, Fits d L → m'.pending = L → d = .action := by
    intro d L hf hL
    rw [← hL, hpending] at hf
    exact hf.tail.1.symm
  have hplain : ∀ {d : Due} {m₀ : Machine}, d ≠ .action → Fits d m₀.pending → ¬ Plain d m₀ m' := by
    intro d m₀ hd hf h
    cases h.shape with
    | fails _ _ pending => exact hd (hlast hf pending)
    | goes _ pending => exact hd (hlast hf pending)
    | awaits plain _ _ pending =>
        rw [hpending, List.cons.injEq] at pending
        simp [← pending.1, Pending.isPlain] at plain
  cases h with
  | stay _ | outcome _ _ => rfl
  | plain control h =>
      obtain ⟨hdue, hd, hv⟩ := Control.due?_of_work? control
      exact absurd h (hplain hd (hm.of_due hdue hv).1)
  | task pending hp control _ h =>
      exact absurd h (hplain (Pending.yields_ne_action hp) (hm.below control pending).1)
  | pass control _ =>
      have hf := (hm.of_due (d := .completion) (by rw [control]; rfl) (by simp [control])).1
      exact absurd (hlast hf rfl) (by simp)
  | leave control pending =>
      have hf := (hm.below (d := .completion) (by rw [control]; rfl) pending).1
      exact absurd (hlast hf rfl) (by simp [Pending.yields])
  | exit control pending =>
      have hf := (hm.below (d := .completion) (by rw [control]; rfl) pending).1
      exact absurd (hlast hf rfl) (by simp [Pending.yields])
  | exitHost control pending =>
      have hf := (hm.below (d := .value) (by rw [control]; rfl) pending).1
      exact absurd (hlast hf rfl) (by simp [Pending.yields])
  | unwind control pending ht hy =>
      obtain ⟨d, hf, -, -⟩ := hm.of_fail control
      rw [pending] at hf
      exact absurd (hlast hf.tail.2 rfl) hy
  | unwindHost control pending =>
      obtain ⟨d, hf, -, -⟩ := hm.of_fail control
      rw [pending] at hf
      exact absurd (hlast hf.tail.2 rfl) (by simp [Pending.yields])
  | collapse control pending ht =>
      have hf := hcrash _ control
      rw [pending] at hf
      exact absurd hf.tail.1 ht
  | collapseHost control pending =>
      obtain ⟨d, hf, -⟩ := hm.of_crash control
      rw [pending] at hf
      exact absurd (hlast hf.tail.2 rfl) (by simp [Pending.yields])
  | request _ control' _ =>
      cases hc : m'.control <;> simp [hc, Control.due?, Control.isResult] at control' hresult
  | finish _ pending _ keeps => simp [keeps.pending, pending] at hpending
  | answer _ _ | hand _ _ | enterHost _ _ => simp [Machine.await, Control.isResult] at hresult
  | breakdown _ hfragile => simp at hfragile
  | close _ => cases hresult
  | reach _ _ | enter _ | reenter _ => simp [Machine.await] at hpending

end Machine

/-! ### The record -/

/-- Where a fault is that was on its way up at some moment. -/
inductive Whereabouts where
  /-- It is on its way up, in the failure `e`. -/
  | aloft (e : Failure)
  /-- It has been handed to a host function in the failure `e`.  The call of the host function is
  told by the number of tasks, itself included, that it has been put on top of. -/
  | given (e : Failure) (call : Nat)
  /-- The host function to which it was handed has not failed with it. -/
  | lost

open Classical in
/-- What becomes of a failure that was handed to a host function when that function ends. -/
noncomputable def Whereabouts.settle (e : Failure) : Action Value → Option Whereabouts
  | .fail e' => some (if e.Relays e' then .aloft e' else .lost)
  | .pure _ | .crash _ => some .lost
  | .ask _ _ => none

/-- The record when the run has gone on. -/
noncomputable def Whereabouts.next (w : Whereabouts) (s : Session) : Whereabouts :=
  match w with
  | .aloft e =>
      match s.machine.pending with
      | .reenter _ depth _ :: rest => .given (s.machine.handed e depth) rest.length
      | _ => .aloft e
  | .given e call =>
      match s.machine.control with
      | .host _ a =>
          if s.machine.pending.length = call then (settle e a).getD (.given e call)
          else .given e call
      | _ => .given e call
  | .lost => .lost

namespace Session

open Machine

variable {s a : Session} {f : Fault} {w : Whereabouts}

/-- The record after a schedule. -/
noncomputable def whereabouts (w : Whereabouts) : Session → List Event → Whereabouts
  | _, [] => w
  | s, e :: es => whereabouts (if s.goesOn e then w.next s else w) (s.happen e) es

/-- A host function that fails with what it was handed sends it on its way again. -/
lemma next_given_of_relays {e e' : Failure} {site : Span}
    (hc : s.machine.control = .host site (.fail e')) (h : e.Relays e') :
    Whereabouts.next (.given e s.machine.pending.length) s = .aloft e' := by
  simp [Whereabouts.next, hc, Whereabouts.settle, h]

lemma whereabouts_lost (s : Session) (es : List Event) : s.whereabouts .lost es = .lost := by
  induction es generalizing s with
  | nil => rfl
  | cons e es ih =>
      simp only [whereabouts, Whereabouts.next, ite_self]
      exact ih _

lemma whereabouts_append (w : Whereabouts) (s : Session) (es es' : List Event) :
    s.whereabouts w (es ++ es') = (s.after es).whereabouts (s.whereabouts w es) es' := by
  induction es generalizing s w with
  | nil => rfl
  | cons e es ih => exact ih _ _

/-- What the record tells is true: the fault is on its way up, or the host function that has it is
still acting. -/
inductive Traced (f : Fault) (s : Session) : Whereabouts → Prop where
  | aloft {e : Failure} (control : s.machine.control = .fail e) (reports : e.Reports f) :
      Traced f s (.aloft e)
  | given {e : Failure} {name : String} {site : Span} {depth : Nat} {K : List Pending}
      (reports : e.Reports f) (below : .hostCall name site depth :: K <:+ s.machine.pending)
      (acting : s.machine.pending = .hostCall name site depth :: K →
        s.machine.control.isResult = false) :
      Traced f s (.given e (K.length + 1))
  | lost : Traced f s .lost

lemma isResult_perform (site : Span) (q : Request) (next : q.Answer → Action Value) :
    (s.perform site q next).machine.control.isResult = false := by
  cases q with
  | resume stepping =>
      simp only [perform]
      split
      · rfl
      · rfl
  | _ => rfl

/-- A request leaves the tasks where they are. -/
lemma suffix_perform (site : Span) (q : Request) (next : q.Answer → Action Value) :
    s.machine.pending <:+ (s.perform site q next).machine.pending := by
  cases q with
  | call name args => exact List.suffix_cons _ _
  | resume stepping =>
      simp only [perform]
      split
      · exact List.suffix_rfl
      · exact List.suffix_rfl
  | _ => exact List.suffix_rfl

/-- A host function whose task is on top acts, or waits to be released, if there is no result in
hand. -/
lemma due?_of_acting {name : String} {site : Span} {depth : Nat} {K : List Pending}
    (hs : Sound s.machine) (hrun : s.machine.control.settled? = none)
    (hp : s.machine.pending = .hostCall name site depth :: K)
    (hacting : s.machine.control.isResult = false) : s.machine.control.due? = some .action := by
  cases hs with
  | active control fits _ =>
      rw [hp] at fits
      rw [control, ← fits.tail.1]
      rfl
  | handing control _ _ | failing control _ _ _ | broken control _ _ =>
      simp [control, Control.isResult] at hacting
  | ended control => simp [Control.settled?_eq_some.mpr control] at hrun

/-- A failure on its way up is handed to a host function, or goes on as it is. -/
lemma traced_unwind {e : Failure} (hreports : e.Reports f) (hs : Sound s.machine)
    (hc : s.machine.control = .fail e) (hrunning : s.proceed.machine.control.settled? = none) :
    Traced f s.proceed (Whereabouts.next (.aloft e) s) := by
  obtain ⟨d, hfits, -, -⟩ := hs.of_fail hc
  cases hp : s.machine.pending with
  | nil =>
      rw [proceed_fail hc, withTask_nil hp, finishFailed] at hrunning
      split at hrunning
      · cases hrunning
      · cases hrunning
  | cons p rest =>
      have hproceed : s.proceed =
          { s with machine := Machine.unwind { s.machine with pending := rest } e p } := by
        rw [proceed_fail hc, withTask_cons hp]
      rw [hp] at hfits
      cases p with
      | reenter site depth next =>
          obtain ⟨name, site', K, hK, -⟩ := hfits.tail.2.exists_hostCall
          have hnext : Whereabouts.next (.aloft e) s =
              .given (s.machine.handed e depth) (K.length + 1) := by
            simp only [Whereabouts.next, hp, hK, List.length_cons]
          have hbelow : .hostCall name site' (height K) :: K <:+ s.proceed.machine.pending := by
            have hpending : s.proceed.machine.pending = .hostCall name site' (height K) :: K := by
              rw [hproceed, ← hK]
              simp only [Machine.unwind]
              split
              · rfl
              · rfl
            exact hpending ▸ List.suffix_rfl
          rw [hnext]
          refine .given (hreports.handed _ _) hbelow fun _ => ?_
          rw [hproceed, control_unwind_reenter]
          rfl
      | hostCall name site depth =>
          have hnext : Whereabouts.next (.aloft e) s = .aloft e := by
            simp only [Whereabouts.next, hp]
          rw [hnext]
          refine .aloft ?_ hreports
          rw [hproceed]
          simp [Machine.unwind, Machine.goto, hostFailure, hreports.isOwn]
      | _ =>
          have hnext : Whereabouts.next (.aloft e) s = .aloft e := by
            simp only [Whereabouts.next, hp]
          rw [hnext, hproceed]
          exact .aloft hc hreports

/-- The host function that has the fault is the one that acts. -/
lemma traced_act {e : Failure} {name : String} {site : Span} {depth : Nat} {K : List Pending}
    (hreports : e.Reports f) (hp : s.machine.pending = .hostCall name site depth :: K)
    (hdue : s.machine.control.due? = some .action) :
    Traced f s.proceed (Whereabouts.next (.given e (K.length + 1)) s) := by
  have hbelow : .hostCall name site depth :: K <:+ s.machine.pending := hp ▸ List.suffix_rfl
  cases hc : s.machine.control with
  | held site' next =>
      have hnext : Whereabouts.next (.given e (K.length + 1)) s = .given e (K.length + 1) := by
        simp only [Whereabouts.next, hc]
      have hproceed : s.proceed = s := by simp only [Session.proceed, hc]
      rw [hnext, hproceed]
      exact .given hreports hbelow fun _ => by rw [hc]; rfl
  | host site' a =>
      have hnext : Whereabouts.next (.given e (K.length + 1)) s =
          (Whereabouts.settle e a).getD (.given e (K.length + 1)) := by
        simp only [Whereabouts.next, hc, hp, List.length_cons, if_true]
      have hproceed : s.proceed = s.act site' a := by simp only [Session.proceed, hc]
      rw [hnext, hproceed]
      cases a with
      | pure v | crash text => exact .lost
      | fail e' =>
          simp only [Whereabouts.settle, Option.getD_some]
          split
          · rename_i hrelays
            exact .aloft rfl (hreports.relays hrelays)
          · exact .lost
      | ask q next =>
          exact .given hreports (hbelow.trans (suffix_perform site' q next))
            fun _ => isResult_perform site' q next
  | _ => simp [hc, Control.due?] at hdue

/-- As long as the outcome of the run is open, the record is true when the run has gone on. -/
theorem Traced.proceed (h : Traced f s w) (hs : Guarded s) (hsturdy : s.controller.fragile = false)
    (hrunning : s.proceed.machine.control.settled? = none) : Traced f s.proceed (w.next s) := by
  cases h with
  | lost => exact .lost
  | aloft control reports => exact traced_unwind reports hs.sound control hrunning
  | @given e name site depth K reports below acting =>
      by_cases hp : s.machine.pending = .hostCall name site depth :: K
      · have hrun : s.machine.control.settled? = none :=
          Option.eq_none_iff_forall_ne_some.mpr fun o ho => by
            simp [(proceed_move false hs.sound).settled ho] at hrunning
        exact traced_act reports hp (due?_of_acting hs.sound hrun hp (acting hp))
      · -- what is done now is done for the host function, and does not concern the fault
        have hlength : s.machine.pending.length ≠ K.length + 1 := fun hlength =>
          hp (below.eq_of_length hlength.symm).symm
        have hnext : Whereabouts.next (.given e (K.length + 1)) s = .given e (K.length + 1) := by
          simp only [Whereabouts.next, if_neg hlength]
          split
          · rfl
          · rfl
        have hmove := proceed_move false hs.sound
        rw [hnext]
        refine .given reports ((proceed_taken hs.sound below).resolve_right fun h => hp h.1) ?_
        intro hp'
        by_contra hresult
        rw [Bool.not_eq_false] at hresult
        exact hp ((hmove.acts hs.sound (hs.crash hsturdy) hp' hresult).trans hp')

/-- What happens aside does not touch the fault. -/
lemma Traced.aside {t : Session} (h : Traced f s w) (ht : Aside s t)
    (hsturdy : s.controller.fragile = false) : Traced f t w := by
  cases ht with
  | controls c =>
      cases h with
      | aloft control reports => exact .aloft control reports
      | given reports below acting => exact .given reports below acting
      | lost => exact .lost
  | release held =>
      cases h with
      | aloft control _ => simp [held] at control
      | given reports below _ => exact .given reports below fun _ => rfl
      | lost => exact .lost
  | falter _ falters => simp [Session.falters, hsturdy] at falters

/-- As long as the outcome of the run is open, the record of a fault is true. -/
lemma Traced.after (h : Traced f s w) (hs : Guarded s) (hsturdy : s.controller.fragile = false)
    {es : List Event} (hrunning : (s.after es).machine.control.settled? = none) :
    Traced f (s.after es) (s.whereabouts w es) := by
  induction es generalizing s w with
  | nil => exact h
  | cons e es ih =>
      have hrest : (s.happen e).machine.control.settled? = none :=
        Option.eq_none_iff_forall_ne_some.mpr fun o ho => by
          rw [after_cons, settled?_after (sound_happen hs.sound e) ho es] at hrunning
          cases hrunning
      refine ih ?_ (hs.happen e) ((fragile_happen hs.sound e).trans hsturdy) hrunning
      rcases happen_cases s e with ⟨hgoes, heq⟩ | ⟨hgoes, haside⟩
      · rw [if_pos hgoes, heq]
        exact h.proceed hs hsturdy (heq ▸ hrest)
      · rw [if_neg (by simp [hgoes])]
        exact h.aside haside hsturdy

/-- The outcome of a run was settled when it went on at some moment. -/
lemma exists_ending (hs : Sound s.machine) (hrun : s.machine.control.settled? = none)
    {es : List Event} {o : Outcome} (ho : (s.after es).machine.control.settled? = some o) :
    ∃ es₁ es₂, es = es₁ ++ Event.step :: es₂ ∧ (s.after es₁).machine.control.settled? = none ∧
      (s.after es₁).machine.pending = [] ∧ Ending (s.after es₁) o := by
  induction es generalizing s with
  | nil => simp [Session.after, hrun] at ho
  | cons e es ih =>
      cases hsettled : (s.happen e).machine.control.settled? with
      | some o' =>
          have heq : o' = o := by
            rw [after_cons, settled?_after (sound_happen hs e) hsettled es, Option.some.injEq] at ho
            exact ho
          subst heq
          rcases happen_cases s e with ⟨hgoes, hproceed⟩ | ⟨-, haside⟩
          · obtain rfl : e = .step := by
              simp only [goesOn, Bool.and_eq_true, decide_eq_true_eq] at hgoes
              exact hgoes.1
            obtain ⟨hp, -, hending, -, -⟩ := ending_of_settled hs (hproceed ▸ hsettled) hrun
            exact ⟨[], es, rfl, hrun, hp, hending⟩
          · -- nothing is settled aside
            exfalso
            generalize s.happen e = t at haside hsettled
            cases haside with
            | controls c => simp [hrun] at hsettled
            | release _ => cases hsettled
            | falter _ _ => cases hsettled
      | none =>
          obtain ⟨es₁, es₂, rfl, hrest⟩ := ih (sound_happen hs e) hsettled ho
          exact ⟨e :: es₁, es₂, rfl, hrest⟩

/-! ### What is reported -/

/-- A run shows an error if and only if it has failed.  The error has a fault inside, and is not
that of a stopped run. -/
lemma error_of_outcome {s₀ t : Session} {program : Program} {l : Launch} {es : List Event}
    {o : Outcome} (ht : s₀.launch program l = .ok t)
    (ho : (t.after es).outcome? = some o) :
    (t.after es).controller.error = o.error ∧
      (o.error.isSome = true ↔ (t.after es).controller.phase = .failed) ∧
      ∀ e, o.error = some e → (∃ f, e.fault? = some f) ∧ e.isStopped = false := by
  have hcontrol := outcome?_eq_some.mp ho
  have hreachable : (t.after es).Reachable := ⟨s₀, program, l, t, es, ht, rfl⟩
  obtain ⟨hphase, herror, -⟩ := hreachable.settled o hcontrol
  have hstart : t.machine.control.settled? = none := by
    obtain ⟨machine, hm, rfl⟩ := launch_eq_ok.mp ht
    obtain ⟨functions, -, rfl⟩ := freshMachine_eq_ok hm
    rfl
  refine ⟨herror, ?_, ?_⟩
  · rw [hphase]
    cases o <;> simp [Outcome.error, Outcome.phase]
  · intro e he
    obtain ⟨es₁, es₂, rfl, hrun, hp, hending⟩ := exists_ending (sound_launch ht) hstart
      (Control.settled?_eq_some.mpr (.inr hcontrol))
    cases hending with
    | failed control _ hstopped =>
        rw [Outcome.error, Option.some.injEq] at he
        subst he
        refine ⟨?_, hstopped⟩
        cases (accounted_launch ht).after (sound_launch ht) es₁ with
        | running _ located _ =>
            rcases located.own _ control with hown | hfits
            · rwa [Failure.isOwn, hstopped, Bool.or_false, Option.isSome_iff_exists] at hown
            · -- an error of the host's own is still inside the call of its host function
              obtain ⟨_, _, _, hcall, -⟩ := hfits.exists_hostCall
              simp [hp] at hcall
        | failed ended _ _ => simp [hrun] at ended
        | ended ended _ => simp [hrun] at ended
    | crashed _ =>
        rw [Outcome.error, Option.some.injEq] at he
        subst he
        exact ⟨⟨_, rfl⟩, rfl⟩
    | _ => simp [Outcome.error] at he

/-- The host functions of a run take any number of arguments. -/
lemma arity_of_host {s : Session} (hs : s.Reachable) {name : String} {arity : Int} {body : Native}
    (hf : Bindings.get? s.machine.functions name = some (.host arity body)) : arity = -1 := by
  obtain ⟨s₀, program, l, t, es, ht, rfl⟩ := hs
  have hall : t.machine.functions.All fun f => ∀ arity body, f = .host arity body → arity = -1 := by
    refine all_functions_launch ?_ ?_ ht
    · rintro - - - - arity body ⟨⟩
      rfl
    · rintro - - - arity body ⟨⟩
  rw [functions_after (sound_launch ht)] at hf
  exact hall.get hf _ _ rfl

/-- A call of a host function lets it act. -/
lemma step_call_host {s : Session} (hs : s.Reachable) {name : String} {args : List Value}
    {site : Span} {arity : Int} {body : Native} (hc : s.machine.control = .call name args site)
    (hf : Bindings.get? s.machine.functions name = some (.host arity body)) :
    s.step.machine =
      s.machine.await (.hostCall name site s.machine.store.depth) (.host site (body args)) := by
  obtain rfl := arity_of_host hs hf
  rw [hs.step_eq (by rw [hc]; rfl)]
  simp [Session.proceed, hc, Machine.call, hf, Function.arity]

/-- A host function that has an outcome comes to it when the run goes on, and with one more step the
outcome goes on. -/
lemma exists_after_act {s : Session} {site : Span} {a : Action Value} {d : Control}
    (hc : s.machine.control = .host site a) (hact : ∀ t : Session, t.act site a = t.goto d) :
    ∃ c : Controller, s.onward.step = Session.proceed (Session.goto { s with controller := c } d) := by
  obtain ⟨c, hgoes, honward⟩ := exists_onward (s := s) (by simp [hc])
  have hproceed : Session.proceed { s with controller := c } =
      Session.goto { s with controller := c } d := by
    rw [← hact]
    simp only [Session.proceed, hc]
  refine ⟨c, ?_⟩
  rw [honward, hproceed]
  exact step_of_not_reporting hgoes

/-- An error of the host's own leaves the host function as a fault located at its call. -/
lemma after_of_host_fail {s : Session} {name : String} {site at' : Span} {depth : Nat}
    {K : List Pending} {e : Failure} (hp : s.machine.pending = .hostCall name site depth :: K)
    (hc : s.machine.control = .host at' (.fail e)) (hplain : e.isOwn = false) :
    s.onward.step.machine =
      { s.machine with
        pending := K
        control := .fail (.fault
          { kind := .hostFunction, detail := name ++ ": " ++ e.message, span := site
            cause := some e.asHostError }) } := by
  obtain ⟨c, hafter⟩ := exists_after_act hc fun _ => rfl
  have hp' : (Session.goto { s with controller := c } (.fail e)).machine.pending =
    .hostCall name site depth :: K := hp
  rw [hafter, proceed_fail rfl, withTask_cons hp']
  simp [Machine.unwind, hostFailure, hplain, Session.goto, Machine.goto]

/-- So does a breakdown. -/
lemma after_of_host_crash {s : Session} {name : String} {site at' : Span} {depth : Nat}
    {K : List Pending} {text : String} (hp : s.machine.pending = .hostCall name site depth :: K)
    (hc : s.machine.control = .host at' (.crash text)) :
    s.onward.step.machine =
      { s.machine with
        pending := K
        store := s.machine.store.truncate depth
        control := .fail (.fault
          { kind := .hostFunction, detail := name ++ ": " ++ text, span := site }) } := by
  obtain ⟨c, hafter⟩ := exists_after_act hc fun _ => rfl
  have hp' : (Session.goto { s with controller := c } (.crash text)).machine.pending =
    .hostCall name site depth :: K := hp
  rw [hafter, proceed_crash rfl, withTask_cons hp']
  rfl

/-- A fault that no host function loses is reported when the run ends, unless the run has been told
to end. -/
lemma reports_of_ended {es : List Event} {e : Failure} {o : Outcome} (hs : Guarded s)
    (hsturdy : s.controller.fragile = false) (hc : s.machine.control = .fail e)
    (hf : e.fault? = some f) (hkept : s.whereabouts (.aloft e) es ≠ .lost)
    (ho : (s.after es).machine.control.settled? = some o) :
    (∃ e' span, o = .failed e' span ∧ e'.Reports f) ∨
      o = .stopped ∧ ∃ es', es' <+: es ∧ (s.after es').outcome? = none ∧
        (s.after es').controller.cancelled = true := by
  obtain ⟨es₁, es₂, rfl, hrun, hp, hending⟩ := exists_ending hs.sound
    (by rw [hc]; rfl) ho
  have htraced := (Traced.aloft hc ⟨f.stack, hf⟩).after hs hsturdy hrun
  cases hw : s.whereabouts (.aloft e) es₁ with
  | lost =>
      rw [whereabouts_append, hw, whereabouts_lost] at hkept
      exact absurd rfl hkept
  | given e' call =>
      rw [hw] at htraced
      cases htraced with
      | given _ below _ => simp [hp] at below
  | aloft e' =>
      rw [hw] at htraced
      cases htraced with
      | aloft control reports =>
          cases hending with
          | failed control' _ _ =>
              rw [control, Control.fail.injEq] at control'
              exact .inl ⟨_, _, rfl, control' ▸ reports⟩
          | stopped _ cancelled =>
              refine .inr ⟨rfl, es₁, List.prefix_append _ _, ?_, cancelled⟩
              rw [Option.eq_none_iff_forall_ne_some]
              intro o' ho'
              simp [outcome?_eq_some.mp ho', Control.settled?] at hrun
          | unwound control' hstopped =>
              rw [control, Control.fail.injEq] at control'
              rw [← control', reports.isStopped] at hstopped
              cases hstopped
          | returned control' | crashed control' => simp [control] at control'
          | fell control' _ => simp [control] at control'

/-- **The identity of failures.**  Start a program with any host functions, and follow any schedule.
The observer does not break down.

* When the run has ended, it shows an error if and only if it has failed.  The error has a fault
  inside, and is not that of a stopped run.
* Let a host function be called as `name` for the call at `site`.  If it fails with an error of the
  host's own or breaks down at some moment `u`, the run goes on from there, and one step later what
  was to be done with its value is left with a fault that is located at `site`; the fault has the
  error for its cause, if it is an error.
* Let a failure with the fault `f` be on its way up at some moment, and let each host function to
  which it is handed fail with it, whatever contexts it puts it in.  When the run has ended, it has
  failed with this fault, unless it is stopped because it was told to end before.  Nothing has been
  added to the fault but frames. -/
theorem failure_identity {s₀ t : Session} {program : Program} {l : Launch}
    (hook : s₀.controller.fragile = false) (ht : s₀.launch program l = .ok t) :
    (∀ es o, (t.after es).outcome? = some o →
      (t.after es).controller.error = o.error ∧
      (o.error.isSome = true ↔ (t.after es).controller.phase = .failed) ∧
      ∀ e, o.error = some e → (∃ f, e.fault? = some f) ∧ e.isStopped = false) ∧
    (∀ es name args site arity body,
      (t.after es).machine.control = .call name args site →
      Bindings.get? (t.after es).machine.functions name = some (.host arity body) →
      (t.after es).step.machine.control = .host site (body args) ∧
      ∀ u, Settles (.hostCall name site (t.after es).machine.store.depth ::
          (t.after es).machine.pending) (t.after es).step u →
        (∀ at' e, u.machine.control = .host at' (.fail e) → e.isOwn = false →
          u.onward.step.machine.pending = (t.after es).machine.pending ∧
          u.onward.step.machine.control = .fail (.fault
            { kind := .hostFunction, detail := name ++ ": " ++ e.message, span := site
              cause := some e.asHostError })) ∧
        (∀ at' text, u.machine.control = .host at' (.crash text) →
          u.onward.step.machine.pending = (t.after es).machine.pending ∧
          u.onward.step.machine.control = .fail (.fault
            { kind := .hostFunction, detail := name ++ ": " ++ text, span := site }))) ∧
    (∀ es e f es' o, (t.after es).machine.control = .fail e → e.fault? = some f →
      (t.after es).whereabouts (.aloft e) es' ≠ .lost →
      ((t.after es).after es').outcome? = some o →
      (∃ e' span, o = .failed e' span ∧ e'.Reports f) ∨
        o = .stopped ∧ ∃ es₁, es₁ <+: es' ∧ ((t.after es).after es₁).outcome? = none ∧
          ((t.after es).after es₁).controller.cancelled = true) := by
  have hreachable : ∀ es, (t.after es).Reachable := fun es => ⟨s₀, program, l, t, es, ht, rfl⟩
  refine ⟨fun es o ho => error_of_outcome ht ho, ?_, ?_⟩
  · intro es name args site arity body hcall hf
    refine ⟨by rw [step_call_host (hreachable es) hcall hf]; rfl, fun u hu => ⟨?_, ?_⟩⟩
    · intro at' e hfail hplain
      rw [after_of_host_fail hu.pending_eq hfail hplain]
      exact ⟨rfl, rfl⟩
    · intro at' text hcrash
      rw [after_of_host_crash hu.pending_eq hcrash]
      exact ⟨rfl, rfl⟩
  · intro es e f es' o hfail hf hkept ho
    have hsturdy : (t.after es).controller.fragile = false := by
      rw [fragile_after (sound_launch ht)]
      obtain ⟨machine, -, rfl⟩ := launch_eq_ok.mp ht
      exact hook
    exact reports_of_ended (hreachable es).guarded hsturdy hfail hf hkept
      (Control.settled?_eq_some.mpr (.inr (outcome?_eq_some.mp ho)))

/-- The procedure `f` returns what `PLAIN` has, which is called from it.  The program calls `f` by
way of `RELAY`. -/
def lucklessProgram : Program where
  statements := [.call (.point 3 1) (some ⟨.none, "RELAY"⟩) []]
  procedures := [some (.of .none (some ⟨.none, "f"⟩) []
    (.of .none [.return (.point 2 1) (.call (.point 2 8) (some ⟨.none, "PLAIN"⟩) [])]))]

/-- A host function that fails with an error of its own. -/
def luckless : Native := fun _ => .error "no luck"

/-- A run of the program. -/
def lucklessRun : Session :=
  begun lucklessProgram { plugins := [{ functions := [("PLAIN", luckless), ("RELAY", relay)] }] }

/-- The record of the error of `PLAIN`, from the moment at which it has left `PLAIN`. -/
lemma whereabouts_luckless {e : Failure}
    (hc : (lucklessRun.after (List.replicate 18 .step)).machine.control = .fail e) :
    (lucklessRun.after (List.replicate 18 .step)).whereabouts (.aloft e)
      (List.replicate 12 .step) ≠ .lost := by
  -- after five steps it is handed to `RELAY`, which fails with it
  obtain ⟨e', site, hgiven, hfail⟩ : ∃ e' site,
      (lucklessRun.after (List.replicate 18 .step)).whereabouts (.aloft e)
        (List.replicate 5 .step) =
          .given e' (lucklessRun.after (List.replicate 23 .step)).machine.pending.length ∧
      (lucklessRun.after (List.replicate 23 .step)).machine.control =
        .host site (.fail (.wrapped "relay" e')) := by
    cases hc
    exact ⟨_, _, rfl, rfl⟩
  have hnext := next_given_of_relays hfail (.wrapped "relay" .same)
  have hrest : (lucklessRun.after (List.replicate 18 .step)).whereabouts (.aloft e)
      (List.replicate 12 .step) =
      (lucklessRun.after (List.replicate 24 .step)).whereabouts (.aloft (.wrapped "relay" e'))
        (List.replicate 6 .step) := by
    rw [← hnext, ← hgiven]
    rfl
  rw [hrest]
  nofun

/-- The error of `PLAIN` passes a procedure and a host function that puts it in a context.  The run
reports it as the fault that is located at the call of `PLAIN`. -/
theorem failure_identity_luckless :
    ∃ e span, (lucklessRun.after (List.replicate 30 .step)).outcome? = some (.failed e span) ∧
      e.message = "relay: host function failed PLAIN: no luck at line 2 col: 8" ∧
      e.Reports { kind := .hostFunction, detail := "PLAIN: no luck", span := .point 2 8
                  cause := some { text := "no luck" } } ∧
      (lucklessRun.after (List.replicate 30 .step)).controller.phase = .failed := by
  have ht : launch {} lucklessProgram
      { plugins := [{ functions := [("PLAIN", luckless), ("RELAY", relay)] }] } =
        .ok lucklessRun := rfl
  obtain ⟨hends, hcalls, hkeeps⟩ := failure_identity rfl ht
  -- `PLAIN` is called after fifteen steps, and has failed after two more
  obtain ⟨-, hacts⟩ :=
    hcalls (List.replicate 15 .step) "PLAIN" [] (.point 2 8) (-1) luckless rfl rfl
  have hsettles := hacts (lucklessRun.after (List.replicate 16 .step))
    ⟨[], within_nil.mpr List.suffix_rfl, rfl, rfl⟩
  obtain ⟨-, hfault⟩ := hsettles.1 (.point 2 8) (.host { text := "no luck" }) rfl rfl
  obtain ⟨e, span, ho, hmessage⟩ : ∃ e span,
      ((lucklessRun.after (List.replicate 18 .step)).after (List.replicate 12 .step)).outcome? =
        some (.failed e span) ∧
      e.message = "relay: host function failed PLAIN: no luck at line 2 col: 8" :=
    ⟨_, _, rfl, by decide +kernel⟩
  have hphase := (hends (List.replicate 30 .step) _ ho).2.1.mp rfl
  rcases hkeeps (List.replicate 18 .step) _ _ (List.replicate 12 .step) _ hfault rfl
    (whereabouts_luckless hfault) ho with ⟨e', span', heq, hreports⟩ | ⟨hstopped, -⟩
  · cases heq
    exact ⟨e, span, ho, hmessage, hreports, hphase⟩
  · cases hstopped

end Session

end Pseudocode
