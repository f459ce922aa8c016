/-
# Tasks below others

What is done for the tasks on top does not depend on those below: with other tasks below, a run
takes the same steps, until there is a result in hand and nothing is left on top.

The main results are

* `Session.step_onto`: a step with more tasks below;
* `Session.happen_onto`: a command with more tasks below.
-/
import Pseudocode.Proofs.Moves

namespace Pseudocode

namespace Machine

/-- The machine with more tasks below those that are pending. -/
def onto (m : Machine) (K : List Pending) : Machine := { m with pending := m.pending ++ K }

variable (m : Machine) (K : List Pending)

@[simp] lemma control_onto : (m.onto K).control = m.control := rfl

@[simp] lemma pending_onto : (m.onto K).pending = m.pending ++ K := rfl

@[simp] lemma store_onto : (m.onto K).store = m.store := rfl

@[simp] lemma heap_onto : (m.onto K).heap = m.heap := rfl

@[simp] lemma functions_onto : (m.onto K).functions = m.functions := rfl

@[simp] lemma random_onto : (m.onto K).random = m.random := rfl

@[simp] lemma lastDisplay_onto : (m.onto K).lastDisplay = m.lastDisplay := rfl

@[simp] lemma maxDepth_onto : (m.onto K).maxDepth = m.maxDepth := rfl

@[simp] lemma maxSteps_onto : (m.onto K).maxSteps = m.maxSteps := rfl

@[simp] lemma steps_onto : (m.onto K).steps = m.steps := rfl

lemma readVariable_onto (span : Span) (name : String) :
    (m.onto K).readVariable span name = (m.readVariable span name).onto K := by
  unfold readVariable
  rw [store_onto]
  split <;> rfl

lemma eval_onto (n : Node) : (m.onto K).eval n = (m.eval n).onto K := by
  cases n with
  | identifier span name => exact readVariable_onto m K span name
  | literal span lit => cases lit <;> rfl
  | group span inner => cases inner <;> rfl
  | element span list index => cases list <;> rfl
  | list span items => cases items <;> rfl
  | call span callee args => cases callee <;> cases args <;> rfl
  | _ => rfl

lemma readElement_onto (span : Span) (name : String) (index : Value) :
    (m.onto K).readElement span name index = (m.readElement span name index).onto K := by
  unfold readElement
  rw [store_onto, heap_onto]
  repeat' split
  all_goals rfl

lemma writeElement_onto (span : Span) (id : ListId) (p : Int) (v : Value) :
    (m.onto K).writeElement span id p v = (m.writeElement span id p v).onto K := by
  unfold writeElement
  rw [heap_onto]
  dsimp only
  repeat' split
  all_goals rfl

lemma listForWriting_onto (name : String) :
    (m.onto K).listForWriting name =
      ((m.listForWriting name).1, (m.listForWriting name).2.onto K) := by
  unfold listForWriting
  rw [store_onto]
  split <;> rfl

lemma commit_onto (v : Value) (target : Target) :
    (m.onto K).commit v target = (m.commit v target).onto K := by
  cases target with
  | «variable» name => rfl
  | element span name p =>
      simp only [commit, listForWriting_onto]
      obtain ⟨w, m'⟩ := m.listForWriting name
      cases w with
      | list id => exact writeElement_onto m' K span id p v
      | _ => rfl

lemma assign_onto (target value : Node) :
    (m.onto K).assign target value = (m.assign target value).onto K := by
  cases target with
  | element span list index => cases list <;> rfl
  | _ => rfl

lemma exec_onto (n : Node) : (m.onto K).exec n = (m.exec n).onto K := by
  cases n with
  | assignment span target value => exact assign_onto m K target value
  | forEach span var source body => cases var <;> rfl
  | «return» span value => cases value <;> rfl
  | _ => rfl

lemma block_onto (b : Block) : (m.onto K).block b = (m.block b).onto K := by
  cases b <;> rfl

lemma choose_onto (branches : List Branch) :
    (m.onto K).choose branches = (m.choose branches).onto K := by
  unfold choose
  split <;> rfl

lemma call_onto (name : String) (args : List Value) (site : Span) :
    (m.onto K).call name args site = (m.call name args site).onto K := by
  unfold call invoke
  rw [functions_onto, maxDepth_onto, store_onto]
  repeat' split
  all_goals rfl

lemma resume_onto (v : Value) (p : Pending) :
    (m.onto K).resume v p = (m.resume v p).onto K := by
  cases p with
  | assign target => exact commit_onto m K v target
  | element span name => exact readElement_onto m K span name v
  | items _ rest | args _ _ _ rest => cases rest <;> rfl
  | binaryApply _ _ _ | relationApply _ _ _ | targetIndex _ _ _ | timesCount _ _ | untilTest _ _
  | arm _ _ | eachSource _ _ _ =>
      simp only [resume, heap_onto]
      split <;> rfl
  | _ => rfl

lemma proceed_onto (cancelled : Bool) (c : Completion) (p : Pending) :
    (m.onto K).proceed cancelled c p = (m.proceed cancelled c p).onto K := by
  unfold proceed iterate
  rw [heap_onto]
  repeat' split
  all_goals rfl

lemma unwind_onto (e : Failure) (p : Pending) :
    (m.onto K).unwind e p = (m.unwind e p).onto K := by
  unfold unwind
  rw [store_onto]
  repeat' split
  all_goals rfl

lemma collapse_onto (text : String) (p : Pending) :
    (m.onto K).collapse text p = (m.collapse text p).onto K := by
  unfold collapse
  split <;> rfl

end Machine

namespace Session

open Machine

/-- The session with more tasks below those that are pending. -/
def onto (s : Session) (K : List Pending) : Session := { s with machine := s.machine.onto K }

variable (s : Session) (K : List Pending)

@[simp] lemma machine_onto : (s.onto K).machine = s.machine.onto K := rfl

@[simp] lemma controller_onto : (s.onto K).controller = s.controller := rfl

@[simp] lemma console_onto : (s.onto K).console = s.console := rfl

lemma withMachine_onto {m m' : Machine} (h : m' = m.onto K) :
    { s.onto K with machine := m' } = { s with machine := m }.onto K := by
  rw [h]
  rfl

lemma reach_onto (n : Node) : (s.onto K).reach n = (s.reach n).onto K := by
  have h := s.arrival n
  generalize s.reach n = t at h ⊢
  refine Arrival.reach_eq ?_
  cases h with
  | missing absent => exact .missing absent
  | excess present exceeded => exact .excess present exceeded
  | told counted cancelled => exact .told ⟨counted.present, counted.within⟩ cancelled
  | admitted counted cancelled =>
      exact .admitted ⟨counted.present, counted.within⟩ cancelled

lemma pass_onto (n : Node) (p : Standing) : (s.onto K).pass n p = (s.pass n p).onto K := by
  cases p with
  | admitted =>
      simp only [pass, heed, controller_onto, apply_ite (fun t => onto t K)]
      rfl
  | throttled | delayed => rfl
  | paused =>
      simp only [pass, wake, controller_onto]
      split
      all_goals rfl

lemma finish_onto (o : Outcome) : (s.onto K).finish o = (s.finish o).onto K := by
  cases o <;> rfl

lemma perform_onto (site : Span) (q : Request) (next : q.Answer → Action Value) :
    (s.onto K).perform site q next = (s.perform site q next).onto K := by
  cases q with
  | resume stepping =>
      simp only [perform, controller_onto]
      split <;> rfl
  | write text =>
      simp only [perform, console_onto]
      obtain ⟨e, console⟩ := s.console.write text
      rfl
  | display text =>
      simp only [perform, console_onto]
      obtain ⟨e, console⟩ := s.console.write text
      rfl
  | prompt text =>
      simp only [perform, console_onto, machine_onto, lastDisplay_onto]
      obtain ⟨line, console⟩ := s.console.prompt s.machine.lastDisplay text
      rfl
  | draw n =>
      rw [perform_draw, perform_draw, machine_onto, random_onto]
      generalize s.machine.random.below n = drawn
      rfl
  | _ => rfl

lemma act_onto (site : Span) (a : Action Value) :
    (s.onto K).act site a = (s.act site a).onto K := by
  cases a with
  | ask q next => exact perform_onto s K site q next
  | _ => rfl

lemma withTask_onto {next : Machine → Pending → Machine} {last : Session → Session}
    (hp : s.machine.pending ≠ []) (hnext : ∀ m p, next (m.onto K) p = (next m p).onto K) :
    (s.onto K).withTask next last = (s.withTask next last).onto K := by
  obtain ⟨p, rest, hp⟩ := List.exists_cons_of_ne_nil hp
  have hp' : (s.onto K).machine.pending = p :: (rest ++ K) := by simp [hp]
  rw [withTask_cons hp, withTask_cons hp', ← withMachine_onto s K (hnext _ p)]
  rfl

/-- A run goes on as it does without the tasks below, unless there is a result in hand and it comes
to them. -/
theorem proceeding_onto (h : s.machine.pending ≠ [] ∨ s.machine.control.isResult = false) :
    (s.onto K).proceed = s.proceed.onto K := by
  have hresult : s.machine.control.isResult = true → s.machine.pending ≠ [] := fun hr =>
    h.resolve_right (by simp [hr])
  cases hc : s.machine.control with
  | idle | ended _ | held _ _ =>
      simp only [Session.proceed, machine_onto, control_onto, hc]
  | boundary p n =>
      simp only [Session.proceed, machine_onto, control_onto, hc]
      exact pass_onto s K n p
  | ending o =>
      simp only [Session.proceed, machine_onto, control_onto, hc]
      exact finish_onto s K o
  | reach n =>
      simp only [Session.proceed, machine_onto, control_onto, hc]
      exact reach_onto s K n
  | host site a =>
      simp only [Session.proceed, machine_onto, control_onto, hc]
      exact act_onto s K site a
  | eval n =>
      simp only [Session.proceed, machine_onto, control_onto, hc]
      exact withMachine_onto s K (eval_onto s.machine K n)
  | exec n =>
      simp only [Session.proceed, machine_onto, control_onto, hc]
      exact withMachine_onto s K (exec_onto s.machine K n)
  | block b =>
      simp only [Session.proceed, machine_onto, control_onto, hc]
      exact withMachine_onto s K (block_onto s.machine K b)
  | choose branches =>
      simp only [Session.proceed, machine_onto, control_onto, hc]
      exact withMachine_onto s K (choose_onto s.machine K branches)
  | call name args site =>
      simp only [Session.proceed, machine_onto, control_onto, hc]
      exact withMachine_onto s K (call_onto s.machine K name args site)
  | value v =>
      rw [proceed_value (s := s.onto K) hc, proceed_value hc]
      exact withTask_onto s K (hresult (by rw [hc]; rfl)) fun m p => resume_onto m K v p
  | complete c =>
      rw [proceed_complete (s := s.onto K) hc, proceed_complete hc]
      exact withTask_onto s K (hresult (by rw [hc]; rfl)) fun m p => proceed_onto m K _ c p
  | fail e =>
      rw [proceed_fail (s := s.onto K) hc, proceed_fail hc]
      exact withTask_onto s K (hresult (by rw [hc]; rfl)) fun m p => unwind_onto m K e p
  | crash text =>
      rw [proceed_crash (s := s.onto K) hc, proceed_crash hc]
      exact withTask_onto s K (hresult (by rw [hc]; rfl)) fun m p => collapse_onto m K text p

lemma report_onto : (s.onto K).report = s.report.onto K := by
  rw [report_eq, report_eq, show (s.onto K).falters = s.falters from rfl]
  split
  · rfl
  · rfl

/-- So does a step. -/
theorem step_onto (h : s.machine.pending ≠ [] ∨ s.machine.control.isResult = false) :
    (s.onto K).step = s.step.onto K := by
  unfold step
  rw [controller_onto]
  split
  · exact report_onto s K
  · exact proceeding_onto s K h

/-- Commands do not depend on the tasks. -/
theorem happen_onto {e : Event} (he : e ≠ .step) : (s.onto K).happen e = (s.happen e).onto K := by
  cases e with
  | step => exact absurd rfl he
  | setSpeed _ | favour _ => rfl
  | stop =>
      simp only [happen, askStop, controller_onto, apply_ite (fun t => onto t K)]
      rfl
  | report =>
      simp only [happen, reportCall, controller_onto, apply_ite (fun t => onto t K)]
      rfl
  | resume stepping =>
      rw [happen_resume, happen_resume]
      rfl
  | cancel =>
      obtain ⟨controller, machine, console, program, maxSteps, maxDepth⟩ := s
      cases program <;> rfl
  | release =>
      simp only [happen, release?, machine_onto, control_onto]
      split <;> rfl

/-- What happens aside does not depend on them either. -/
lemma aside_onto {e : Event} (he : s.goesOn e = false) :
    (s.onto K).happen e = (s.happen e).onto K := by
  by_cases hstep : e = .step
  · subst hstep
    have hr : s.controller.reporting = true := by simpa [goesOn] using he
    exact (step_of_reporting (s := s.onto K) hr).trans
      ((report_onto s K).trans (congrArg (onto · K) (step_of_reporting hr).symm))
  · exact happen_onto s K hstep

/-! ### Results for the tasks below -/

variable {s} {p : Pending}

/-- A result with nothing else left comes to the first of the tasks below. -/
lemma withTask_onto_nil {next : Machine → Pending → Machine} {last : Session → Session}
    (hp : s.machine.pending = []) (hnext : ∀ m, next (m.onto K) p = (next m p).onto K) :
    (s.onto (p :: K)).withTask next last = { s with machine := next s.machine p }.onto K := by
  have hp' : (s.onto (p :: K)).machine.pending = p :: K := by simp [hp]
  have hbelow : { (s.onto (p :: K)).machine with pending := K } = s.machine.onto K := by
    simp [Session.onto, Machine.onto, hp]
  rw [withTask_cons hp', hbelow, ← withMachine_onto s K (hnext _)]
  rfl

lemma proceed_value_onto {v : Value} (hp : s.machine.pending = [])
    (hc : s.machine.control = .value v) :
    (s.onto (p :: K)).proceed = { s with machine := s.machine.resume v p }.onto K := by
  rw [proceed_value (s := s.onto (p :: K)) hc]
  exact withTask_onto_nil K hp fun m => resume_onto m K v p

lemma proceed_complete_onto {c : Completion} (hp : s.machine.pending = [])
    (hc : s.machine.control = .complete c) :
    (s.onto (p :: K)).proceed =
      { s with machine := s.machine.proceed s.controller.cancelled c p }.onto K := by
  rw [proceed_complete (s := s.onto (p :: K)) hc]
  exact withTask_onto_nil K hp fun m => proceed_onto m K _ c p

lemma proceed_fail_onto {e : Failure} (hp : s.machine.pending = [])
    (hc : s.machine.control = .fail e) :
    (s.onto (p :: K)).proceed = { s with machine := s.machine.unwind e p }.onto K := by
  rw [proceed_fail (s := s.onto (p :: K)) hc]
  exact withTask_onto_nil K hp fun m => unwind_onto m K e p

lemma proceed_crash_onto {text : String} (hp : s.machine.pending = [])
    (hc : s.machine.control = .crash text) :
    (s.onto (p :: K)).proceed = { s with machine := s.machine.collapse text p }.onto K := by
  rw [proceed_crash (s := s.onto (p :: K)) hc]
  exact withTask_onto_nil K hp fun m => collapse_onto m K text p

/-- What is begun for a result goes on above the others. -/
lemma await_onto {c : Control} (hp : s.machine.pending = []) :
    { s with machine := s.machine.await p c }.onto K = (s.goto c).onto (p :: K) := by
  simp [Session.onto, Machine.onto, Machine.await, Session.goto, Machine.goto, hp]

lemma goto_self {c : Control} (hc : s.machine.control = c) : s.goto c = s := by
  subst hc
  rfl

end Session

end Pseudocode
