/-
# Runs in parallel

Two sessions can be in the same run and still differ: in the lists that lie below those of the run,
and in what they keep of their past, which is the notices of the observer, the reports that others
have yet to make and what was written.  Nothing that the run does depends on either.  Steady host
functions do the same with lists that have moved up, and a host function that is a leaf asks for
nothing that belongs to the past.  What has been written would matter to the console if it had a
limit.

So two such sessions go on in parallel.  Commands do the same to both.

The main results are

* `Session.Parallel.step`: two sessions that differ in what lies below their runs and in their past
  do so after a step;
* `Session.Parallel.after`: they do so whatever happens to both.
-/
import Pseudocode.Proofs.Limits
import Pseudocode.Proofs.Steady

namespace Pseudocode

open Machine

/-! ### Sessions with another past -/

/-- What a session keeps of its past. -/
structure Past where
  notices : List Notice
  callers : Nat
  written : ByteString

namespace Controller

variable {c : Controller} {x : Past}

/-- The controls with another past. -/
def withPast (c : Controller) (x : Past) : Controller :=
  { c with notices := x.notices, callers := x.callers }

lemma poll_withPast : (c.withPast x).poll = c.poll.withPast x := by
  unfold poll withPast
  dsimp only
  split
  · rfl
  · rfl

lemma requestStop_withPast : (c.withPast x).requestStop = c.requestStop.withPast x := by
  unfold requestStop withPast
  dsimp only
  split
  · rfl
  · rfl

lemma resume?_withPast (stepping : Bool) :
    (c.withPast x).resume? stepping = (c.resume? stepping).map (·.withPast x) := by
  unfold resume? grant withPast
  dsimp only
  split
  · split
    · split
      · rfl
      · rfl
    · rfl
  · rfl

end Controller

namespace Session

/-- The session with another past, and with its run above the lists of a heap. -/
def above (h : Heap) (x : Past) (s : Session) : Session :=
  { s with
    machine := s.machine.above h
    controller := s.controller.withPast x
    console := { s.console with written := x.written } }

/-- The second session has another past, and its run lies above the lists of a heap. -/
def Beside (h : Heap) (s s' : Session) : Prop := ∃ x, s' = s.above h x

variable {h : Heap} {x : Past} {s : Session}

lemma Beside.ite {p q : Prop} [Decidable p] [Decidable q] {a b a' b' : Session} (hpq : p ↔ q)
    (hthen : Beside h a a') (helse : Beside h b b') :
    Beside h (if p then a else b) (if q then a' else b') := by
  by_cases hp : p
  · rw [if_pos hp, if_pos (hpq.mp hp)]
    exact hthen
  · rw [if_neg hp, if_neg (mt hpq.mpr hp)]
    exact helse

lemma beside_finish (o : Outcome) :
    Beside h (s.finish o) ((s.above h x).finish (o.above h)) := by
  cases o with
  | completed v => exact ⟨⟨_, _, _⟩, rfl⟩
  | failed e span => exact ⟨⟨_, _, _⟩, rfl⟩
  | stopped => exact ⟨⟨_, _, _⟩, rfl⟩

lemma beside_goto (c : Control) : Beside h (s.goto c) ((s.above h x).goto (c.above h)) :=
  ⟨x, rfl⟩

lemma beside_goto_ite {p : Prop} [Decidable p] (c d : Control) :
    Beside h (s.goto (if p then c else d))
      ((s.above h x).goto (if p then c.above h else d.above h)) := by
  split
  · exact beside_goto c
  · exact beside_goto d

lemma beside_withController (c : Controller) :
    Beside h { s with controller := c } { s.above h x with controller := c.withPast x } :=
  ⟨x, rfl⟩

lemma beside_finishCompleted (c : Completion) :
    Beside h (s.finishCompleted c) ((s.above h x).finishCompleted (c.above h)) := by
  cases c with
  | returned v => exact ⟨x, rfl⟩
  | next =>
      have hcancelled : (s.above h x).controller.cancelled = s.controller.cancelled := rfl
      simp only [finishCompleted, Completion.above, hcancelled]
      cases s.controller.cancelled with
      | true => exact ⟨x, rfl⟩
      | false => exact ⟨x, rfl⟩

lemma beside_finishFailed {e : Failure} (he : e.stack? = none) :
    Beside h (s.finishFailed e) ((s.above h x).finishFailed e) := by
  have hstack : (e.fault?.bind fun f => f.stack) = none := he
  simp only [finishFailed, hstack]
  refine .ite .rfl ⟨x, rfl⟩ ?_
  exact beside_goto (s := { s with machine := { s.machine with failedStack := none } })
    (.ending (.failed e s.machine.current))

lemma beside_checkpoint (n : Node) : Beside h (s.checkpoint n) ((s.above h x).checkpoint n) :=
  beside_goto_ite (.fail .stopped) (.boundary .admitted n)

lemma beside_reach (n : Node) : Beside h (s.reach n) ((s.above h x).reach n) := by
  refine .ite .rfl ⟨x, rfl⟩ (.ite .rfl ⟨x, rfl⟩ ?_)
  exact beside_checkpoint (s := { s with machine := { s.machine with
    pending := .leave s.machine.current :: s.machine.pending
    current := n.span
    steps := s.machine.steps + 1 } }) n

/-- The past is no concern of a statement that heeds the controls. -/
lemma beside_heed (n : Node) : Beside h (s.heed n) ((s.above h x).heed n) := by
  refine .ite .rfl (.ite .rfl ⟨x, rfl⟩ (.ite .rfl ⟨x, rfl⟩ ⟨x, rfl⟩)) ?_
  exact beside_goto_ite (s := { s with controller := { s.controller with span := n.span } })
    (.exec n) (.boundary .throttled n)

lemma beside_wake (n : Node) : Beside h (s.wake n) ((s.above h x).wake n) := by
  have hwait : (s.above h x).controller.wait = s.controller.wait := rfl
  have hpoll : (s.above h x).controller.poll = s.controller.poll.withPast x :=
    Controller.poll_withPast
  simp only [wake, hwait, hpoll]
  cases s.controller.wait with
  | polling => exact beside_withController s.controller.poll
  | parked | granted | dismissed => exact ⟨x, rfl⟩

lemma beside_pass (p : Standing) (n : Node) : Beside h (s.pass n p) ((s.above h x).pass n p) := by
  cases p with
  | admitted => exact beside_heed n
  | throttled => exact beside_goto_ite (.fail .stopped) (.boundary .delayed n)
  | delayed => exact beside_goto_ite (.fail .stopped) (.exec n)
  | paused => exact beside_wake n

lemma beside_withMachine {m m' : Machine} (hm : m' = m.above h) :
    Beside h { s with machine := m } { s.above h x with machine := m' } :=
  ⟨x, by rw [hm]; rfl⟩

lemma beside_withTask {next next' : Machine → Pending → Machine} {last last' : Session → Session}
    (hnext : ∀ m, ∀ p ∈ s.machine.pending, next' (m.above h) (p.above h) = (next m p).above h)
    (hlast : Beside h (last s) (last' (s.above h x))) :
    Beside h (s.withTask next last) ((s.above h x).withTask next' last') := by
  cases hp : s.machine.pending with
  | nil =>
      have hp' : (s.above h x).machine.pending = [] := by simp [above, Machine.above, hp]
      rw [withTask_nil hp, withTask_nil hp']
      exact hlast
  | cons p rest =>
      have hp' : (s.above h x).machine.pending = p.above h :: rest.map (·.above h) := by
        simp [above, Machine.above, hp]
      rw [withTask_cons hp, withTask_cons hp']
      exact beside_withMachine (hnext { s.machine with pending := rest } p (by simp [hp]))

/-- Unless a function is called or a host function acts, the run goes on as it does with another
past and without other lists. -/
lemma beside_proceed (hleaf : Leaf s.machine) (hacting : s.machine.control.isActing = false)
    (hfresh : s.machine.control.isFresh = true)
    (hcall : ∀ name args site, s.machine.control ≠ .call name args site) :
    Beside h s.proceed (s.above h x).proceed := by
  have hover : (s.above h x).machine.control = s.machine.control.above h := rfl
  unfold Session.proceed
  rw [hover]
  cases hc : s.machine.control with
  | host _ _ | held _ _ => simp [hc, Control.isActing] at hacting
  | call name args site => exact absurd hc (hcall name args site)
  | idle | ended _ => exact ⟨x, rfl⟩
  | reach n => exact beside_reach n
  | boundary p n => exact beside_pass p n
  | ending o => exact beside_finish o
  | eval n => exact beside_withMachine (eval_above h s.machine n)
  | exec n => exact beside_withMachine (exec_above h s.machine n)
  | block b => exact beside_withMachine (block_above h s.machine b)
  | choose branches => exact beside_withMachine (choose_above h s.machine branches)
  | value v =>
      exact beside_withTask (fun m p hp => resume_above h m v (hleaf.pending p hp))
        (beside_finishCompleted .next)
  | complete c =>
      exact beside_withTask (fun m p _ => proceed_above h m _ c p) (beside_finishCompleted c)
  | fail e =>
      rw [hc] at hfresh
      exact beside_withTask (fun m p hp => unwind_above h m e (hleaf.pending p hp))
        (beside_finishFailed (Option.isNone_iff_eq_none.mp hfresh))
  | crash text =>
      exact beside_withTask (fun m p _ => collapse_above h m text p) (beside_goto (.ending _))

end Session

/-! ### The console without a limit -/

namespace Console

variable {c : Console}

lemma write_of_unlimited (hc : c.limit = none) (text : ByteString) :
    c.write text =
      (none, { c with transcript := c.transcript ++ text, written := c.written ++ text }) := by
  simp [write, hc]

lemma prompt_of_unlimited (hc : c.limit = none) (lastDisplay text : ByteString) :
    c.prompt lastDisplay text =
      if showsPrompt lastDisplay text then
        { c with
          transcript := c.transcript ++ (text ++ " ")
          written := c.written ++ (text ++ " ") }.readLine
      else c.readLine := by
  simp [prompt, write_of_unlimited hc]

lemma limit_readLine (c : Console) : c.readLine.2.limit = c.limit := by
  simp only [readLine]
  split
  · rfl
  · rfl

lemma limit_prompt (hc : c.limit = none) (lastDisplay text : ByteString) :
    (c.prompt lastDisplay text).2.limit = none := by
  rw [prompt_of_unlimited hc]
  split
  · rw [limit_readLine]
    exact hc
  · rw [limit_readLine]
    exact hc

lemma readLine_withWritten (c : Console) (w : ByteString) :
    { c with written := w }.readLine = (c.readLine.1, { c.readLine.2 with written := w }) := by
  simp only [readLine]
  split
  · rfl
  · rfl

/-- What was written before makes no difference to a prompt, if there is no limit. -/
lemma prompt_withWritten (hc : c.limit = none) (w lastDisplay text : ByteString) :
    ∃ w', { c with written := w }.prompt lastDisplay text =
      ((c.prompt lastDisplay text).1, { (c.prompt lastDisplay text).2 with written := w' }) := by
  have hc' : { c with written := w }.limit = none := hc
  rw [prompt_of_unlimited hc, prompt_of_unlimited hc']
  split
  · exact ⟨_, readLine_withWritten { c with
      transcript := c.transcript ++ (text ++ " "), written := c.written ++ (text ++ " ") } _⟩
  · exact ⟨w, readLine_withWritten c w⟩

end Console

/-! ### Steps in parallel -/

lemma Control.calm_of_plain? {c : Control} {d : Due} (hc : c.plain? = some d) :
    c.isActing = false := by
  cases c with
  | host _ _ | held _ _ => simp [Control.plain?] at hc
  | _ => rfl

namespace Machine

variable {fragile : Bool} {m m' : Machine}

lemma calm_of_passes {n : Node} {c : Control} (hc : passes n c) : c.isActing = false := by
  cases c with
  | host _ _ | held _ _ => exact hc.elim
  | _ => rfl

/-- A host function begins to act in a call only, if none waits for the result of a call. -/
lemma Move.calm (h : Move fragile m m') (hleaf : Leaf m) (hacting : m.control.isActing = false)
    (hcall : ∀ name args site, m.control ≠ .call name args site) :
    m'.control.isActing = false := by
  have hplain : ∀ {d : Due} {m : Machine}, Plain d m m' → m'.control.isActing = false := by
    intro d m h
    cases h.shape with
    | fails control _ _ => rw [control]; rfl
    | goes control _ => exact Control.calm_of_plain? control
    | awaits _ _ control _ => exact Control.calm_of_plain? control
  have htail : ∀ {p : Pending} {rest : List Pending}, m.pending = p :: rest →
      p.yields ≠ .action := fun heq => hleaf.pending _ (by simp [heq])
  have hdue : m.control.due? ≠ some .action := by
    intro hdue
    cases hc : m.control with
    | host _ _ | held _ _ => simp [hc, Control.isActing] at hacting
    | _ => simp [hc, Control.due?] at hdue
  cases h with
  | stay _ => exact hacting
  | plain _ h => exact hplain h
  | task _ _ _ _ h => exact hplain h
  | reach _ hc => exact calm_of_passes hc
  | pass _ hc => exact calm_of_passes hc
  | enterHost control _ => exact absurd control (hcall _ _ _)
  | outcome control _ => simp [control, Control.due?] at hdue
  | request control _ _ => exact absurd control hdue
  | reenter control => simp [control, Control.due?] at hdue
  | answer _ pending => exact absurd rfl (htail pending)
  | hand _ pending => exact absurd rfl (htail pending)
  | finish _ _ control' _ => rw [control']; rfl
  | _ => rfl

lemma stack?_hostFailure {e : Failure} (he : e.stack? = none) (name : String) (site : Span) :
    (hostFailure name site e).stack? = none := by
  unfold hostFailure
  split
  · exact he
  · rfl

lemma fresh_unwind {e : Failure} (he : e.stack? = none) (hm : m.control = .fail e) {p : Pending}
    (hp : p.yields ≠ .action) : (m.unwind e p).control.isFresh = true := by
  cases p with
  | hostCall name site depth =>
      exact Option.isNone_iff_eq_none.mpr (stack?_hostFailure he name site)
  | reenter site depth next => exact absurd rfl hp
  | _ =>
      show m.control.isFresh = true
      rw [hm]
      exact Option.isNone_iff_eq_none.mpr he

end Machine

namespace Session

variable {h : Heap} {x : Past} {s s' : Session}

lemma limit_proceed (hlimit : s.console.limit = none) : s.proceed.console.limit = none := by
  by_cases hhost : ∃ site a, s.machine.control = .host site a
  · obtain ⟨site, a, hc⟩ := hhost
    simp only [Session.proceed, hc]
    cases a with
    | ask q next =>
        cases q with
        | write text | display text =>
            simp only [act, perform, Console.write_of_unlimited hlimit]
            exact hlimit
        | prompt text => exact Console.limit_prompt hlimit s.machine.lastDisplay text
        | resume stepping =>
            simp only [act, perform]
            split
            · exact hlimit
            · exact hlimit
        | _ => exact hlimit
    | _ => exact hlimit
  · rw [console_proceed fun site a hc => hhost ⟨site, a, hc⟩]
    exact hlimit

/-- No step limits the console. -/
lemma limit_step (hlimit : s.console.limit = none) : s.step.console.limit = none :=
  step_cases (P := fun t => t.console.limit = none) (fun _ _ => hlimit) (fun _ _ => hlimit)
    fun _ => limit_proceed hlimit

/-- Nor does anything else. -/
lemma limit_after (hlimit : s.console.limit = none) (es : List Event) :
    (s.after es).console.limit = none := by
  refine after_induction (P := fun t => t.console.limit = none) (fun t e ht => ?_) hlimit es
  by_cases he : e = .step
  · rw [he]
    exact limit_step ht
  · rcases happen_command t he with heq | ⟨site, next, -, heq⟩
    · rw [heq]
      exact ht
    · rw [heq]
      exact ht

/-- A host function that acts above other lists makes its request as it does without them. -/
lemma act_above (site : Span) {a a' : Action Value} (ha : a.Above h a')
    (hlimit : s.console.limit = none) :
    ∃ x' c, (s.act site a).machine.control.Above h c ∧
      ((s.above h x).goto (.host site a')).act site a' = ((s.act site a).above h x').goto c := by
  cases ha with
  | pure v => exact ⟨x, _, .calm rfl rfl, rfl⟩
  | fail he => exact ⟨x, _, .calm rfl (Option.isNone_iff_eq_none.mpr he), rfl⟩
  | crash text => exact ⟨x, _, .calm rfl rfl, rfl⟩
  | heap hnext => exact ⟨x, _, .acting (hnext s.machine.heap), rfl⟩
  | push hnext =>
      refine ⟨x, _, .acting hnext, ?_⟩
      simp only [act, perform, answer, above, Session.goto, Machine.goto, Machine.above,
        Heap.push_above]
  | insert hnext =>
      refine ⟨x, _, .acting hnext, ?_⟩
      simp only [act, perform, answer, above, Session.goto, Machine.goto, Machine.above,
        Heap.insert_above]
  | erase hnext =>
      refine ⟨x, _, .acting hnext, ?_⟩
      simp only [act, perform, answer, above, Session.goto, Machine.goto, Machine.above,
        Heap.erase_above]
  | @listless q next next' hq hnext =>
      have hlimit' : { s.console with written := x.written }.limit = none := hlimit
      cases q with
      | write text | display text =>
          simp only [act, perform, above, Session.goto, Console.write_of_unlimited hlimit,
            Console.write_of_unlimited hlimit']
          exact ⟨{ x with written := x.written ++ text }, _, .acting (hnext none), rfl⟩
      | prompt text =>
          obtain ⟨w, hw⟩ := Console.prompt_withWritten hlimit x.written s.machine.lastDisplay text
          refine ⟨{ x with written := w }, _, .acting (hnext _), ?_⟩
          have hlast : (s.machine.above h).lastDisplay = s.machine.lastDisplay := rfl
          simp only [act, perform, above, Session.goto, Machine.goto, hlast, hw]
          rfl
      | draw n =>
          have hrandom : ((s.above h x).goto (.host site (.ask (.draw n) next'))).machine.random =
            s.machine.random := rfl
          simp only [act, perform_draw, hrandom]
          generalize s.machine.random.below n = drawn
          exact ⟨x, _, .acting (hnext drawn.1), rfl⟩
      | site => exact ⟨x, _, .acting (hnext _), rfl⟩
      | output => exact ⟨x, _, .acting (hnext _), rfl⟩
      | _ => simp [Request.isListless] at hq

/-- The second session has another past, and does above the lists of a heap what the first one does
without them.  The host functions of both are steady and call nothing. -/
structure Parallel (h : Heap) (s s' : Session) : Prop where
  same : ∃ x c, s.machine.control.Above h c ∧ s' = (s.above h x).goto c
  sound : Sound s.machine
  leaf : Leaf s.machine
  steady : s.machine.functions.All Function.Steady
  unlimited : s.console.limit = none

/-- A failure takes no frames along, if no host function waits for the result of a call. -/
lemma isFresh_proceed_of_fail (hleaf : Leaf s.machine) {e : Failure}
    (hc : s.machine.control = .fail e) (he : e.stack? = none) :
    s.proceed.machine.control.isFresh = true := by
  rw [proceed_fail hc]
  cases hp : s.machine.pending with
  | nil =>
      rw [withTask_nil hp]
      show (s.finishFailed e).machine.control.isFresh = true
      unfold finishFailed
      split
      · rfl
      · rfl
  | cons p rest =>
      rw [withTask_cons hp]
      exact fresh_unwind (m := { s.machine with pending := rest }) he hc
        (hleaf.pending p (by simp [hp]))

/-- What is done by itself above other lists is done as it is without them. -/
lemma proceed_above_of_calm (hs : Sound s.machine) (hleaf : Leaf s.machine)
    (hsteady : s.machine.functions.All Function.Steady)
    (hacting : s.machine.control.isActing = false) (hfresh : s.machine.control.isFresh = true) :
    ∃ x' c, s.proceed.machine.control.Above h c ∧
      (s.above h x).proceed = (s.proceed.above h x').goto c := by
  by_cases hcall : ∃ name args site, s.machine.control = .call name args site
  · obtain ⟨name, args, site, hc⟩ := hcall
    have hc' : (s.above h x).machine.control = .call name (args.map (·.above h)) site := by
      show s.machine.control.above h = _
      rw [hc]
      rfl
    obtain ⟨hcontrol, hrest⟩ := call_above (h := h) hsteady name args site
    simp only [Session.proceed, hc, hc']
    exact ⟨x, _, hcontrol, congrArg (fun m => { s.above h x with machine := m }) hrest⟩
  · have hcall' : ∀ name args site, s.machine.control ≠ .call name args site :=
      fun name args site hc => hcall ⟨name, args, site, hc⟩
    -- apart from calls, the control stays one of the machine itself
    obtain ⟨x', hproceed⟩ := beside_proceed (h := h) (x := x) hleaf hacting hfresh hcall'
    refine ⟨x', _, .calm ((proceed_move false hs).calm hleaf hacting hcall') ?_, hproceed⟩
    by_cases hfail : ∃ e, s.machine.control = .fail e
    · obtain ⟨e, hc⟩ := hfail
      rw [hc] at hfresh
      exact isFresh_proceed_of_fail hleaf hc (Option.isNone_iff_eq_none.mp hfresh)
    · refine isFresh_proceed (fun e hc => hfail ⟨e, hc⟩) fun site e hc => ?_
      simp [hc, Control.isActing] at hacting

/-- The observer that breaks down does so above other lists as well. -/
lemma falters_above {c : Control} (hc : s.machine.control.Above h c) :
    ((s.above h x).goto c).falters = s.falters := by
  have hpaused : ((s.above h x).goto c).isPaused = s.isPaused := by
    unfold isPaused Session.goto Machine.goto
    generalize s.machine.control = d at hc
    cases hc with
    | acting _ => rfl
    | calm _ _ => cases d with | _ => rfl
  unfold falters
  rw [hpaused]
  rfl

lemma report_above {c : Control} (hc : s.machine.control.Above h c) :
    ∃ x' c', s.report.machine.control.Above h c' ∧
      ((s.above h x).goto c).report = (s.report.above h x').goto c' := by
  unfold report
  rw [falters_above hc]
  split
  · exact ⟨⟨_, x.callers, x.written⟩, .crash "hook failed", .calm rfl rfl, rfl⟩
  · exact ⟨⟨_, x.callers, x.written⟩, c, hc, rfl⟩

lemma proceed_above (hp : Parallel h s ((s.above h x).goto c)) (hc : s.machine.control.Above h c) :
    ∃ x' c', s.proceed.machine.control.Above h c' ∧
      ((s.above h x).goto c).proceed = (s.proceed.above h x').goto c' := by
  generalize hcontrol : s.machine.control = d at hc
  cases hc with
  | @acting site a a' ha =>
      have hproceed : s.proceed = s.act site a := by simp only [Session.proceed, hcontrol]
      rw [hproceed]
      exact act_above site ha hp.unlimited
  | calm hacting hfresh =>
      subst hcontrol
      exact proceed_above_of_calm hp.sound hp.leaf hp.steady hacting hfresh

/-- Both sessions take a step, and go on in parallel. -/
theorem Parallel.step (hp : Parallel h s s') : Parallel h s.step s'.step := by
  refine ⟨?_, sound_happen hp.sound .step, leaf_step hp.sound hp.leaf,
    (functions_happen hp.sound .step).symm ▸ hp.steady, limit_step hp.unlimited⟩
  obtain ⟨x, c, hc, rfl⟩ := hp.same
  have hreporting : ((s.above h x).goto c).controller.reporting = s.controller.reporting := rfl
  cases hr : s.controller.reporting with
  | true =>
      rw [step_of_reporting hr, step_of_reporting (hreporting.trans hr)]
      exact report_above hc
  | false =>
      rw [step_of_not_reporting hr, step_of_not_reporting (hreporting.trans hr)]
      exact proceed_above hp hc

/-- A report is no concern of anything but the past. -/
lemma exists_reportCall (s : Session) :
    ∃ x : Past, s.reportCall = { s with controller := s.controller.withPast x } := by
  unfold reportCall
  split
  · exact ⟨⟨_, _, ""⟩, rfl⟩
  · exact ⟨⟨s.controller.notices, s.controller.callers, ""⟩, rfl⟩

/-- Commands do to the controls what they do with another past. -/
lemma command_above {c : Control} {e : Event} (he : e ≠ .step)
    (hheld : ∀ site next, s.machine.control ≠ .held site next)
    (hheld' : ∀ site next, c ≠ .held site next) :
    ∃ x', ((s.above h x).goto c).happen e = ((s.happen e).above h x').goto c := by
  cases e with
  | step => exact absurd rfl he
  | stop =>
      have hstop : ((s.above h x).goto c).controller.requestStop =
          s.controller.requestStop.withPast x := Controller.requestStop_withPast
      simp only [Session.happen, askStop, hstop]
      by_cases hactive : s.controller.phase.isActive = true
      · rw [if_pos (show ((s.above h x).goto c).controller.phase.isActive = true from hactive),
          if_pos hactive]
        exact ⟨⟨_, x.callers + 1, _⟩, rfl⟩
      · rw [if_neg (show ¬((s.above h x).goto c).controller.phase.isActive = true from hactive),
          if_neg hactive]
        exact ⟨x, rfl⟩
  | report =>
      obtain ⟨y, hy⟩ := s.exists_reportCall
      obtain ⟨y', hy'⟩ := ((s.above h x).goto c).exists_reportCall
      simp only [Session.happen, hy, hy']
      exact ⟨⟨y'.notices, y'.callers, x.written⟩, rfl⟩
  | resume stepping =>
      have hresume : ((s.above h x).goto c).controller.resume? stepping =
          (s.controller.resume? stepping).map (·.withPast x) := Controller.resume?_withPast stepping
      rw [happen_resume, happen_resume, hresume]
      cases s.controller.resume? stepping with
      | none => exact ⟨x, rfl⟩
      | some _ => exact ⟨x, rfl⟩
  | cancel =>
      have hprogram : ((s.above h x).goto c).program = s.program := rfl
      simp only [Session.happen, Session.cancel, hprogram]
      cases s.program with
      | none => exact ⟨x, rfl⟩
      | some _ => exact ⟨x, rfl⟩
  | setSpeed n => exact ⟨x, rfl⟩
  | favour eager => exact ⟨x, rfl⟩
  | release =>
      rw [happen_release_of_not_held hheld, happen_release_of_not_held hheld']
      exact ⟨x, rfl⟩

lemma Parallel.happen (hp : Parallel h s s') (e : Event) :
    Parallel h (s.happen e) (s'.happen e) := by
  by_cases he : e = .step
  · rw [he]
    exact hp.step
  · have hheld : ∀ site next, s.machine.control ≠ .held site next := by
      intro site next hc
      have hcontrol := hp.leaf.control
      simp [hc, Control.Leaf] at hcontrol
    -- nothing but the controls changes, since no host function waits to be released
    have hcommand : s.happen e = { s with controller := (s.happen e).controller } := by
      rcases happen_command s he with heq | ⟨site, next, hc, -⟩
      · exact heq
      · exact absurd hc (hheld site next)
    obtain ⟨x, c, hc, rfl⟩ := hp.same
    obtain ⟨x', hx'⟩ := command_above (h := h) (x := x) he hheld hc.not_held
    rw [hx', hcommand]
    exact ⟨⟨x', c, hc, rfl⟩, hp.sound, hp.leaf, hp.steady, hp.unlimited⟩

/-- Whatever happens to both sessions, they go on in parallel. -/
theorem Parallel.after (hp : Parallel h s s') (es : List Event) :
    Parallel h (s.after es) (s'.after es) := by
  induction es generalizing s s' with
  | nil => exact hp
  | cons e es ih => exact ih (hp.happen e)

end Session

end Pseudocode
