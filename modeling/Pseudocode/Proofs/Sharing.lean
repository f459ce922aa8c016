/-
# A run in step mode against a run on its own lines

A run in step mode shares the lines that are typed with the debugger.  It is compared with a run
without single-stepping that gets the lines that the program took, and no others.  The two are at
the same place all the time, apart from the waits of the one, and they show the same; what differs
is their input and what the debugger has written.  Only the answer to the one who asks for a line
depends on the input, and the line that the program takes next is the first one that is left for the
other run.

The main results are

* `Session.step_withConsole`: what the console has to do with a step;
* `Session.Abreast.advance` and `Debugger.abreast_run`: the other run keeps up;
* `Debugger.shared_lines`: how the debugger and the program share the lines;
* `Job.exists_lines` and `Job.carryOut_eq_run`: the runs of jobs in step mode are such runs.
-/
import Pseudocode.Proofs.Draws

namespace Pseudocode

/-- Two consoles show the same of the current run, and neither has a limit. -/
structure Console.Alike (x y : Console) : Prop where
  transcript : x.transcript = y.transcript
  unlimited : x.limit = none
  unlimited' : y.limit = none

namespace Console

variable {x y : Console}

lemma Alike.write (h : x.Alike y) (text : ByteString) :
    (x.write text).1 = (y.write text).1 ∧ (x.write text).2.Alike (y.write text).2 := by
  rw [write_of_unlimited h.unlimited, write_of_unlimited h.unlimited']
  exact ⟨rfl, congrArg (· ++ text) h.transcript, h.unlimited, h.unlimited'⟩

lemma Alike.readLine (h : x.Alike y) : x.readLine.2.Alike y.readLine.2 where
  transcript := by rw [transcript_readLine, transcript_readLine, h.transcript]
  unlimited := (limit_readLine x).trans h.unlimited
  unlimited' := (limit_readLine y).trans h.unlimited'

/-- The line that is read depends on the input only. -/
lemma readLine_withTranscript (x : Console) (transcript written : ByteString) :
    { x with transcript, written }.readLine.1 = x.readLine.1 := by
  simp only [Console.readLine]
  split
  · rfl
  · rfl

lemma Alike.prompt (h : x.Alike y) (hline : x.readLine.1 = y.readLine.1)
    (lastDisplay text : ByteString) :
    (x.prompt lastDisplay text).1 = (y.prompt lastDisplay text).1 ∧
      (x.prompt lastDisplay text).2.Alike (y.prompt lastDisplay text).2 := by
  rw [prompt_of_unlimited h.unlimited, prompt_of_unlimited h.unlimited']
  split
  · refine ⟨(readLine_withTranscript x _ _).trans (hline.trans ?_), Alike.readLine ?_⟩
    · exact (readLine_withTranscript y _ _).symm
    · exact ⟨congrArg (· ++ (text ++ " ")) h.transcript, h.unlimited, h.unlimited'⟩
  · exact ⟨hline, h.readLine⟩

end Console

namespace Session

open Machine

variable {s c : Session} {lines : List Line}

/-! ### The console has no part in a step -/

lemma reach_withConsole (n : Node) (x : Console) :
    { c with console := x }.reach n = { c.reach n with console := x } := by
  have h := c.arrival n
  generalize c.reach n = t at h ⊢
  refine Arrival.reach_eq ?_
  cases h with
  | missing absent => exact .missing absent
  | excess present exceeded => exact .excess present exceeded
  | told counted cancelled => exact .told ⟨counted.present, counted.within⟩ cancelled
  | admitted counted cancelled => exact .admitted ⟨counted.present, counted.within⟩ cancelled

lemma pass_withConsole (n : Node) (p : Standing) (x : Console) :
    { c with console := x }.pass n p = { c.pass n p with console := x } := by
  cases p with
  | admitted =>
      simp only [pass, heed]
      split
      · split
        · rfl
        · split
          · rfl
          · rfl
      · rfl
  | throttled | delayed => rfl
  | paused =>
      simp only [pass, wake]
      split
      · rfl
      · rfl
      · rfl
      · rfl

/-- What is done without a host function has nothing to do with the console. -/
lemma proceed_withConsole (h : ∀ site a, c.machine.control ≠ .host site a) (x : Console) :
    Session.proceed { c with console := x } = { c.proceed with console := x } := by
  cases hc : c.machine.control with
  | host site a => exact absurd hc (h site a)
  | value v =>
      simp only [Session.proceed, hc, withTask, finishCompleted]
      split
      · rfl
      · rfl
  | complete d =>
      simp only [Session.proceed, hc, withTask]
      split
      · cases d with
        | returned v => rfl
        | next => rfl
      · rfl
  | fail e =>
      simp only [Session.proceed, hc, withTask, finishFailed]
      split
      · split
        · rfl
        · rfl
      · rfl
  | crash text =>
      simp only [Session.proceed, hc, withTask]
      split
      · rfl
      · rfl
  | reach n =>
      simp only [Session.proceed, hc]
      exact reach_withConsole n x
  | boundary p n =>
      simp only [Session.proceed, hc]
      exact pass_withConsole n p x
  | ending o =>
      simp only [Session.proceed, hc]
      rfl
  | _ => simp only [Session.proceed, hc]

lemma report_withConsole (c : Session) (x : Console) :
    Session.report { c with console := x } = { c.report with console := x } := by
  rw [report_eq, report_eq]
  show (if c.falters then _ else _) = _
  split
  · rfl
  · rfl

lemma step_withConsole_of_not_host (h : ∀ site a, c.machine.control ≠ .host site a) (x : Console) :
    Session.step { c with console := x } = { c.step with console := x } := by
  unfold step
  show (if c.controller.reporting then _ else _) = _
  split
  · exact report_withConsole c x
  · exact proceed_withConsole h x

/-- Apart from the answer to the one who asks for a line, the input and what was written before
make no difference to a step. -/
lemma step_withConsole {x : Console} (hx : x.Alike c.console)
    (hline : c.asksLine = true → x.readLine.1 = c.console.readLine.1) :
    ∃ x' : Console, Session.step { c with console := x } = { c.step with console := x' } ∧
      x'.Alike c.step.console := by
  cases hr : c.controller.reporting with
  | true =>
      refine ⟨x, ?_, ?_⟩
      · rw [step_of_reporting hr, step_of_reporting (s := { c with console := x }) hr]
        exact report_withConsole c x
      · rwa [step_of_reporting hr, console_report]
  | false =>
  by_cases hhost : ∃ site a, c.machine.control = .host site a
  · obtain ⟨site, a, hc⟩ := hhost
    rw [step_of_not_reporting hr, step_of_not_reporting (s := { c with console := x }) hr,
      proceed_of_host hc, proceed_of_host (s := { c with console := x }) hc]
    cases a with
    | pure v | fail e | crash text => exact ⟨x, rfl, hx⟩
    | ask q next =>
        cases q with
        | write text =>
            obtain ⟨hanswer, halike⟩ := hx.write text
            refine ⟨_, ?_, halike⟩
            simp only [act, perform, hanswer]
            rfl
        | display text =>
            obtain ⟨hanswer, halike⟩ := hx.write text
            refine ⟨_, ?_, halike⟩
            simp only [act, perform, hanswer]
            rfl
        | prompt text =>
            obtain ⟨hanswer, halike⟩ :=
              hx.prompt (hline (by simp [asksLine, hr, hc])) c.machine.lastDisplay text
            refine ⟨_, ?_, halike⟩
            simp only [act, perform, hanswer]
            rfl
        | output =>
            refine ⟨x, ?_, hx⟩
            simp only [act, perform, output, hx.transcript]
            rfl
        | resume stepping =>
            simp only [act, perform]
            split
            · exact ⟨x, rfl, hx⟩
            · exact ⟨x, rfl, hx⟩
        | _ => exact ⟨x, rfl, hx⟩
  · have hnot : ∀ site a, c.machine.control ≠ .host site a := fun site a hc => hhost ⟨site, a, hc⟩
    exact ⟨x, step_withConsole_of_not_host hnot x, by rwa [console_step hnot]⟩

/-- A run that crosses a boundary leaves the console as it is. -/
lemma Crosses.withConsole {n : Node} {i : Nat} {x : Console} {c' : Session}
    (h : Crosses n i { c with console := x } c') :
    c' = { c.after (List.replicate i .step) with console := x } ∧
      (c.after (List.replicate i .step)).console = c.console := by
  generalize hu : ({ c with console := x } : Session) = u at h
  have hpass {c : Session} (hc : c.machine.control = .reach n ∨
      ∃ p, c.machine.control = .boundary p n) :
      Session.step { c with console := x } = { c.step with console := x } ∧
        c.step.console = c.console := by
    have hhost : ∀ site a, c.machine.control ≠ .host site a := by
      rcases hc with hc | ⟨p, hc⟩
      · simp [hc]
      · simp [hc]
    exact ⟨step_withConsole_of_not_host hhost x, console_step hhost⟩
  induction h generalizing c with
  | @last u p control begins =>
      subst hu
      exact hpass (c := c) (.inr ⟨p, control⟩)
  | @more i u c' stays control rest ih =>
      subst hu
      obtain ⟨hstep, hconsole⟩ := hpass (c := c) control
      obtain ⟨hafter, hkept⟩ := ih (c := c.step) hstep.symm
      exact ⟨hafter, hkept.trans hconsole⟩

/-! ### Two runs on different lines -/

/-- The session `c` runs without single-stepping and is at the same place as `s`, as far as a run
with its console can be.  It has shown the same, and these lines are its input. -/
structure Abreast (s c : Session) (lines : List Line) : Prop where
  twin : Twin s { c with console := s.console }
  transcript : c.console.transcript = s.console.transcript
  fed : c.console.Fed lines

namespace Abreast

variable {rest : List Line}

lemma alike (h : Abreast s c rest) (hs : s.console.Fed lines) : s.console.Alike c.console :=
  ⟨h.transcript.symm, hs.unlimited, h.fed.unlimited⟩

lemma asksLine_eq (h : Abreast s c rest) (hgoes : s.controller.reporting = false)
    (hended : ∀ o, s.machine.control ≠ .ended o)
    (hboundary : ∀ p n, s.machine.control ≠ .boundary p n) : c.asksLine = s.asksLine := by
  have hmachine : c.machine = s.machine :=
    h.twin.machine_eq.trans (awake_of_not_boundary hboundary)
  have hflows : Flows c.controller := (h.twin.untold.resolve_left fun ⟨o, ho⟩ => hended o ho).2
  simp only [asksLine, hmachine, hgoes, hflows.reporting]

/-- Both runs take a step, and if they ask for a line, they take it from their own lines. -/
lemma both (h : Abreast s c rest) (hs : s.console.Fed lines)
    (hgoes : s.controller.reporting = false) (hasks : c.asksLine = s.asksLine)
    (hline : s.asksLine = true → lines.head? = rest.head?)
    (htwin : Twin s.proceed (Session.step { c with console := s.console })) :
    Abreast s.step c.step (if s.asksLine then rest.tail else rest) := by
  have hread : c.asksLine = true → s.console.readLine.1 = c.console.readLine.1 := by
    intro hc
    rw [hs.readLine, h.fed.readLine, hline (hasks ▸ hc)]
  obtain ⟨x, hstep, halike⟩ := step_withConsole (h.alike hs) hread
  rw [hstep, ← step_of_not_reporting hgoes] at htwin
  have hconsole : x = s.step.console := by
    obtain ⟨k, hk⟩ := htwin.same
    exact congrArg Session.console hk
  subst hconsole
  refine ⟨htwin, halike.transcript.symm, ?_⟩
  rw [← hasks]
  exact fed_step h.fed

/-- When the one run alone does something and leaves the console as it is, the other stays where it
is. -/
lemma stays (h : Abreast s c rest) {t : Session} (hconsole : t.console = s.console)
    (htwin : Twin t { c with console := s.console }) : Abreast t c rest :=
  ⟨hconsole ▸ htwin, by rw [hconsole]; exact h.transcript, h.fed⟩

/-- The other run keeps up with a step of the one, if it has the line that this asks for. -/
lemma step (h : Abreast s c rest) (hs : s.console.Fed lines)
    (hline : s.asksLine = true → lines.head? = rest.head?) :
    ∃ k, Abreast s.step (c.after (List.replicate k .step))
      (if s.asksLine then rest.tail else rest) := by
  have hstays (hasks : s.asksLine = false)
      (h' : ∃ k, Abreast s.step (c.after (List.replicate k .step)) rest) :
      ∃ k, Abreast s.step (c.after (List.replicate k .step))
        (if s.asksLine then rest.tail else rest) := by
    rwa [if_neg (by simp [hasks])]
  cases hr : s.controller.reporting with
  | true =>
      refine hstays (by simp [asksLine, hr]) ⟨0, ?_⟩
      rw [step_of_reporting hr, report_eq, if_neg (by simp [falters, h.twin.sturdy])]
      exact h.stays rfl (h.twin.withControls rfl rfl id)
  | false =>
      have hstep := step_of_not_reporting hr
      cases hc : s.machine.control with
      | ended o =>
          refine hstays (by simp [asksLine, hc]) ⟨0, ?_⟩
          rw [step_of_isQuiet (by simp [isQuiet, hr, hc])]
          exact h
      | boundary p n =>
          refine hstays (by simp [asksLine, hc]) ⟨0, ?_⟩
          rw [hstep]
          exact h.stays (console_proceed (by simp [hc])) (h.twin.stays hc)
      | reach n =>
          have hconsole : s.proceed.console = s.console := console_proceed (by simp [hc])
          rcases h.twin.arrives hc with ⟨-, -, htwin⟩ | ⟨-, i, c', hcrosses, htwin⟩
          · have hasks := h.asksLine_eq hr (by simp [hc]) (by simp [hc])
            exact ⟨1, h.both hs hr hasks hline htwin⟩
          · obtain ⟨rfl, hkept⟩ := hcrosses.withConsole
            refine hstays (by simp [asksLine, hc]) ⟨i, ?_⟩
            rw [hstep]
            refine ⟨?_, ?_, ?_⟩
            · rw [hconsole]
              exact htwin
            · rw [hkept, hconsole]
              exact h.transcript
            · rw [hkept]
              exact h.fed
      | _ =>
          have hasks := h.asksLine_eq hr (by simp [hc]) (by simp [hc])
          exact ⟨1, h.both hs hr hasks hline
            (h.twin.both hr (by simp [hc]) (by simp [hc]) (by simp [hc]))⟩

/-- The debugger may use the console, as long as the run shows the same. -/
lemma withConsole (h : Abreast s c rest) {console : Console}
    (hsame : console.transcript = s.console.transcript) : Abreast { s with console } c rest := by
  refine ⟨?_, h.transcript.trans hsame.symm, h.fed⟩
  obtain ⟨⟨k, hk⟩, sound, sound', aloof, sturdy, continuous, untold⟩ := h.twin
  refine ⟨⟨k, ?_⟩, sound, sound', aloof, sturdy, continuous, untold⟩
  exact congrArg (fun t : Session => { t with console }) hk

/-- The one run may be told to go on. -/
lemma resume (h : Abreast s c rest) (stepping : Bool) :
    Abreast (s.happen (.resume stepping)) c rest := by
  have hconsole : (s.happen (.resume stepping)).console = s.console := by rw [happen_resume]
  have htold := untold_happen (s := s) (e := .resume stepping) (by simp) (by simp) (by simp)
  have htwin := h.twin.withControls (fragile_happen h.twin.sound (.resume stepping)) htold.1 htold.2
  rw [happen_resume] at hconsole htwin ⊢
  exact h.stays hconsole htwin

/-- The line that is taken is the first of those that are left for the other run, or nothing is
left for it. -/
lemma toProgram_next {ds : List Draw} {more : List Line}
    (h : lines = [] → toProgram ds = [] ∧ more = []) :
    (toProgram (.input lines.head? :: ds) ++ more).head? = lines.head? ∧
      (toProgram (.input lines.head? :: ds) ++ more).tail = toProgram ds ++ more := by
  cases lines with
  | cons line lines => exact ⟨rfl, rfl⟩
  | nil =>
      obtain ⟨hds, rfl⟩ := h rfl
      have hnil : toProgram (.input none :: ds) = [] := hds
      simp [hnil, hds]

/-- The other run keeps up, if it gets the lines that the program takes meanwhile.  When the one
has no lines left, the other must have none either. -/
lemma advance {fuel : Nat} {more : List Line} (hs : s.console.Fed lines)
    (h : Abreast s c (toProgram (s.draws fuel) ++ more))
    (hmore : (s.advance fuel).console.Fed [] → more = []) :
    ∃ k, Abreast (s.advance fuel) (c.after (List.replicate k .step)) more := by
  induction fuel generalizing s c lines with
  | zero => exact ⟨0, h⟩
  | succ fuel ih =>
      cases hquiet : s.isQuiet with
      | true =>
          have hstay : s.advance (fuel + 1) = s := by simp [Session.advance, hquiet]
          have hdraws : s.draws (fuel + 1) = [] := by simp [draws, hquiet]
          rw [hdraws] at h
          rw [hstay]
          exact ⟨0, h⟩
      | false =>
          rw [advance_step] at hmore ⊢
          cases hasks : s.asksLine with
          | false =>
              obtain ⟨hstep, hdraws⟩ := draws_of_not_asks hs hquiet hasks fuel
              rw [hdraws] at h
              obtain ⟨k, hk⟩ := h.step hs (by simp [hasks])
              rw [if_neg (by simp [hasks])] at hk
              obtain ⟨j, hj⟩ := ih hstep hk hmore
              exact ⟨k + j, by rwa [← List.replicate_append_replicate, after_append]⟩
          | true =>
              obtain ⟨hstep, hdraws⟩ := draws_of_asks hs hasks fuel
              rw [hdraws] at h
              -- a program that asks in vain asks in vain from then on
              have hnext := @toProgram_next lines (s.step.draws fuel) more fun hnil => by
                subst hnil
                obtain ⟨n, hnone, hfed⟩ := draws_advance hstep fuel
                refine ⟨?_, hmore (by simpa using hfed)⟩
                rw [hnone, toProgram_input]
                simp
              obtain ⟨k, hk⟩ := h.step hs fun _ => hnext.1.symm
              rw [if_pos hasks, hnext.2] at hk
              obtain ⟨j, hj⟩ := ih hstep hk hmore
              exact ⟨k + j, by rwa [← List.replicate_append_replicate, after_append]⟩

end Abreast

end Session

namespace Debugger

open Session

variable {fuel : Nat} {lines asides : List Line} {s t c : Session} {ds : List Draw}

/-- While pauses are answered and none of them is the last one, the other run keeps up with the
lines that the program takes. -/
theorem Course.abreast (h : Course fuel lines asides s ds t) (hc : Abreast s c (toProgram ds))
    (hquits : ∀ x ∈ ds, ¬ x.Quits) :
    ∃ k, Abreast t (c.after (List.replicate k .step)) [] := by
  induction h generalizing c with
  | settled _ _ => exact ⟨0, hc⟩
  | aside _ _ same _ _ ih => exact ih (hc.withConsole same) hquits
  | @turn lines asides s t console es n ds _ _ _ fed' same reply drawn rest ih =>
      obtain ⟨stepping, rfl⟩ := reply.exists_resume fun hlast =>
        hquits (.pause asides lines.head?) (by simp) ⟨_, _, rfl, hlast⟩
      have hresumed := (hc.withConsole same).resume stepping
      have hlines :
          toProgram (Draw.pause asides lines.head? :: (inTurn lines.tail n).map .input ++ ds) =
            toProgram (({ s with console }.after [.resume stepping]).draws fuel) ++
              toProgram ds := by
        rw [drawn, toProgram_append]
        rfl
      rw [hlines] at hresumed
      have hfed : ({ s with console }.after [.resume stepping]).console.Fed lines.tail := by
        rw [reply.console]
        exact fed'
      obtain ⟨k, hk⟩ := hresumed.advance hfed rest.toProgram_eq_nil
      obtain ⟨j, hj⟩ := ih hk fun x hx => hquits x (by simp [hx])
      refine ⟨k + j, ?_⟩
      rw [← List.replicate_append_replicate, after_append]
      exact hj

/-- The other run keeps up from the start of a run to its end. -/
theorem abreast_run {d : Debugger} {n : Nat} (hfed : d.session.console.Fed lines)
    (hcourse : Course fuel (lines.drop n) [] (d.opened fuel).session (d.afterwards fuel)
      (d.run fuel).session)
    (hc : Abreast d.session c (toProgram (d.record fuel)))
    (hquits : ∀ x ∈ d.record fuel, ¬ x.Quits) :
    ∃ k, Abreast (d.run fuel).session (c.advance k) [] := by
  rw [record_eq] at hquits
  rw [record_eq, toProgram_append] at hc
  obtain ⟨k, hk⟩ := hc.advance hfed fun hnone =>
    hcourse.toProgram_eq_nil (fed_announce hnone _)
  obtain ⟨j, hj⟩ := hcourse.abreast (hk.withConsole rfl) fun x hx =>
    hquits x (List.mem_append_right _ hx)
  rw [← after_append, List.replicate_append_replicate, ← advance_eq_after] at hj
  exact ⟨k + j, hj⟩

/-- The lines that the program takes are lines that are typed. -/
lemma not_mem_of_mem_toProgram (hlines : ∀ line ∈ lines, 0x0A ∉ line) {n : Nat}
    (hasked : (ds.flatMap Draw.asked).map (·.2) = inTurn lines n) :
    ∀ line ∈ toProgram ds, 0x0A ∉ line := by
  intro line hline
  have hmem := mem_asked hline
  rw [hasked] at hmem
  obtain ⟨i, -, hi⟩ := List.mem_map.1 hmem
  exact hlines line (List.mem_of_getElem? hi)

/-- A program that can be started with single-stepping can be started without, on other lines, and
the runs are at the same place when the beginning of the other has been reported. -/
lemma exists_abreast {o : Settings} (ho : o.writeLimit = none) (hook : o.fragileObserver = false)
    (hlines : ∀ line ∈ lines, 0x0A ∉ line) {program : Program} {random : RandomSource}
    (hs : (Session.new { o with input := .ofList (typed lines) }).launch program
      { stepping := true, plugins := [Builtins.plugin], random } = .ok s) :
    (s.console.Fed lines ∧ Paced s) ∧
      ∀ rest : List Line, (∀ line ∈ rest, 0x0A ∉ line) →
        ∃ c, (Session.new { o with input := .ofList (typed rest) }).launch program
          { plugins := [Builtins.plugin], random } = .ok c ∧ Abreast s c.step rest := by
  have hsturdy : (Session.new { o with input := .ofList (typed lines) }).controller.fragile =
      false := by
    unfold Session.new
    split
    · exact hook
    · exact hook
  have haloof : ∀ p ∈ [Builtins.plugin], p.Aloof := by simpa using Builtins.aloof_plugin
  have hleaf : ∀ p ∈ [Builtins.plugin], p.Leaf := by simpa using Builtins.leaf_plugin
  obtain ⟨c, hc, -, htwin, -⟩ := exists_inStep hsturdy haloof hs
  have hpaced := paced_launch hleaf hs htwin.sturdy
  obtain ⟨m, hm, rfl⟩ := launch_eq_ok.mp hs
  obtain ⟨m', hm', rfl⟩ := launch_eq_ok.mp hc
  obtain ⟨functions, -, hm''⟩ := freshMachine_eq_ok hm'
  have hreported (rest : List Line) :
      ((Session.new { o with input := .ofList (typed rest) }).launched program
        { plugins := [Builtins.plugin], random } m').step =
      ((Session.new { o with input := .ofList (typed rest) }).launched program
        { plugins := [Builtins.plugin], random } m').reported :=
    step_eq_reported rfl (by simp [launched, hm''])
  refine ⟨⟨⟨ho, rfl, hlines⟩, hpaced⟩, fun rest hrest => ?_⟩
  refine ⟨_, launch_eq_ok.mpr ⟨m', hm', rfl⟩, ?_⟩
  rw [hreported] at htwin ⊢
  exact ⟨htwin, rfl, ho, rfl, hrest⟩

/-- **One line for each who asks.**  A program is run in step mode, and the lines are typed.  Then

* whoever asks, the debugger or the program, takes the next line, each line goes to one of them, and
  those that nobody has asked for are left; it is the same when the program reads through a buffer;
* a call of `INPUT` asks for one line;
* a pause takes the lines up to the first with a command that ends it, or all that are left;
* when the run has been told to go on without single-stepping, only the program takes lines;
* when it has been told to stop, or the lines are at their end in a pause, it ends as a stopped one;
* and if neither happens, it ends as it does without single-stepping on the lines that the program
  took, with the same memory and the same output. -/
theorem shared_lines {o : Settings} (ho : o.writeLimit = none) (hook : o.fragileObserver = false)
    {lines : List Line} (hlines : ∀ line ∈ lines, 0x0A ∉ line)
    {program : Program} {random : RandomSource} {s : Session}
    (hs : (Session.new { o with input := .ofList (typed lines) }).launch program
      { stepping := true, plugins := [Builtins.plugin], random } = .ok s)
    (history : History) (styled : Bool) (fuel : Nat) :
    let d : Debugger := { session := s, history, styled }
    let ds := d.record fuel
    let asked := ds.flatMap Draw.asked
    let t := (d.run fuel).session
    (asked.map (·.2) = inTurn lines asked.length ∧
      t.console.input = typed (lines.drop asked.length) ∧
      Feed.serveAll (asked.map (·.1)) { lines } =
        (asked.map (·.2), { lines := lines.drop asked.length })) ∧
    (∀ (u : Session) (site : Span) (args : List Value) (left : List Line) (more : Nat),
      u.machine.control = .host site (Builtins.input args) → u.console.Fed left →
      u.draws (more + 2 + u.controller.reporting.toNat) =
        .input left.head? :: u.onward.step.draws more) ∧
    (∀ asides last?, .pause asides last? ∈ ds →
      (∀ line ∈ asides, command line ∉ ["", "s", "step", "c", "continue", "q", "quit"]) ∧
      ∀ line ∈ last?, command line ∈ ["", "s", "step", "c", "continue", "q", "quit"]) ∧
    ds.Pairwise (fun x y => x.Continues → y.isInput = true) ∧
    ((∃ x ∈ ds, x.Quits) → ∃ more, (t.advance more).outcome? = some .stopped) ∧
    ((∀ x ∈ ds, ¬ x.Quits) → ∀ outcome, t.outcome? = some outcome →
      ∃ c k, (Session.new { o with input := .ofList (typed (toProgram ds)) }).launch program
          { plugins := [Builtins.plugin], random } = .ok c ∧
        (c.advance k).outcome? = some outcome ∧ (c.advance k).machine = t.machine ∧
        (c.advance k).output = t.output) := by
  intro d ds asked t
  obtain ⟨⟨hfed, hpaced⟩, hother⟩ := exists_abreast ho hook hlines hs
  obtain ⟨hasked, hleft⟩ := asked_record (d := d) hpaced hfed fuel
  obtain ⟨n, hdraws, hcourse⟩ := exists_course (d := d) hpaced hfed fuel
  have hds : ds = (inTurn lines n).map .input ++ d.afterwards fuel := by
    rw [← hdraws]
    rfl
  refine ⟨⟨hasked, hleft.input, ?_⟩, ?_, ?_, ?_, ?_, ?_⟩
  · rw [Feed.serveAll_eq hlines, hasked, List.length_map]
  · exact fun u site args left more hc hu => draws_input hu hc more
  · intro asides last? hx
    rw [hds] at hx
    exact hcourse.pauses (by simp) asides last? ((List.mem_append.1 hx).resolve_left not_mem_inputs)
  · rw [hds]
    refine List.pairwise_append.2 ⟨List.pairwise_of_forall_mem_list fun x hx y hy _ => ?_,
      hcourse.pairwise, ?_⟩
    · exact isInput_of_mem hy
    · rintro x hx y - ⟨asides, line, rfl, -⟩
      exact absurd hx not_mem_inputs
  · rintro ⟨x, hx, asides, last?, rfl, hlast⟩
    rw [hds] at hx
    have hx' := (List.mem_append.1 hx).resolve_left not_mem_inputs
    exact hcourse.quits ⟨_, hx', asides, last?, rfl, hlast⟩
  · intro hquits outcome ho
    obtain ⟨c, hc, habreast⟩ := hother (toProgram ds) (not_mem_of_mem_toProgram hlines hasked)
    obtain ⟨k, hk⟩ := abreast_run hfed hcourse habreast hquits
    refine ⟨c, k + 1, hc, ?_, ?_, ?_⟩ <;> rw [advance_step]
    · exact hk.twin.outcome?_eq.trans ho
    · have hended : (d.run fuel).session.machine.control = .ended outcome :=
        outcome?_eq_some.1 ho
      exact hk.twin.machine_eq.trans (Machine.awake_of_not_boundary (by simp [hended]))
    · exact hk.transcript

/-- A program that displays the line that it asks for, and then an exclamation mark. -/
def echo : Program where
  statements :=
    [.call (.point 1 1) (some ⟨.none, "DISPLAY"⟩) [.call .none (some ⟨.none, "INPUT"⟩) []],
     .call (.point 2 1) (some ⟨.none, "DISPLAY"⟩) [.literal .none (.text "!")]]

/-- The lines `v`, ` S`, `q`, `C` and `q`, of which the program asks for the third. -/
def typedLines : List Line := [[0x76], [0x20, 0x53, 0x0D], [0x71], [0x43], [0x71]]

/-- The run of the program in step mode, when it has been launched. -/
def echoed : Debugger where
  session := ((Session.new { input := .ofList (typed typedLines) }).launch echo
    { stepping := true, plugins := [Builtins.plugin] }).toOption.getD {}

/-- The first pause takes the first two lines, the program the third, and the second pause the
fourth.  The last line is left, and without pauses the program does the same with the third
line. -/
theorem shared_lines_echo :
    echoed.record 40 =
        [.pause [[0x76]] (some [0x20, 0x53, 0x0D]), .input (some [0x71]),
          .pause [] (some [0x43])] ∧
      (echoed.run 40).session.console.input = typed [[0x71]] ∧
      (echoed.run 40).session.outcome? = some (.completed .nothing) ∧
      ∃ c k, (Session.new { input := .ofList (typed [[0x71]]) }).launch echo
          { plugins := [Builtins.plugin] } = .ok c ∧
        (c.advance k).outcome? = some (.completed .nothing) ∧
        (c.advance k).output = (echoed.run 40).session.output := by
  have hrecord : echoed.record 40 =
      [.pause [[0x76]] (some [0x20, 0x53, 0x0D]), .input (some [0x71]),
        .pause [] (some [0x43])] := by
    decide +kernel
  have houtcome : (echoed.run 40).session.outcome? = some (.completed .nothing) := rfl
  have hlines : ∀ line ∈ typedLines, 0x0A ∉ line := by decide
  have hs : (Session.new { input := .ofList (typed typedLines) }).launch echo
      { stepping := true, plugins := [Builtins.plugin] } = .ok echoed.session := rfl
  obtain ⟨⟨-, hleft, -⟩, -, -, -, -, hsame⟩ :=
    shared_lines (o := {}) rfl rfl hlines hs {} false 40
  have hquits : ∀ x ∈ echoed.record 40, ¬ x.Quits := by
    rw [hrecord]
    have hstep : command [0x20, 0x53, 0x0D] ∉ ["q", "quit"] := by decide +kernel
    have hgoOn : command [0x43] ∉ ["q", "quit"] := by decide +kernel
    rintro x hx ⟨asides, last?, rfl, hlast⟩
    simp only [List.mem_cons, Draw.pause.injEq, reduceCtorEq, false_or, List.not_mem_nil,
      or_false] at hx
    rcases hx with ⟨-, rfl⟩ | ⟨-, rfl⟩
    · exact hstep (hlast _ rfl)
    · exact hgoOn (hlast _ rfl)
  obtain ⟨c, k, hc, hend, -, houtput⟩ := hsame hquits _ houtcome
  have hprogram : toProgram (echoed.record 40) = [[0x71]] := by
    rw [hrecord]
    rfl
  refine ⟨hrecord, ?_, houtcome, c, k, ?_, hend, houtput⟩
  · have hasked : ((echoed.record 40).flatMap Draw.asked).length = 4 := by rw [hrecord]; rfl
    exact hleft.trans (congrArg (fun n => typed (typedLines.drop n)) hasked)
  · rw [← hprogram]
    exact hc

/-- The input of a run in step mode is made of the lines of a text. -/
lemma inputOf_eq (text : String) :
    inputOf text = .ofList (typed ((Text.lines text).map (·.text))) := by
  simp [inputOf, typed, List.flatMap_map]

end Debugger

/-! ### Jobs -/

namespace Text

lemma not_mem_dropReturn {bytes : List UInt8} (h : 0x0A ∉ bytes) : 0x0A ∉ dropReturn bytes := by
  unfold dropReturn
  split
  · exact fun hmem => h (List.mem_of_mem_dropLast hmem)
  · exact h

lemma not_mem_of_readLine? {bytes : List UInt8} {line : Line} (h : readLine? bytes = some line) :
    0x0A ∉ line.text := by
  have hpiece : 0x0A ∉ bytes.takeWhile (· != 0x0A) := fun hmem => by
    simpa using List.mem_takeWhile_imp hmem
  unfold readLine? at h
  dsimp only at h
  split at h
  · cases h
  · split at h
    · obtain rfl := Option.some.inj h
      exact not_mem_dropReturn fun hmem => hpiece (List.mem_of_mem_take hmem)
    · split at h
      · obtain rfl := Option.some.inj h
        exact hpiece
      · obtain rfl := Option.some.inj h
        exact not_mem_dropReturn hpiece

/-- The lines of a text are without line feeds. -/
lemma not_mem_of_mem_lines {text : String} {line : Line} (h : line ∈ lines text) :
    0x0A ∉ line.text := by
  have hupTo : ∀ fuel bytes, ∀ line ∈ linesUpTo fuel bytes, 0x0A ∉ line.text := by
    intro fuel
    induction fuel with
    | zero => simp [linesUpTo]
    | succ fuel ih =>
        intro bytes line hline
        rw [linesUpTo] at hline
        split at hline
        · simp at hline
        · rename_i first hfirst
          rcases List.mem_cons.1 hline with rfl | hline
          · exact not_mem_of_readLine? hfirst
          · exact ih _ _ hline
  exact hupTo _ _ line h

end Text

/-- There is nothing to stop in a new session. -/
lemma Session.stop_new {o : Settings} (fuel : Nat) : (Session.new o).stop fuel = .new o := by
  have hphase : (Session.new o).controller.phase.isActive = false := by
    unfold Session.new
    split
    · rfl
    · rfl
  have hquiet : (Session.new o).isQuiet = true := by
    unfold Session.new
    split
    · rfl
    · rfl
  rw [stop, requestStop, if_neg (by simp [hphase])]
  cases fuel with
  | zero => rfl
  | succ fuel => rw [advance, if_pos hquiet]

namespace Job

variable {j : Job} {around : Surroundings} {program : Program} {s : Session}

/-- The settings of the session of a job. -/
def settings (j : Job) : Settings where
  maxSteps := j.run.maxSteps
  maxDepth := depthLimit j.run.maxDepth
  speed := if 0 < j.run.speed then some j.run.speed else none

/-- In step mode the lines of the input are typed, and they are without line feeds. -/
theorem exists_lines (hstep : j.run.step = true) (input : String) :
    ∃ lines : List Pseudocode.Line, (∀ line ∈ lines, 0x0A ∉ line) ∧
      j.session input = .new { j.settings with input := .ofList (typed lines) } := by
  refine ⟨(Text.lines input).map (·.text), fun line hline => ?_, ?_⟩
  · obtain ⟨l, hl, rfl⟩ := List.mem_map.1 hline
    exact Text.not_mem_of_mem_lines hl
  · simp [session, settings, hstep, Debugger.inputOf_eq]

/-- A job in step mode reports of the run of the debugger. -/
theorem carryOut_eq_run (hstep : j.run.step = true) (hload : j.load around.file? = .ok program)
    (hs : (j.session around.input).launch program (j.launch around.random) = .ok s) (fuel : Nat) :
    j.carryOut fuel around =
      let d : Debugger := { session := s, history := .ofText around.history, styled := j.styled }
      j.report (d.run fuel).session (d.run fuel).history.toText := by
  have hnew : (j.session around.input).stop fuel = j.session around.input := Session.stop_new fuel
  have hstart : (j.session around.input).start fuel (some program) (j.launch around.random) =
      (s.advance fuel, none) := by
    simp [Session.start, hnew, hs]
  simp only [carryOut, hload, hstart, hstep, if_true]
  rfl

end Job

end Pseudocode
