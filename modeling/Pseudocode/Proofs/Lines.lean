/-
# The lines of the input

A session has one input, and whoever asks for a line takes it away: programs that are run one after
the other, and the functions of the host among them.  This file says which line each of them gets.
The input is cut at its line feeds, and what stands at the end of a line, carriage returns and line
feeds, is dropped; what comes after the last line feed counts as a line only if something is left of
it.  The calls that ask for a line get the lines in this order, whatever else happens between them,
and after the last one they get an error.

A prompt is shown with a call unless it is empty or is what was displayed last.  What was displayed
last is forgotten at the start of a run, whereas the lines that have been taken stay taken.  To say
this, the number of calls and the last text are counted along the life of a session from outside,
by `Talk`, without looking at what the session keeps of them.

The main results are

* `Console.lines_readLine`: reading a line takes the first one;
* `Talk.Sound.next`: whatever happens, a session has as many lines left as have not been asked for;
* `Session.lines_in_order`: which line is delivered, what is shown, and what `INPUT` makes of it.
-/
import Mathlib.Data.List.DropRight
import Pseudocode.Proofs.Parallel

namespace Pseudocode

namespace Console

/-- Whether a byte is dropped at the end of a line. -/
def endsLine (b : UInt8) : Bool := b == 0x0D || b == 0x0A

/-- What is left of a segment of the input when its end has been dropped. -/
def stripped (raw : List UInt8) : List UInt8 := raw.rdropWhile endsLine

/-- The lines of an input: its segments between line feeds, of which the last one counts only if
something is left of it. -/
def lines (input : List UInt8) : List ByteString :=
  let segments := (input.splitOn 0x0A).map stripped
  (segments.dropLast ++ segments.getLast?.toList.filter (!·.isEmpty)).map .ofList

lemma splitOn_of_not_mem {raw : List UInt8} (h : 0x0A ∉ raw) : raw.splitOn 0x0A = [raw] := by
  rw [List.splitOn_eq_splitOnP]
  exact List.splitOnP_eq_singleton fun b hb => beq_false_of_ne fun e => h (e ▸ hb)

lemma lines_append {raw : List UInt8} (h : 0x0A ∉ raw) (rest : List UInt8) :
    lines (raw ++ 0x0A :: rest) = .ofList (stripped raw) :: lines rest := by
  have hsegments : (raw ++ 0x0A :: rest).splitOn 0x0A = raw :: rest.splitOn 0x0A := by
    have hraw := splitOn_of_not_mem h
    rw [List.splitOn_eq_splitOnP] at hraw ⊢
    rw [List.splitOnP_append_cons _ _ (by rfl), hraw]
    rfl
  obtain ⟨segment, segments, hrest⟩ : ∃ x xs, rest.splitOn 0x0A = x :: xs :=
    List.exists_cons_of_ne_nil (List.splitOnP_ne_nil _ _)
  simp [lines, hsegments, hrest]

lemma lines_of_not_mem {raw : List UInt8} (h : 0x0A ∉ raw) :
    lines raw = if (stripped raw).isEmpty then [] else [.ofList (stripped raw)] := by
  simp only [lines, splitOn_of_not_mem h]
  cases hs : (stripped raw).isEmpty <;> simp [hs]

@[simp] lemma lines_nil : lines [] = [] := rfl

/-- What is cut off the input is its first segment. -/
lemma splitLine_cases (input : List UInt8) :
    (∃ raw rest, 0x0A ∉ raw ∧ input = raw ++ 0x0A :: rest ∧ splitLine input = (raw, true, rest)) ∨
      (0x0A ∉ input ∧ splitLine input = (input, false, [])) := by
  have hsplit := List.takeWhile_append_dropWhile (p := (· != (0x0A : UInt8))) (l := input)
  have hdrop : input.drop (input.takeWhile (· != 0x0A)).length = input.dropWhile (· != 0x0A) := by
    calc input.drop (input.takeWhile (· != 0x0A)).length
        = (input.takeWhile (· != 0x0A) ++ input.dropWhile (· != 0x0A)).drop
            (input.takeWhile (· != 0x0A)).length := by rw [hsplit]
      _ = input.dropWhile (· != 0x0A) := List.drop_left
  have hnone : 0x0A ∉ input.takeWhile (· != 0x0A) := fun h => by
    simpa using List.mem_takeWhile_imp h
  cases hd : input.dropWhile (· != 0x0A) with
  | nil =>
      rw [hd, List.append_nil] at hsplit
      refine .inr ⟨hsplit ▸ hnone, ?_⟩
      simp only [splitLine, hdrop, hd]
      rw [hsplit]
  | cons b rest =>
      have hb : b = 0x0A := by
        have := List.head_dropWhile_not (· != (0x0A : UInt8)) (l := input) (by simp [hd])
        simpa [hd] using this
      subst hb
      rw [hd] at hsplit
      exact .inl ⟨_, rest, hnone, hsplit.symm, by simp only [splitLine, hdrop, hd]⟩

/-- The answer to the one who asks for a line when there is this one next. -/
def delivered : Option ByteString → Except HostError ByteString
  | some line => .ok line
  | none => .error { text := "EOF" }

/-- Reading a line takes the first one. -/
theorem lines_readLine (c : Console) :
    c.readLine.1 = delivered (lines c.input).head? ∧
      lines c.readLine.2.input = (lines c.input).tail := by
  rcases splitLine_cases c.input with ⟨raw, rest, hraw, hinput, hsplit⟩ | ⟨hraw, hsplit⟩
  · rw [hinput, lines_append hraw]
    simp only [readLine, hsplit]
    exact ⟨rfl, rfl⟩
  · rw [lines_of_not_mem hraw]
    simp only [readLine, hsplit]
    show _ = _ ∧ lines _ = _
    cases h : (stripped c.input).isEmpty with
    | true =>
        have h' : (Text.dropEndWhile (fun b => b == 0x0D || b == 0x0A) c.input).isEmpty = true := h
        simp [h', delivered, lines_nil]
    | false =>
        have h' : (Text.dropEndWhile (fun b => b == 0x0D || b == 0x0A) c.input).isEmpty = false := h
        simp [h', delivered, lines_nil]
        rfl

lemma written_readLine (c : Console) : c.readLine.2.written = c.written := by
  unfold readLine
  dsimp only
  split
  · rfl
  · rfl

lemma input_write (c : Console) (text : ByteString) : (c.write text).2.input = c.input := by
  unfold write
  dsimp only
  split
  · rfl
  · rfl

/-- With a prompt or without one, the first line is taken. -/
lemma lines_prompt {c : Console} (hc : c.limit = none) (lastDisplay text : ByteString) :
    (c.prompt lastDisplay text).1 = delivered (lines c.input).head? ∧
      lines (c.prompt lastDisplay text).2.input = (lines c.input).tail := by
  rw [prompt_of_unlimited hc]
  split
  · exact lines_readLine _
  · exact lines_readLine _

end Console

namespace Machine

/-! ### The text displayed last -/

variable (m : Machine)

lemma lastDisplay_eval (n : Node) : (m.eval n).lastDisplay = m.lastDisplay := by
  unfold eval readVariable
  split
  case h_2 | h_9 => split <;> rfl
  all_goals rfl

lemma lastDisplay_readElement (span : Span) (name : String) (index : Value) :
    (m.readElement span name index).lastDisplay = m.lastDisplay := by
  unfold readElement
  split
  · rfl
  · split
    · rfl
    · split
      · rfl
      · rfl
    · rfl

lemma lastDisplay_writeElement (span : Span) (id : ListId) (p : Int) (v : Value) :
    (m.writeElement span id p v).lastDisplay = m.lastDisplay := by
  unfold writeElement
  dsimp only
  split
  · rfl
  · split
    · rfl
    · rfl

lemma lastDisplay_commit (v : Value) (target : Target) :
    (m.commit v target).lastDisplay = m.lastDisplay := by
  cases target with
  | «variable» name => rfl
  | element span name p =>
      have hlist : (m.listForWriting name).2.lastDisplay = m.lastDisplay := by
        unfold listForWriting
        split
        · rfl
        · rfl
      simp only [commit]
      split
      · rename_i heq
        rw [lastDisplay_writeElement]
        rwa [heq] at hlist
      · rename_i heq
        rw [heq] at hlist
        exact hlist

lemma lastDisplay_exec (n : Node) : (m.exec n).lastDisplay = m.lastDisplay := by
  unfold exec assign
  split
  case h_2 => split <;> rfl
  all_goals rfl

lemma lastDisplay_block (b : Block) : (m.block b).lastDisplay = m.lastDisplay := by
  cases b <;> rfl

lemma lastDisplay_choose (branches : List Branch) :
    (m.choose branches).lastDisplay = m.lastDisplay := by
  unfold choose
  split <;> rfl

lemma lastDisplay_call (name : String) (args : List Value) (site : Span) :
    (m.call name args site).lastDisplay = m.lastDisplay := by
  unfold call invoke
  split
  · rfl
  · split
    · rfl
    · split
      · split <;> rfl
      · rfl

lemma lastDisplay_resume (v : Value) (p : Pending) :
    (m.resume v p).lastDisplay = m.lastDisplay := by
  cases p with
  | element span name => exact m.lastDisplay_readElement span name v
  | assign target => exact m.lastDisplay_commit v target
  | items done rest => cases rest <;> rfl
  | args site name done rest => cases rest <;> rfl
  | binaryApply _ _ _ | relationApply _ _ _ | targetIndex _ _ _ | timesCount _ _ | untilTest _ _
  | arm _ _ | eachSource _ _ _ =>
      simp only [resume]
      split <;> rfl
  | _ => rfl

lemma lastDisplay_proceed (cancelled : Bool) (c : Completion) (p : Pending) :
    (m.proceed cancelled c p).lastDisplay = m.lastDisplay := by
  unfold proceed iterate
  split
  · rfl
  · rfl
  · split
    · rfl
    · split
      · rfl
      · rfl
      · split
        · split <;> rfl
        · rfl
      · split <;> rfl
      · split
        · rfl
        · split <;> rfl
      · rfl

lemma lastDisplay_unwind (e : Failure) (p : Pending) :
    (m.unwind e p).lastDisplay = m.lastDisplay := by
  unfold unwind
  split
  · rfl
  · split <;> rfl
  · rfl

lemma lastDisplay_collapse (text : String) (p : Pending) :
    (m.collapse text p).lastDisplay = m.lastDisplay := by
  cases p <;> rfl

end Machine

namespace Session

variable {s : Session}

lemma lastDisplay_withTask {next : Machine → Pending → Machine} {last : Session → Session}
    (hnext : ∀ m p, (next m p).lastDisplay = m.lastDisplay)
    (hlast : (last s).machine.lastDisplay = s.machine.lastDisplay) :
    (s.withTask next last).machine.lastDisplay = s.machine.lastDisplay := by
  unfold withTask
  split
  · exact hlast
  · exact hnext _ _

lemma lastDisplay_finishCompleted (c : Completion) :
    (s.finishCompleted c).machine.lastDisplay = s.machine.lastDisplay := by
  cases c with
  | _ => rfl

lemma lastDisplay_reach (n : Node) :
    (s.reach n).machine.lastDisplay = s.machine.lastDisplay := by
  have h := s.arrival n
  generalize s.reach n = t at h ⊢
  cases h with
  | _ => rfl

lemma lastDisplay_pass (p : Standing) (n : Node) :
    (s.pass n p).machine.lastDisplay = s.machine.lastDisplay := by
  cases p with
  | admitted =>
      have hheeding := s.heeding n
      show (s.heed n).machine.lastDisplay = _
      generalize s.heed n = t at hheeding
      cases hheeding with
      | _ => rfl
  | throttled | delayed => rfl
  | paused =>
      show (s.wake n).machine.lastDisplay = _
      unfold wake
      split <;> rfl

/-- Nothing but a request to display a text changes which text was displayed last. -/
lemma lastDisplay_proceed
    (h : ∀ site text next, s.machine.control ≠ .host site (.ask (.display text) next)) :
    s.proceed.machine.lastDisplay = s.machine.lastDisplay := by
  cases hc : s.machine.control with
  | host site a =>
      simp only [Session.proceed, hc]
      cases a with
      | ask q next =>
          cases q with
          | display text => exact absurd hc (h site text next)
          | resume stepping =>
              simp only [act, perform]
              split <;> rfl
          | _ => rfl
      | _ => rfl
  | reach n =>
      rw [proceed_reach hc]
      exact lastDisplay_reach n
  | boundary p n =>
      rw [proceed_boundary hc]
      exact lastDisplay_pass p n
  | value v =>
      rw [proceed_value hc]
      exact lastDisplay_withTask (fun m p => m.lastDisplay_resume v p)
        (lastDisplay_finishCompleted _)
  | complete c =>
      rw [proceed_complete hc]
      exact lastDisplay_withTask (fun m p => m.lastDisplay_proceed _ c p)
        (lastDisplay_finishCompleted _)
  | fail e =>
      rw [proceed_fail hc]
      refine lastDisplay_withTask (fun m p => m.lastDisplay_unwind e p) ?_
      unfold finishFailed
      split <;> rfl
  | crash text =>
      rw [proceed_crash hc]
      exact lastDisplay_withTask (fun m p => m.lastDisplay_collapse text p) rfl
  | eval n =>
      simp only [Session.proceed, hc]
      exact Machine.lastDisplay_eval _ n
  | exec n =>
      simp only [Session.proceed, hc]
      exact Machine.lastDisplay_exec _ n
  | block b =>
      simp only [Session.proceed, hc]
      exact Machine.lastDisplay_block _ b
  | choose branches =>
      simp only [Session.proceed, hc]
      exact Machine.lastDisplay_choose _ branches
  | call name args site =>
      simp only [Session.proceed, hc]
      exact Machine.lastDisplay_call _ name args site
  | ending o =>
      simp only [Session.proceed, hc]
      rfl
  | idle | held _ _ | ended _ => simp only [Session.proceed, hc]

/-- Nothing but a request to read a line takes from the input. -/
lemma input_proceed
    (h : ∀ site text next, s.machine.control ≠ .host site (.ask (.prompt text) next)) :
    s.proceed.console.input = s.console.input := by
  cases hc : s.machine.control with
  | host site a =>
      simp only [Session.proceed, hc]
      cases a with
      | ask q next =>
          cases q with
          | prompt text => exact absurd hc (h site text next)
          | resume stepping =>
              simp only [act, perform]
              split <;> rfl
          | write text => exact Console.input_write _ _
          | display text => exact Console.input_write _ _
          | _ => rfl
      | _ => rfl
  | _ => rw [console_proceed (by simp [hc])]

/-- What happens aside has nothing to do with the console. -/
lemma Aside.console_eq {t : Session} (h : Aside s t) : t.console = s.console := by
  cases h with
  | _ => rfl

lemma Aside.lastDisplay_eq {t : Session} (h : Aside s t) :
    t.machine.lastDisplay = s.machine.lastDisplay := by
  cases h with
  | _ => rfl

end Session

/-! ### The calls that ask for a line -/

/-- What can happen in the life of a session: an event of a run, or that a run begins. -/
inductive Deed where
  | event (e : Event)
  | launch (program : Program) (l : Session.Launch)

/-- A session with an account of it from outside: how many calls have asked for a line so far, and
which text was displayed last in the current run. -/
structure Talk where
  session : Session
  calls : Nat := 0
  shown : ByteString := ""

namespace Talk

open Console (lines delivered)

/-- What becomes of a session and the account of it.  A start that is refused changes nothing. -/
def next (t : Talk) : Deed → Talk
  | .event e =>
      let session := t.session.happen e
      if t.session.goesOn e then
        match t.session.machine.control with
        | .host _ (.ask (.prompt _) _) => { t with session, calls := t.calls + 1 }
        | .host _ (.ask (.display text) _) => { t with session, shown := text }
        | _ => { t with session }
      else { t with session }
  | .launch program l =>
      match t.session.launch program l with
      | .ok s => { t with session := s, shown := "" }
      | .error _ => t

/-- The account of the whole life of a session. -/
def of (o : Settings) (deeds : List Deed) : Talk := deeds.foldl next { session := .new o }

/-- The account is right: the lines that are left are those that have not been asked for. -/
structure Sound (input : List UInt8) (t : Talk) : Prop where
  unlimited : t.session.console.limit = none
  left : lines t.session.console.input = (lines input).drop t.calls
  last : t.session.machine.lastDisplay = t.shown

variable {input : List UInt8} {t : Talk}

/-- A run that goes on takes the first of the lines that are left, if it asks for one, and leaves them
if it does not. -/
lemma Sound.goesOn (h : t.Sound input) {e : Event} (hgoes : t.session.goesOn e = true)
    (heq : t.session.happen e = t.session.proceed) : (t.next (.event e)).Sound input := by
  have hlimit := Session.limit_proceed h.unlimited
  simp only [Talk.next, hgoes, if_true, heq]
  split
  · rename_i site text next hc
    obtain ⟨-, htail⟩ := Console.lines_prompt h.unlimited t.session.machine.lastDisplay text
    refine ⟨hlimit, ?_, ?_⟩
    · show lines t.session.proceed.console.input = _
      simp only [Session.proceed, hc, Session.act, Session.perform]
      show lines (t.session.console.prompt _ text).2.input = _
      rw [htail, h.left, List.tail_drop]
    · rw [← h.last]
      exact Session.lastDisplay_proceed (by simp [hc])
  · rename_i site text next hc
    refine ⟨hlimit, ?_, ?_⟩
    · rw [← h.left]
      exact congrArg lines (Session.input_proceed (by simp [hc]))
    · simp only [Session.proceed, hc, Session.act, Session.perform]
      rfl
  · rename_i hprompt hdisplay
    refine ⟨hlimit, ?_, ?_⟩
    · rw [← h.left]
      exact congrArg lines
        (Session.input_proceed fun site text next hc => hprompt site text next hc)
    · rw [← h.last]
      exact Session.lastDisplay_proceed fun site text next hc => hdisplay site text next hc

/-- Whatever happens, the lines that are left are those that have not been asked for. -/
theorem Sound.next (h : t.Sound input) (d : Deed) : (t.next d).Sound input := by
  cases d with
  | event e =>
      rcases Session.happen_cases t.session e with ⟨hgoes, heq⟩ | ⟨hgoes, haside⟩
      · exact h.goesOn hgoes heq
      · have hnext : t.next (.event e) = { t with session := t.session.happen e } := by
          simp [Talk.next, hgoes]
        rw [hnext]
        refine ⟨?_, ?_, ?_⟩
        · show (t.session.happen e).console.limit = none
          rw [haside.console_eq, h.unlimited]
        · show lines (t.session.happen e).console.input = _
          rw [haside.console_eq, h.left]
        · show (t.session.happen e).machine.lastDisplay = _
          rw [haside.lastDisplay_eq, h.last]
  | launch program l =>
      simp only [Talk.next]
      split
      · rename_i s hs
        obtain ⟨m, hm, rfl⟩ := Session.launch_eq_ok.1 hs
        obtain ⟨functions, -, rfl⟩ := Session.freshMachine_eq_ok hm
        exact ⟨h.unlimited, h.left, rfl⟩
      · exact h

/-- The account of a life is right at every moment. -/
lemma sound_of {o : Settings} (ho : o.writeLimit = none) (deeds : List Deed) :
    (of o deeds).Sound o.input.toList := by
  have hnew : (⟨.new o, 0, ""⟩ : Talk).Sound o.input.toList := ⟨ho, by simp [Session.new], rfl⟩
  rw [of]
  generalize (⟨.new o, 0, ""⟩ : Talk) = t at hnew
  induction deeds generalizing t with
  | nil => exact hnew
  | cons d deeds ih => exact ih _ (hnew.next d)

lemma showsPrompt_iff (shown text : ByteString) :
    Console.showsPrompt shown text = true ↔ text ≠ "" ∧ text ≠ shown := by
  have hempty : text.isEmpty = true ↔ text = "" := by
    obtain ⟨bytes⟩ := text
    simp only [ByteString.isEmpty, ByteString.size, beq_iff_eq]
    constructor
    · exact fun h => congrArg ByteString.mk (ByteArray.size_eq_zero_iff.1 h)
    · exact fun h => congrArg ByteString.size h
  rw [Console.showsPrompt, Bool.and_eq_true, Bool.not_eq_true', ← Bool.not_eq_true, hempty,
    bne_iff_ne]

/-- A call that asks for a line gets the first one that has not been asked for, and its prompt is
shown if it is not empty and is not what was displayed last. -/
lemma Sound.proceed (h : t.Sound input) {site : Span} {text : ByteString}
    {next : Except HostError ByteString → Action Value}
    (hc : t.session.machine.control = .host site (.ask (.prompt text) next)) :
    t.session.proceed.machine.control = .host site (next (delivered (lines input)[t.calls]?)) ∧
      t.session.proceed.output =
        (if text ≠ "" ∧ text ≠ t.shown then t.session.output ++ (text ++ " ")
          else t.session.output) ∧
      t.session.proceed.console.written =
        (if text ≠ "" ∧ text ≠ t.shown then t.session.console.written ++ (text ++ " ")
          else t.session.console.written) := by
  obtain ⟨hline, -⟩ := Console.lines_prompt h.unlimited t.session.machine.lastDisplay text
  rw [h.left, List.head?_drop] at hline
  have hproceed : t.session.proceed =
      { t.session with console := (t.session.console.prompt t.shown text).2 }.answer site
        (next (t.session.console.prompt t.shown text).1) := by
    simp only [Session.proceed, hc, Session.act, Session.perform, h.last]
  rw [h.last] at hline
  rw [hproceed, hline]
  refine ⟨rfl, ?_⟩
  show (t.session.console.prompt t.shown text).2.transcript = _ ∧
    (t.session.console.prompt t.shown text).2.written = _
  rw [Console.prompt_of_unlimited h.unlimited]
  split
  · rename_i hshows
    rw [if_pos ((showsPrompt_iff _ _).1 hshows), if_pos ((showsPrompt_iff _ _).1 hshows)]
    exact ⟨Console.transcript_readLine _, Console.written_readLine _⟩
  · rename_i hshows
    rw [if_neg (mt (showsPrompt_iff _ _).2 hshows), if_neg (mt (showsPrompt_iff _ _).2 hshows)]
    exact ⟨Console.transcript_readLine _, Console.written_readLine _⟩

/-- So it is when the run has gone on from there. -/
lemma Sound.ask (h : t.Sound input) {site : Span} {text : ByteString}
    {next : Except HostError ByteString → Action Value}
    (hc : t.session.machine.control = .host site (.ask (.prompt text) next)) :
    t.session.onward.machine.control = .host site (next (delivered (lines input)[t.calls]?)) ∧
      t.session.onward.output =
        (if text ≠ "" ∧ text ≠ t.shown then t.session.output ++ (text ++ " ")
          else t.session.output) ∧
      t.session.onward.console.written =
        (if text ≠ "" ∧ text ≠ t.shown then t.session.console.written ++ (text ++ " ")
          else t.session.console.written) := by
  obtain ⟨c, -, honward⟩ := Session.exists_onward (s := t.session) (by simp [hc])
  have h' : ({ t with session := { t.session with controller := c } } : Talk).Sound input :=
    ⟨h.unlimited, h.left, h.last⟩
  rw [honward]
  exact h'.proceed hc

end Talk

namespace Builtins

/-- The text that `INPUT` asks with. -/
def promptText (h : Heap) (args : List Value) : ByteString := (args.head?.map h.display).getD ""

lemma trim_eq_nil_iff {cs : List Char} : Text.trim cs = [] ↔ cs.all Text.isBlank = true := by
  have hend : Text.trim cs = [] ↔ ∀ c ∈ cs.dropWhile Text.isBlank, Text.isBlank c = true :=
    List.rdropWhile_eq_nil_iff
  rw [hend, ← List.dropWhile_eq_nil_iff, List.dropWhile_idempotent, List.dropWhile_eq_nil_iff,
    List.all_eq_true]

/-- What `INPUT` makes of a line: the line itself if it is blank or does not read as a number, and
else the number. -/
lemma inputValue_eq (line : ByteString) :
    inputValue line =
      if line.chars.all Text.isBlank = true ∨ (Value.text line).asNumber = .nan then .text line
      else .number (Value.text line).asNumber := by
  simp only [inputValue, List.isEmpty_iff, trim_eq_nil_iff]
  by_cases hblank : line.chars.all Text.isBlank = true
  · rw [if_pos hblank, if_pos (.inl hblank)]
  · rw [if_neg hblank]
    have hread : (Value.text line).asNumber = Value.numberOfText line := rfl
    rw [hread]
    cases hn : Value.numberOfText line with
    | nan => rw [if_pos (.inr rfl)]
    | _ => rw [if_neg (by simp [hblank])]

/-- After `INPUT` has looked at its first argument it asks for a line, and it has a value or fails
when it gets the answer. -/
def inputAnswered : Except HostError ByteString → Action Value
  | .ok line => .pure (inputValue line)
  | .error _ => .fail (.host { text := "CANCELED", canceled := true })

lemma input_eq (args : List Value) :
    input args = .ask .heap fun h => .ask (.prompt (promptText h args)) inputAnswered := by
  refine congrArg (Action.ask Request.heap) (funext fun h => ?_)
  exact congrArg (Action.ask (.prompt _)) (funext fun x => by cases x <;> rfl)

end Builtins

namespace Session

variable {s : Session} {site : Span}

lemma proceed_of_host {a : Action Value} (hc : s.machine.control = .host site a) :
    s.proceed = s.act site a := by
  simp only [Session.proceed, hc]

/-- Commands leave a host function that acts where it is. -/
lemma after_commands {a : Action Value} (hc : s.machine.control = .host site a) {es : List Event}
    (hes : ∀ e ∈ es, e ≠ .step) :
    ∃ controller : Controller, controller.reporting = s.controller.reporting ∧
      s.after es = { s with controller } := by
  induction es generalizing s with
  | nil => exact ⟨s.controller, rfl, rfl⟩
  | cons e es ih =>
      have he := hes e (by simp)
      rcases happen_command s he with hs | ⟨site', next, hheld, -⟩
      · obtain ⟨controller, hreporting, hafter⟩ :=
          ih (s := { s with controller := (s.happen e).controller }) hc
            fun e he => hes e (List.mem_cons_of_mem _ he)
        exact ⟨controller, hreporting.trans (reporting_of_command he), by rw [after_cons, hs, hafter]⟩
      · rw [hc] at hheld
        cases hheld

/-- When `INPUT` is called it looks at the lists and asks for a line; commands do not hold it up. -/
lemma input_asks {args : List Value} (hc : s.machine.control = .host site (Builtins.input args))
    {es : List Event} (hes : ∀ e ∈ es, e ≠ .step) :
    ∃ controller : Controller, controller.reporting = false ∧ s.onward.after es =
      { s with controller }.goto
        (.host site (.ask (.prompt (Builtins.promptText s.machine.heap args))
          Builtins.inputAnswered)) := by
  rw [Builtins.input_eq] at hc
  obtain ⟨c, hgoes, honward⟩ := exists_onward (s := s) (by simp [hc])
  have hproceed : s.onward = Session.goto { s with controller := c } (.host site
      (.ask (.prompt (Builtins.promptText s.machine.heap args)) Builtins.inputAnswered)) :=
    honward.trans (proceed_of_host (s := { s with controller := c }) hc)
  obtain ⟨controller, hreporting, hafter⟩ :=
    after_commands (s := s.onward) (by rw [hproceed]; rfl) hes
  refine ⟨controller, by rw [hreporting, hproceed]; exact hgoes, ?_⟩
  rw [hafter, hproceed]
  rfl

/-- `INPUT` has its value, or has failed, when the answer has been looked at. -/
lemma control_inputAnswered {x : Option ByteString}
    (hc : s.machine.control = .host site (Builtins.inputAnswered (Console.delivered x))) :
    s.proceed.machine.control =
      x.elim (.fail (.host { text := "CANCELED", canceled := true }))
        fun line => .value (Builtins.inputValue line) := by
  rw [proceed_of_host hc]
  cases x <;> rfl

open Console (lines delivered)

/-- **Lines are delivered once and in order.**  Take a session whose writer accepts every write, and
look at it after whatever has happened, any number of runs included.  Let the number of calls so far
that asked for a line be counted, and let the text displayed last in the current run be noted.

* A call that asks for a line gets the line of that number, or an error if there is none, and its
  prompt is written with a space after it exactly if it is not empty and is not that text.
* `INPUT` asks in this way, whichever commands are given meanwhile.  It has the line as its value,
  as a text if the line is blank or does not read as a number, and else as the number; without a
  line it fails, being cancelled. -/
theorem lines_in_order (o : Settings) (ho : o.writeLimit = none) (deeds : List Deed) (site : Span) :
    let t := Talk.of o deeds
    let line? := (lines o.input.toList)[t.calls]?
    (∀ text next, t.session.machine.control = .host site (.ask (.prompt text) next) →
      t.session.onward.machine.control = .host site (next (delivered line?)) ∧
      t.session.onward.output =
        (if text ≠ "" ∧ text ≠ t.shown then t.session.output ++ (text ++ " ")
          else t.session.output) ∧
      t.session.onward.console.written =
        (if text ≠ "" ∧ text ≠ t.shown then t.session.console.written ++ (text ++ " ")
          else t.session.console.written)) ∧
    ∀ (args : List Value) (es : List Event),
      t.session.machine.control = .host site (Builtins.input args) → (∀ e ∈ es, e ≠ .step) →
      let text := Builtins.promptText t.session.machine.heap args
      let asking := t.session.onward.after es
      (∃ next, asking.machine.control = .host site (.ask (.prompt text) next)) ∧
      asking.step.output =
        (if text ≠ "" ∧ text ≠ t.shown then t.session.output ++ (text ++ " ")
          else t.session.output) ∧
      asking.step.step.machine.control =
        match line? with
        | some line =>
            .value
              (if line.chars.all Text.isBlank = true ∨ (Value.text line).asNumber = .nan then
                .text line
              else .number (Value.text line).asNumber)
        | none => .fail (.host { text := "CANCELED", canceled := true }) := by
  intro t line?
  have ht : t.Sound o.input.toList := Talk.sound_of ho deeds
  refine ⟨fun text next hc => ht.ask hc, fun args es hc hes => ?_⟩
  intro text asking
  obtain ⟨controller, hgoes, hasking⟩ := input_asks hc hes
  have hcontrol : asking.machine.control
      = .host site (.ask (.prompt text) Builtins.inputAnswered) :=
    congrArg (·.machine.control) hasking
  have hsound : ({ t with session := asking } : Talk).Sound o.input.toList := by
    rw [show asking = _ from hasking]
    exact ⟨ht.unlimited, ht.left, ht.last⟩
  obtain ⟨hanswer, houtput, -⟩ := hsound.proceed hcontrol
  have hbefore : asking.output = t.session.output := congrArg (·.output) hasking
  have hreporting : asking.controller.reporting = false := by
    rw [show asking = _ from hasking]
    exact hgoes
  have hstep : asking.step = asking.proceed := step_of_not_reporting hreporting
  have hquiet : asking.proceed.controller.reporting = false := by
    rw [proceed_of_host hcontrol]
    exact hreporting
  refine ⟨⟨_, hcontrol⟩, by rw [← hbefore, hstep]; exact houtput, ?_⟩
  rw [hstep, step_of_not_reporting hquiet, control_inputAnswered hanswer]
  show line?.elim _ _ = _
  cases line? with
  | none => rfl
  | some line => simp only [Option.elim_some, Builtins.inputValue_eq]

/-- A program that asks for a line, with a prompt. -/
def asking : Program where
  statements := [.call .none (some ⟨.none, "INPUT"⟩) [.literal .none (.text "?")]]

/-- A run of the program, up to the call of `INPUT`. -/
def askingRun : List Deed :=
  .launch asking { plugins := [Builtins.plugin] } :: List.replicate 9 (.event .step)

/-- The run is given up when it has asked, and another one asks. -/
def askingAgain : List Deed := askingRun ++ List.replicate 2 (Deed.event .step) ++ askingRun

/-- The settings of a session with two lines to read, the last of them without a line end. -/
def twoLines : Settings := { input := "12\r\nab" }

/-- Two runs on two lines: the first gets a number after a prompt, and the second a text. -/
theorem lines_in_order_two_runs :
    (Talk.of twoLines askingRun).session.onward.step.step.machine.control = .value (.number 12) ∧
      (Talk.of twoLines askingRun).session.onward.step.output =
        (Talk.of twoLines askingRun).session.output ++ ("?" ++ " ") ∧
      (Talk.of twoLines askingAgain).session.onward.step.step.machine.control =
        .value (.text "ab") := by
  have hnone : ∀ e ∈ ([] : List Event), e ≠ .step := by simp
  have hc : (Talk.of twoLines askingRun).session.machine.control
      = .host .none (Builtins.input [.text "?"]) := rfl
  have hc' : (Talk.of twoLines askingAgain).session.machine.control
      = .host .none (Builtins.input [.text "?"]) := rfl
  have hlines : lines twoLines.input.toList = [.ofString "12", .ofString "ab"] := by decide +kernel
  have hcalls : (Talk.of twoLines askingRun).calls = 0 := rfl
  have hcalls' : (Talk.of twoLines askingAgain).calls = 1 := rfl
  have hnumber : (Value.text "12").asNumber = 12 := by decide +kernel
  have hprompt : Builtins.promptText (Talk.of twoLines askingRun).session.machine.heap [.text "?"]
      = "?" := rfl
  have hshown : (Talk.of twoLines askingRun).shown = "" := rfl
  have hfirst := (lines_in_order twoLines rfl askingRun .none).2 [.text "?"] [] hc hnone
  have hsecond := (lines_in_order twoLines rfl askingAgain .none).2 [.text "?"] [] hc' hnone
  simp only [after_nil, hlines, hcalls, hprompt, hshown, List.getElem?_cons_zero] at hfirst
  simp only [after_nil, hlines, hcalls', List.getElem?_cons_succ, List.getElem?_cons_zero]
    at hsecond
  refine ⟨?_, ?_, ?_⟩
  · rw [hfirst.2.2, if_neg (by rw [hnumber]; decide +kernel), hnumber]
  · rw [hfirst.2.1, if_pos (by decide +kernel)]
  · rw [hsecond.2.2, if_pos (by decide +kernel)]

end Session

end Pseudocode
