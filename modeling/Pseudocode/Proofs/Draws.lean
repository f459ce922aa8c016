/-
# Who takes which line

In step mode the lines that are typed go to two who ask for them: the debugger, when the run has
paused, and the program.  This file keeps account of a run from its start to its end, and says which
lines each of them takes.  The account is made of pauses, each with the lines that leave the run
waiting and the one with which the wait is over, and of the lines that the program asks for.

While a session advances, only the program takes lines.  When the run waits, the debugger takes one,
and the run waits on, goes on or is stopped.  Both put together, the answers to the pauses of a run
are a `Debugger.Course`, and what is said about the account is proved by induction on it.

The main results are

* `Session.draws_advance`: while a session advances, the program takes the lines one by one;
* `Debugger.exists_reply`: what becomes of a session that waits when the debugger has a line;
* `Debugger.course_rounds`: the rounds of the debugger are such a course;
* `Debugger.Course.taken`, `.pauses`, `.pairwise` and `.quits`: what the account says;
* `Debugger.asked_record`: each who asks takes the next line, from the start to the end of a run.
-/
import Pseudocode.Command.Job
import Pseudocode.Proofs.Feed
import Pseudocode.Proofs.Pauses

namespace Pseudocode

/-! ### The account of a run -/

/-- The command that a line is. -/
def command (line : Line) : String := Directive.normalize (.ofList line)

/-- The line ends a pause. -/
def EndsPause (line : Line) : Prop :=
  command line ∈ ["", "s", "step", "c", "continue", "q", "quit"]

/-- What takes lines during a run in step mode. -/
inductive Draw where
  /-- A pause: the lines that leave the run waiting, and the one with which it is over.  Without
  one, the lines are at their end. -/
  | pause (asides : List Line) (last? : Option Line)
  /-- The program asks for a line. -/
  | input (line? : Option Line)
deriving DecidableEq, Repr, Inhabited

namespace Draw

/-- Who asks in turn, and for each the line that is taken, if there is one. -/
def asked : Draw → List (Reader × Option Line)
  | pause asides last? => asides.map (fun line => (.debugger, some line)) ++ [(.debugger, last?)]
  | input line? => [(.program, line?)]

/-- The line that the program takes. -/
def toProgram? : Draw → Option Line
  | pause _ _ => none
  | input line? => line?

def isInput : Draw → Bool
  | pause _ _ => false
  | input _ => true

/-- A pause after which the run is not single-stepped. -/
def Continues (x : Draw) : Prop :=
  ∃ asides line, x = pause asides (some line) ∧ command line ∈ ["c", "continue"]

/-- A pause after which the run is stopped. -/
def Quits (x : Draw) : Prop :=
  ∃ asides last?, x = pause asides last? ∧ ∀ line ∈ last?, command line ∈ ["q", "quit"]

end Draw

/-- The lines that go to the program. -/
def toProgram (ds : List Draw) : List Line := ds.filterMap Draw.toProgram?

/-- The line that has gone from the input of a console; `none` if nothing has gone. -/
def Console.gone? (before after : Console) : Option Line :=
  let bytes := before.input.take (before.input.length - after.input.length)
  if bytes.isEmpty then none else some bytes.dropLast

namespace Session

/-- Whether the program asks for a line in the next step. -/
def asksLine (s : Session) : Bool :=
  !s.controller.reporting &&
    match s.machine.control with
    | .host _ (.ask (.prompt _) _) => true
    | _ => false

/-- What takes lines while a session advances. -/
def draws : (fuel : Nat) → Session → List Draw
  | 0, _ => []
  | fuel + 1, s =>
      if s.isQuiet then []
      else (if s.asksLine then [.input (s.console.gone? s.step.console)] else []) ++
        draws fuel s.step

end Session

namespace Debugger

/-- What takes lines while pauses are answered, with the lines that the present pause has taken
already. -/
def draws (fuel : Nat) : Nat → List Line → Debugger → List Draw
  | 0, _, _ => []
  | n + 1, asides, d =>
      if d.session.waits then
        -- the answer, before the run goes on
        let answered := (d.prompt 0).session
        let line? := d.session.console.gone? answered.console
        if answered.waits then draws fuel n (asides ++ line?.toList) (d.prompt fuel)
        else .pause asides line? :: answered.draws fuel ++ draws fuel n [] (d.prompt fuel)
      else []

/-- Runs a program in step mode that has been launched, to its end. -/
def run (fuel : Nat) (d : Debugger) : Debugger :=
  { d with session := d.session.advance fuel }.drive fuel

/-- What takes lines during the run. -/
def record (fuel : Nat) (d : Debugger) : List Draw :=
  let begun := { d with session := d.session.advance fuel }
  d.session.draws fuel ++
    (begun.announce helpText).draws fuel (begun.session.console.input.length + 1) []

end Debugger

/-! ### Commands -/

namespace Text

/-- A byte of its own does not go on with a character. -/
lemma trailing?_append {b : UInt8} (hb : b.toNat < 0x80) (count value : Nat) (bytes : List UInt8) :
    trailing? count value (bytes ++ [b]) = trailing? count value bytes := by
  induction bytes generalizing count value with
  | nil =>
      cases count with
      | zero => rfl
      | succ count =>
          have hstray : (b.toNat / 64 == 2) = false := by
            rw [beq_eq_false_iff_ne]
            omega
          simp [trailing?, hstray]
  | cons x bytes ih =>
      cases count with
      | zero => rfl
      | succ count => simp only [List.cons_append, trailing?, ih]

/-- The bytes that go on with a character are there. -/
lemma length_of_trailing? {count value v : Nat} {bytes : List UInt8}
    (h : trailing? count value bytes = some v) : count ≤ bytes.length := by
  induction bytes generalizing count value with
  | nil =>
      cases count with
      | zero => exact Nat.le_refl 0
      | succ count => cases h
  | cons x bytes ih =>
      cases count with
      | zero => exact Nat.zero_le _
      | succ count =>
          simp only [trailing?] at h
          split at h
          · exact Nat.succ_le_succ (ih h)
          · cases h

lemma leading?_append {b : UInt8} (hb : b.toNat < 0x80) (x : UInt8) (bytes : List UInt8) :
    leading? x (bytes ++ [b]) = leading? x bytes := by
  simp only [leading?, trailing?_append hb]

lemma length_of_leading? {x : UInt8} {bytes : List UInt8} {c : Char} {count : Nat}
    (h : leading? x bytes = some (c, count)) : count ≤ bytes.length := by
  have hwide : ∀ {n bits least : Nat}, (do
      let value ← trailing? n bits bytes
      if value < least || !(decide value.isValidChar) then none
      else some (Char.ofNat value, n)) = some (c, count) → count ≤ bytes.length := by
    intro n bits least h
    obtain ⟨v, hv, h⟩ := Option.bind_eq_some_iff.1 h
    split at h
    · cases h
    · obtain ⟨-, rfl⟩ := Prod.mk.inj (Option.some.inj h)
      exact length_of_trailing? hv
  unfold leading? at h
  dsimp only at h
  split at h
  · obtain ⟨-, rfl⟩ := Prod.mk.inj (Option.some.inj h)
    exact Nat.zero_le _
  · split at h
    · exact hwide h
    · split at h
      · exact hwide h
      · split at h
        · exact hwide h
        · cases h

/-- A byte of its own at the end is a character of its own. -/
lemma glyphsFrom_append {b : UInt8} (hb : b.toNat < 0x80) (bytes : List UInt8) {passed : Nat}
    (h : passed ≤ bytes.length) :
    glyphsFrom passed (bytes ++ [b]) =
      glyphsFrom passed bytes ++ [Glyph.char (Char.ofNat b.toNat)] := by
  induction bytes generalizing passed with
  | nil =>
      obtain rfl : passed = 0 := Nat.le_zero.1 h
      simp [glyphsFrom, leading?, hb]
  | cons x bytes ih =>
      cases passed with
      | succ passed => exact ih (Nat.le_of_succ_le_succ h)
      | zero =>
          simp only [List.cons_append, glyphsFrom, leading?_append hb]
          cases hx : leading? x bytes with
          | none => simp [ih (Nat.zero_le _)]
          | some found =>
              obtain ⟨c, count⟩ := found
              simp [ih (length_of_leading? hx)]

lemma decode_append {b : UInt8} (hb : b.toNat < 0x80) (bytes : List UInt8) :
    decode (bytes ++ [b]) = decode bytes ++ [Char.ofNat b.toNat] := by
  simp [decode, glyphsFrom_append hb bytes (Nat.zero_le _), Glyph.shown]

/-- A blank at the end makes no difference when blanks are dropped. -/
lemma trim_append {c : Char} (hc : isBlank c = true) (cs : List Char) :
    trim (cs ++ [c]) = trim cs := by
  have hdrop (xs : List Char) : dropEndWhile isBlank (xs ++ [c]) = dropEndWhile isBlank xs := by
    simp [dropEndWhile, hc]
  rw [trim, trim, List.dropWhile_append]
  split
  · rename_i hall
    simp [List.isEmpty_iff.1 hall, hc]
  · exact hdrop _

end Text

/-- What is dropped at the end of a line makes no difference to the command. -/
lemma normalize_stripped (line : List UInt8) :
    Directive.normalize (.ofList (Console.stripped line)) = Directive.normalize (.ofList line) := by
  induction line using List.reverseRecOn with
  | nil => rfl
  | append_singleton bytes b ih =>
      by_cases hb : Console.endsLine b = true
      · have hb' : b.toNat < 0x80 ∧ Text.isBlank (Char.ofNat b.toNat) = true := by
          simp only [Console.endsLine, Bool.or_eq_true, beq_iff_eq] at hb
          rcases hb with rfl | rfl
          · decide
          · decide
        have hstripped : Console.stripped (bytes ++ [b]) = Console.stripped bytes :=
          List.rdropWhile_concat_pos _ _ _ hb
        rw [hstripped, ih]
        have hchars : (ByteString.ofList (bytes ++ [b])).chars =
            (ByteString.ofList bytes).chars ++ [Char.ofNat b.toNat] :=
          Text.decode_append hb'.1 bytes
        rw [Directive.normalize, Directive.normalize, hchars, Text.trim_append hb'.2]
      · have hstripped : Console.stripped (bytes ++ [b]) = bytes ++ [b] :=
          List.rdropWhile_concat_neg _ _ _ hb
        rw [hstripped]

lemma Directive.ofText_cases (text : String) :
    text ∈ ["", "s", "step"] ∧ ofText text = .step ∨
      text ∈ ["c", "continue"] ∧ ofText text = .continue ∨
      text ∈ ["q", "quit"] ∧ ofText text = .quit ∨
      text ∉ ["", "s", "step", "c", "continue", "q", "quit"] ∧
        (ofText text = .vars ∨ ofText text = .help ∨ ofText text = .unknown text) := by
  unfold ofText
  split <;> simp_all

/-! ### Lines that are taken -/

namespace Console

variable {c : Console} {lines : List Line}

/-- The console has no limit, and these lines are its input. -/
structure Fed (c : Console) (lines : List Line) : Prop where
  unlimited : c.limit = none
  input : c.input = typed lines
  whole : ∀ line ∈ lines, 0x0A ∉ line

/-- Reading a line takes the first one. -/
lemma Fed.readLine (h : c.Fed lines) :
    c.readLine = (delivered (lines.head?.map fun line => .ofList (stripped line)),
      { c with input := typed lines.tail }) :=
  readLine_typed h.whole h.input

lemma Fed.tail (h : c.Fed lines) {c' : Console} (hlimit : c'.limit = none)
    (hinput : c'.input = typed lines.tail) : c'.Fed lines.tail where
  unlimited := hlimit
  input := hinput
  whole line hline := h.whole line (List.mem_of_mem_tail hline)

/-- What goes with the first line is that line. -/
lemma Fed.gone? (h : c.Fed lines) {c' : Console} (h' : c'.Fed lines.tail) :
    c.gone? c' = lines.head? := by
  rw [Console.gone?, h.input, h'.input]
  cases lines with
  | nil => rfl
  | cons line lines =>
      have htake : (typed (line :: lines)).take
          ((typed (line :: lines)).length - (typed lines).length) = line ++ [0x0A] := by
        rw [typed_cons, List.append_cons]
        refine List.take_left' ?_
        simp only [List.length_append, List.length_cons]
        omega
      simp [htake]

end Console

namespace Session

open Machine

variable {s : Session} {lines : List Line} {fuel : Nat}

lemma asksLine_iff : s.asksLine = true ↔ s.controller.reporting = false ∧
    ∃ site text next, s.machine.control = .host site (.ask (.prompt text) next) := by
  constructor
  · intro h
    simp only [asksLine, Bool.and_eq_true, Bool.not_eq_true'] at h
    obtain ⟨hgoes, hasks⟩ := h
    split at hasks
    · rename_i site text next hc
      exact ⟨hgoes, site, text, next, hc⟩
    · cases hasks
  · rintro ⟨hgoes, site, text, next, hc⟩
    simp [asksLine, hgoes, hc]

/-- A report leaves the console as it is. -/
lemma console_report (s : Session) : s.report.console = s.console := by
  rw [report_eq]
  split
  · rfl
  · rfl

/-- A step takes the first line if the program asks for one, and else none. -/
lemma fed_step (h : s.console.Fed lines) :
    s.step.console.Fed (if s.asksLine then lines.tail else lines) := by
  have hlimit := limit_step h.unlimited
  cases hasks : s.asksLine with
  | true =>
      obtain ⟨hgoes, site, text, next, hc⟩ := asksLine_iff.1 hasks
      refine h.tail hlimit ?_
      rw [step_of_not_reporting hgoes, proceed_of_host hc]
      show (s.console.prompt s.machine.lastDisplay text).2.input = _
      rw [Console.prompt_of_unlimited h.unlimited]
      split
      · have hshown : ({ s.console with
            transcript := s.console.transcript ++ (text ++ " ")
            written := s.console.written ++ (text ++ " ") } : Console).Fed lines :=
          ⟨h.unlimited, h.input, h.whole⟩
        rw [hshown.readLine]
      · rw [h.readLine]
  | false =>
      have hinput : s.step.console.input = s.console.input := by
        cases hr : s.controller.reporting with
        | true => rw [step_of_reporting hr, console_report]
        | false =>
            rw [step_of_not_reporting hr]
            refine input_proceed fun site text next hc => ?_
            rw [asksLine_iff.2 ⟨hr, site, text, next, hc⟩] at hasks
            cases hasks
      exact ⟨hlimit, hinput.trans h.input, h.whole⟩

/-- When the program asks for a line, it takes the first one. -/
lemma draws_of_asks (h : s.console.Fed lines) (hasks : s.asksLine = true) (fuel : Nat) :
    s.step.console.Fed lines.tail ∧
      s.draws (fuel + 1) = .input lines.head? :: s.step.draws fuel := by
  have hstep := fed_step h
  rw [if_pos hasks] at hstep
  have hquiet : s.isQuiet = false := by
    obtain ⟨-, site, text, next, hc⟩ := asksLine_iff.1 hasks
    simp [isQuiet, hc]
  refine ⟨hstep, ?_⟩
  rw [draws, if_neg (by simp [hquiet]), if_pos hasks, h.gone? hstep]
  rfl

lemma draws_of_not_asks (h : s.console.Fed lines) (hquiet : s.isQuiet = false)
    (hasks : s.asksLine = false) (fuel : Nat) :
    s.step.console.Fed lines ∧ s.draws (fuel + 1) = s.step.draws fuel := by
  have hstep := fed_step h
  rw [if_neg (by simp [hasks])] at hstep
  exact ⟨hstep, by simp [draws, hquiet, hasks]⟩

/-- The lines that are taken while a session advances go to the program, one after the other. -/
theorem draws_advance (h : s.console.Fed lines) (fuel : Nat) :
    ∃ n, s.draws fuel = (inTurn lines n).map .input ∧
      (s.advance fuel).console.Fed (lines.drop n) := by
  induction fuel generalizing s lines with
  | zero => exact ⟨0, rfl, h⟩
  | succ fuel ih =>
      cases hquiet : s.isQuiet with
      | true => exact ⟨0, by simp [draws, hquiet]; rfl, by simpa [advance, hquiet] using h⟩
      | false =>
          rw [advance_step]
          cases hasks : s.asksLine with
          | true =>
              obtain ⟨hstep, hdraws⟩ := draws_of_asks h hasks fuel
              obtain ⟨n, hmore, hfed⟩ := ih hstep
              refine ⟨n + 1, ?_, by rwa [List.drop_tail] at hfed⟩
              rw [hdraws, hmore, inTurn_succ]
              rfl
          | false =>
              obtain ⟨hstep, hdraws⟩ := draws_of_not_asks h hquiet hasks fuel
              rw [hdraws]
              exact ih hstep

/-- While a run makes its report, nobody takes a line. -/
lemma draws_of_reporting (h : s.console.Fed lines) (hr : s.controller.reporting = true)
    (fuel : Nat) : s.step.console.Fed lines ∧ s.draws (fuel + 1) = s.step.draws fuel :=
  draws_of_not_asks h (by simp [isQuiet, hr]) (by simp [asksLine, hr]) fuel

/-- When a host function acts, those lines are taken that are taken when it has acted. -/
lemma draws_onward {site : Span} {a : Action Value} (h : s.console.Fed lines)
    (hc : s.machine.control = .host site a)
    (ha : ∀ text next, a ≠ .ask (.prompt text) next) (fuel : Nat) :
    s.onward.console.Fed lines ∧
      s.draws (fuel + 1 + s.controller.reporting.toNat) = s.onward.draws fuel := by
  have hacts {t : Session} (ht : t.console.Fed lines) (hct : t.machine.control = .host site a) :
      t.step.console.Fed lines ∧ t.draws (fuel + 1) = t.step.draws fuel := by
    refine draws_of_not_asks ht (by simp [isQuiet, hct]) ?_ fuel
    refine Bool.eq_false_iff.2 fun hasks => ?_
    obtain ⟨-, site', text, next, hc'⟩ := asksLine_iff.1 hasks
    rw [hct] at hc'
    cases hc'
    exact ha text next rfl
  cases hr : s.controller.reporting with
  | false =>
      rw [onward, hr]
      exact hacts h hc
  | true =>
      obtain ⟨hfed, hdraws⟩ := draws_of_reporting h hr (fuel + 1)
      have hstays : s.step.machine.control = .host site a := by
        rw [step_eq_reported hr (by simp [hc])]
        exact hc
      rw [onward, hr]
      exact ⟨(hacts hfed hstays).1, hdraws.trans (hacts hfed hstays).2⟩

/-- A call of `INPUT` asks for one line. -/
lemma draws_input {site : Span} {args : List Value} (h : s.console.Fed lines)
    (hc : s.machine.control = .host site (Builtins.input args)) (fuel : Nat) :
    s.draws (fuel + 2 + s.controller.reporting.toNat) =
      .input lines.head? :: s.onward.step.draws fuel := by
  obtain ⟨controller, hgoes, honward⟩ := @input_asks s site args hc [] (by simp)
  rw [after_nil] at honward
  have hasks : s.onward.asksLine = true := by
    rw [honward]
    exact asksLine_iff.2 ⟨hgoes, _, _, _, rfl⟩
  rw [Builtins.input_eq] at hc
  obtain ⟨hfed, hdraws⟩ := draws_onward h hc (by simp) (fuel + 1)
  exact hdraws.trans (draws_of_asks hfed hasks fuel).2

end Session

lemma toProgram_append (ds es : List Draw) :
    toProgram (ds ++ es) = toProgram ds ++ toProgram es :=
  List.filterMap_append

lemma toProgram_input (lines : List Line) (n : Nat) :
    toProgram ((inTurn lines n).map .input) = lines.take n := by
  induction n generalizing lines with
  | zero => rfl
  | succ n ih =>
      rw [inTurn_succ]
      cases lines with
      | nil => simpa [toProgram, Draw.toProgram?] using ih []
      | cons line lines => simpa [toProgram, Draw.toProgram?] using ih lines

/-! ### Answers -/

/-- What becomes of a session that waits when the debugger has a line, or none is left: some events,
or nothing. -/
inductive Reply : Option Line → Option (List Event) → Prop where
  | aside {line : Line} (h : ¬ EndsPause line) : Reply (some line) none
  | step {line : Line} (h : command line ∈ ["", "s", "step"]) :
      Reply (some line) (some [.resume true])
  | goOn {line : Line} (h : command line ∈ ["c", "continue"]) :
      Reply (some line) (some [.resume false])
  | quit {line : Line} (h : command line ∈ ["q", "quit"]) :
      Reply (some line) (some Session.stopping)
  | atEnd : Reply none (some Session.stopping)

namespace Reply

open Session

variable {line? : Option Line} {es : List Event} {s : Session}

/-- An answer other than an aside ends the wait. -/
lemma not_waits (h : Reply line? (some es)) (hs : Paced s) (hwaits : s.waits = true) :
    (s.after es).waits = false := by
  cases h with
  | step _ | goOn _ => exact hs.not_waits_of_resume hwaits _
  | quit _ | atEnd => exact (hs.loose_of_stop hwaits).not_waits

/-- Unless the run is told to go on with single-stepping, it does not wait any more. -/
lemma loose (h : Reply line? (some es)) (hs : Paced s) (hwaits : s.waits = true)
    (hes : es ≠ [.resume true]) : Loose (s.after es) := by
  cases h with
  | step _ => exact absurd rfl hes
  | goOn _ => exact hs.loose_of_resume hwaits
  | quit _ | atEnd => exact hs.loose_of_stop hwaits

/-- If a run waits again, it has been told to go on with single-stepping. -/
lemma eq_resume_of_again (h : Reply line? (some es)) (hs : Paced s) (hwaits : s.waits = true)
    {fuel : Nat} (hagain : ((s.after es).advance fuel).waits = true) : es = [.resume true] := by
  refine Classical.byContradiction fun hne => ?_
  have hloose := (h.loose hs hwaits hne).advance (hs.after es) fuel
  rw [hloose.not_waits] at hagain
  cases hagain

lemma ends (h : Reply line? (some es)) : ∀ line ∈ line?, EndsPause line := by
  cases h with
  | step hline | goOn hline | quit hline =>
      intro line hmem
      obtain rfl := Option.mem_some_iff.1 hmem
      rw [EndsPause]
      generalize command _ = text at hline
      simp only [List.mem_cons, List.not_mem_nil, or_false] at hline ⊢
      tauto
  | atEnd => simp

lemma eq_goOn (h : Reply line? (some es)) {line : Line} (hlast : line? = some line)
    (hline : command line ∈ ["c", "continue"]) : es = [.resume false] := by
  cases h with
  | goOn _ => rfl
  | atEnd => cases hlast
  | step hline' | quit hline' =>
      obtain rfl := Option.some.inj hlast
      simp only [List.mem_cons, List.not_mem_nil, or_false] at hline hline'
      rcases hline with h | h <;> simp [h] at hline'

lemma eq_stop (h : Reply line? (some es)) (hquits : ∀ line ∈ line?, command line ∈ ["q", "quit"]) :
    es = stopping := by
  cases h with
  | quit _ | atEnd => rfl
  | step hline | goOn hline =>
      have hline' := hquits _ rfl
      simp only [List.mem_cons, List.not_mem_nil, or_false] at hline hline'
      rcases hline' with h | h <;> simp [h] at hline

/-- An answer that does not stop the run tells it to go on. -/
lemma exists_resume (h : Reply line? (some es))
    (hquits : ¬ ∀ line ∈ line?, command line ∈ ["q", "quit"]) :
    ∃ stepping, es = [.resume stepping] := by
  cases h with
  | step _ | goOn _ => exact ⟨_, rfl⟩
  | quit h => exact absurd (fun line hline => Option.mem_some_iff.1 hline ▸ h) hquits
  | atEnd => exact absurd (by simp) hquits

lemma console (h : Reply line? (some es)) (s : Session) : (s.after es).console = s.console := by
  have hstop : (s.after stopping).console = s.console := by
    rw [stopping, after_cons, after_cons, after_nil, happen_controls _ (by simp) (by simp),
      happen_controls s (by simp) (by simp)]
  cases h with
  | step _ | goOn _ => rw [after_cons, after_nil, happen_resume]
  | quit _ | atEnd => exact hstop

end Reply

namespace Debugger

open Session Machine

variable {d : Debugger} {lines : List Line}

/-- A session that waits stays as it is. -/
lemma advance_of_waits {s : Session} (h : s.waits = true) (fuel : Nat) : s.advance fuel = s := by
  have hquiet : s.isQuiet = true := (Bool.and_eq_true_iff.1 h).2
  cases fuel with
  | zero => rfl
  | succ fuel => rw [advance, if_pos hquiet]

lemma session_resume (h : d.session.waits = true) (fuel : Nat) (stepping : Bool) :
    (d.resume fuel stepping).session = (d.session.happen (.resume stepping)).advance fuel := by
  unfold Debugger.resume
  simp only [happen]
  cases hs : d.session.resume? stepping with
  | some s => rfl
  | none => exact (advance_of_waits h fuel).symm

lemma fed_announce {console : Console} (h : console.Fed lines) (text : ByteString) :
    (console.announce text).Fed lines :=
  ⟨h.unlimited, h.input, h.whole⟩

/-- The console when the debugger has prompted for a command. -/
def prompted (d : Debugger) : Console :=
  d.session.console.announce (.ofString ("[" ++ d.session.controller.span.toText ++ "] > "))

/-- Without a line the debugger stops the run. -/
lemma prompt_nil (hfed : d.session.console.Fed []) (fuel : Nat) :
    (d.prompt fuel).session = { d.session with console := d.prompted }.stop fuel := by
  have hread : d.prompted.readLine.1 = .error { text := "EOF" } := by
    rw [prompted, (fed_announce hfed _).readLine]
    rfl
  simp only [prompt, announce]
  split
  · rfl
  · rename_i line console hline
    rw [prompted, hline] at hread
    cases hread

/-- The debugger when it has taken a line and these are left. -/
def noted (d : Debugger) (line : Line) (lines : List Line) : Debugger :=
  { d with
    session := { d.session with console := { d.prompted with input := typed lines } }
    history := if command line = "" then d.history else d.history.add (command line) }

/-- With a line it follows the directive of the command. -/
lemma prompt_cons {line : Line} (hfed : d.session.console.Fed (line :: lines)) (fuel : Nat) :
    d.prompt fuel = (d.noted line lines).follow fuel (.ofText (command line)) := by
  have hread : d.prompted.readLine =
      (.ok (.ofList (Console.stripped line)), { d.prompted with input := typed lines }) :=
    (fed_announce hfed _).readLine
  have hcommand : Directive.normalize (.ofList (Console.stripped line)) = command line :=
    normalize_stripped line
  rw [prompted] at hread
  simp only [prompt, announce, hread, hcommand]
  rfl

/-- A line that the debugger takes is an answer, and if it tells the run to go on or to stop, the
session advances. -/
theorem exists_reply (hp : Paced d.session) (hfed : d.session.console.Fed lines)
    (hwaits : d.session.waits = true) :
    ∃ console es?, console.Fed lines.tail ∧ console.transcript = d.session.console.transcript ∧
      Reply lines.head? es? ∧
      ∀ fuel, (d.prompt fuel).session =
        (es?.elim { d.session with console } { d.session with console }.after).advance fuel := by
  have hstop (console : Console) (fuel : Nat) : { d.session with console }.stop fuel =
      ({ d.session with console }.after stopping).advance fuel :=
    (hp.withConsole console).stop_eq hwaits fuel
  cases lines with
  | nil =>
      refine ⟨d.prompted, some stopping, fed_announce hfed _, rfl, .atEnd, fun fuel => ?_⟩
      exact (prompt_nil hfed fuel).trans (hstop d.prompted fuel)
  | cons line lines =>
      have hprompted : d.prompted.Fed (line :: lines) := fed_announce hfed _
      have hnoted : (d.noted line lines).session.console.Fed lines :=
        hprompted.tail hfed.unlimited rfl
      have hwaits' : (d.noted line lines).session.waits = true := hwaits
      rcases Directive.ofText_cases (command line) with ⟨htext, hof⟩ | ⟨htext, hof⟩ | ⟨htext, hof⟩ |
        ⟨htext, hof⟩
      · refine ⟨_, some [.resume true], hnoted, rfl, .step htext, fun fuel => ?_⟩
        rw [prompt_cons hfed fuel, hof]
        exact session_resume hwaits' fuel true
      · refine ⟨_, some [.resume false], hnoted, rfl, .goOn htext, fun fuel => ?_⟩
        rw [prompt_cons hfed fuel, hof]
        exact session_resume hwaits' fuel false
      · refine ⟨_, some stopping, hnoted, rfl, .quit htext, fun fuel => ?_⟩
        rw [prompt_cons hfed fuel, hof]
        exact hstop _ fuel
      · -- a command of another kind shows something, and the run goes on waiting
        obtain ⟨text, htold⟩ : ∃ text : String, ∀ fuel,
            (d.noted line lines).follow fuel (.ofText (command line)) =
              (d.noted line lines).announce text := by
          rcases hof with hof | hof | hof
          · exact ⟨_, fun fuel => by rw [hof]; rfl⟩
          · exact ⟨_, fun fuel => by rw [hof]; rfl⟩
          · exact ⟨_, fun fuel => by rw [hof]; rfl⟩
        have hwaits' : ((d.noted line lines).announce text).session.waits = true := hwaits
        refine ⟨_, none, fed_announce hnoted text, rfl, .aside htext, fun fuel => ?_⟩
        rw [prompt_cons hfed fuel, htold]
        exact (advance_of_waits hwaits' fuel).symm

/-- What becomes of a session while its pauses are answered, and what takes the lines that are left,
when the present pause has taken some already. -/
inductive Course (fuel : Nat) : List Line → List Line → Session → List Draw → Session → Prop where
  /-- The session does not wait. -/
  | settled {lines : List Line} {s : Session} (fed : s.console.Fed lines)
      (quiet : s.waits = false) : Course fuel lines [] s [] s
  /-- A line leaves it waiting. -/
  | aside {line : Line} {lines asides : List Line} {s t : Session} {console : Console}
      {ds : List Draw} (waits : s.waits = true) (fed : s.console.Fed (line :: lines))
      (same : console.transcript = s.console.transcript) (aside : ¬ EndsPause line)
      (rest : Course fuel lines (asides ++ [line]) { s with console } ds t) :
      Course fuel (line :: lines) asides s ds t
  /-- A line, or the end of the lines, ends the wait. -/
  | turn {lines asides : List Line} {s t : Session} {console : Console} {es : List Event} {n : Nat}
      {ds : List Draw} (paced : Paced s) (waits : s.waits = true) (fed : s.console.Fed lines)
      (fed' : console.Fed lines.tail) (same : console.transcript = s.console.transcript)
      (reply : Reply lines.head? (some es))
      (drawn : ({ s with console }.after es).draws fuel = (inTurn lines.tail n).map .input)
      (rest :
        Course fuel (lines.tail.drop n) [] (({ s with console }.after es).advance fuel) ds t) :
      Course fuel lines asides s
        (Draw.pause asides lines.head? :: (inTurn lines.tail n).map .input ++ ds) t

lemma rounds_of_not_waits (h : d.session.waits = false) (fuel n : Nat) :
    rounds fuel n d = d ∧ d.draws fuel n [] = [] := by
  cases n with
  | zero => exact ⟨rfl, rfl⟩
  | succ n => simp [rounds, draws, h]

lemma rounds_of_waits (h : d.session.waits = true) (fuel n : Nat) :
    rounds fuel (n + 1) d = rounds fuel n (d.prompt fuel) := by
  simp [rounds, h]

/-- A line that leaves the run waiting goes to the present pause. -/
lemma draws_of_aside {line : Line} {console : Console}
    (hfed : d.session.console.Fed (line :: lines)) (hfed' : console.Fed lines)
    (hwaits : d.session.waits = true)
    (hstays : ∀ fuel, (d.prompt fuel).session = { d.session with console }) (fuel n : Nat)
    (asides : List Line) :
    d.draws fuel (n + 1) asides = (d.prompt fuel).draws fuel n (asides ++ [line]) := by
  have hwaits' : { d.session with console }.waits = true := hwaits
  rw [draws, if_pos hwaits]
  dsimp only
  rw [hstays 0, if_pos hwaits', hfed.gone? hfed']
  rfl

/-- The line that ends the wait is the last of the pause, and then come those that the program
takes. -/
lemma draws_of_turn {s : Session} (hfed : d.session.console.Fed lines)
    (hfed' : s.console.Fed lines.tail) (hwaits : d.session.waits = true)
    (hover : s.waits = false) (hnext : ∀ fuel, (d.prompt fuel).session = s.advance fuel)
    (fuel n : Nat) (asides : List Line) :
    d.draws fuel (n + 1) asides =
      Draw.pause asides lines.head? :: s.draws fuel ++ (d.prompt fuel).draws fuel n [] := by
  have hanswer : (d.prompt 0).session = s := hnext 0
  rw [draws, if_pos hwaits]
  dsimp only
  rw [hanswer, if_neg (by simp [hover]), hfed.gone? hfed']

/-- The rounds of the debugger are such a course, if there are more of them than lines. -/
theorem course_rounds {fuel n : Nat} {asides : List Line} (hp : Paced d.session)
    (hfed : d.session.console.Fed lines) (hasides : asides = [] ∨ d.session.waits = true)
    (hn : lines.length < n) :
    Course fuel lines asides d.session (d.draws fuel n asides) (rounds fuel n d).session := by
  induction n generalizing d lines asides with
  | zero => simp at hn
  | succ n ih =>
      cases hwaits : d.session.waits with
      | false =>
          obtain rfl : asides = [] := hasides.resolve_right (by simp [hwaits])
          obtain ⟨hrounds, hdraws⟩ := rounds_of_not_waits hwaits fuel (n + 1)
          rw [hrounds, hdraws]
          exact .settled hfed hwaits
      | true =>
          obtain ⟨console, es?, hfed', hsame, hreply, hprompt⟩ := exists_reply hp hfed hwaits
          have hwaits' : { d.session with console }.waits = true := hwaits
          rw [rounds_of_waits hwaits]
          cases es? with
          | none =>
              cases lines with
              | nil => cases hreply
              | cons line lines =>
                  have haside : ¬ EndsPause line := by
                    cases hreply with
                    | aside h => exact h
                  have hstays (fuel : Nat) : (d.prompt fuel).session = { d.session with console } :=
                    (hprompt fuel).trans (advance_of_waits hwaits' fuel)
                  rw [draws_of_aside hfed hfed' hwaits hstays]
                  refine .aside hwaits hfed hsame haside ?_
                  have hrest := @ih (d.prompt fuel) lines (asides ++ [line])
                  rw [hstays fuel] at hrest
                  exact hrest (hp.withConsole _) hfed' (.inr hwaits') (Nat.lt_of_succ_lt_succ hn)
          | some es =>
              have hps := hp.withConsole console
              have hover := hreply.not_waits hps hwaits'
              have hfed'' : ({ d.session with console }.after es).console.Fed lines.tail := by
                rw [hreply.console]
                exact hfed'
              obtain ⟨k, hdrawn, hleft⟩ := draws_advance hfed'' fuel
              rw [draws_of_turn hfed hfed'' hwaits hover hprompt, hdrawn]
              refine .turn hp hwaits hfed hfed' hsame hreply hdrawn ?_
              have hpaced := (hps.after es).advance fuel
              have hagain := @Reply.eq_resume_of_again _ _ _ hreply hps hwaits' fuel
              have hnext : (d.prompt fuel).session =
                ({ d.session with console }.after es).advance fuel := hprompt fuel
              rw [← hnext] at hleft hpaced hagain ⊢
              cases hwaits'' : (d.prompt fuel).session.waits with
              | false =>
                  obtain ⟨hrounds', hdraws'⟩ := rounds_of_not_waits hwaits'' fuel n
                  rw [hrounds', hdraws']
                  exact .settled hleft hwaits''
              | true =>
                  -- the run waits again, so it has been told to go on by a line
                  obtain rfl := hagain hwaits''
                  cases lines with
                  | nil => cases hreply
                  | cons line lines =>
                      refine ih hpaced hleft (.inl rfl) ?_
                      simp only [List.tail_cons, List.length_drop, List.length_cons] at hn ⊢
                      omega

/-! ### What the account says -/

variable {fuel : Nat} {asides : List Line} {s t : Session} {ds : List Draw}

lemma Course.of_not_waits (h : Course fuel lines asides s ds t) (hs : s.waits = false) :
    ds = [] ∧ t = s := by
  cases h with
  | settled _ _ => exact ⟨rfl, rfl⟩
  | aside waits _ _ _ _ => simp [hs] at waits
  | turn _ waits _ _ _ _ _ _ => simp [hs] at waits

/-- Only after a command to go on with single-stepping there is another pause. -/
lemma Course.last {console : Console} {es : List Event} {line? : Option Line}
    (h : Course fuel lines [] (({ s with console }.after es).advance fuel) ds t) (hs : Paced s)
    (hwaits : s.waits = true) (hreply : Reply line? (some es)) (hes : es ≠ [.resume true]) :
    ds = [] ∧ t = ({ s with console }.after es).advance fuel := by
  refine h.of_not_waits (Bool.eq_false_iff.2 fun hagain => hes ?_)
  exact hreply.eq_resume_of_again (hs.withConsole console) hwaits hagain

lemma asked_input (lines : List (Option Line)) :
    (lines.map Draw.input).flatMap Draw.asked = lines.map (.program, ·) := by
  induction lines with
  | nil => rfl
  | cons line lines ih => simp [Draw.asked, ih]

/-- Each who asks takes the next line, as long as there is one. -/
theorem Course.taken (h : Course fuel lines asides s ds t) :
    ∃ n, asides.map some ++ inTurn lines n = (ds.flatMap Draw.asked).map (·.2) ∧
      t.console.Fed (lines.drop n) := by
  induction h with
  | settled fed _ => exact ⟨0, rfl, fed⟩
  | aside _ _ _ _ _ ih =>
      obtain ⟨n, htaken, hfed⟩ := ih
      exact ⟨n + 1, by rw [← htaken]; simp [inTurn_succ], hfed⟩
  | @turn lines asides s t console es k ds _ _ _ _ _ _ _ _ ih =>
      obtain ⟨n, htaken, hfed⟩ := ih
      refine ⟨k + n + 1, ?_, ?_⟩
      · rw [inTurn_succ, inTurn_add]
        simp [Draw.asked, ← htaken, asked_input, Function.comp_def]
      · rw [List.drop_drop, List.drop_tail] at hfed
        exact hfed

lemma not_mem_inputs {lines : List (Option Line)} {asides : List Line} {last? : Option Line} :
    Draw.pause asides last? ∉ lines.map Draw.input := by
  simp

/-- In the account of one answer there is one pause. -/
lemma eq_of_mem_answer {lines : List (Option Line)} {asides asides' : List Line}
    {last? last?' : Option Line}
    (h : Draw.pause asides last? ∈ .pause asides' last?' :: lines.map Draw.input) :
    asides = asides' ∧ last? = last?' := by
  simpa using h

lemma isInput_of_mem {lines : List (Option Line)} {x : Draw} (h : x ∈ lines.map Draw.input) :
    x.isInput = true := by
  obtain ⟨line?, -, rfl⟩ := List.mem_map.1 h
  rfl

/-- A pause takes lines up to and including the first one with a command that ends it, or all that
are left. -/
theorem Course.pauses (h : Course fuel lines asides s ds t)
    (hasides : ∀ line ∈ asides, ¬ EndsPause line) :
    ∀ asides last?, Draw.pause asides last? ∈ ds →
      (∀ line ∈ asides, ¬ EndsPause line) ∧ ∀ line ∈ last?, EndsPause line := by
  induction h with
  | settled _ _ => simp
  | aside _ _ _ haside _ ih =>
      refine ih fun line hline => ?_
      rcases List.mem_append.1 hline with hline | hline
      · exact hasides line hline
      · exact List.mem_singleton.1 hline ▸ haside
  | turn _ _ _ _ _ reply _ _ ih =>
      intro asides' last? hmem
      rcases List.mem_append.1 hmem with hmem | hmem
      · obtain ⟨rfl, rfl⟩ := eq_of_mem_answer hmem
        exact ⟨hasides, reply.ends⟩
      · exact ih (by simp) _ _ hmem

/-- After a pause that ends with a command to go on without single-stepping there is no other. -/
theorem Course.pairwise (h : Course fuel lines asides s ds t) :
    ds.Pairwise fun x y => x.Continues → y.isInput = true := by
  induction h with
  | settled _ _ => exact .nil
  | aside _ _ _ _ _ ih => exact ih
  | @turn lines asides s t console es k ds paced waits _ _ _ reply _ rest ih =>
      refine List.pairwise_append.2
        ⟨List.pairwise_cons.2 ⟨fun y hy _ => isInput_of_mem hy, ?_⟩, ih, ?_⟩
      · exact List.pairwise_of_forall_mem_list fun _ _ y hy _ => isInput_of_mem hy
      · rintro x hx y hy ⟨asides', line, rfl, hline⟩
        have hes := reply.eq_goOn (eq_of_mem_answer hx).2.symm hline
        simp [(rest.last paced waits reply (by simp [hes])).1] at hy

/-- A pause that ends with a command to stop, or at the end of the lines, is the last. -/
theorem Course.quits (h : Course fuel lines asides s ds t) (hquits : ∃ x ∈ ds, x.Quits) :
    ∃ more, (t.advance more).outcome? = some .stopped := by
  induction h with
  | settled _ _ => simp at hquits
  | aside _ _ _ _ _ ih => exact ih hquits
  | @turn lines asides s t console es k ds paced waits _ _ _ reply _ rest ih =>
      obtain ⟨x, hx, asides', last?, rfl, hlast⟩ := hquits
      rcases List.mem_append.1 hx with hx | hx
      · have hes := reply.eq_stop ((eq_of_mem_answer hx).2 ▸ hlast)
        subst hes
        obtain ⟨-, rfl⟩ := rest.last paced waits reply (by simp [stopping])
        refine ⟨s.machine.pending.length + 3, ?_⟩
        rw [← advance_add, (paced.withConsole console).outcome?_of_stop waits]
        exact if_pos (by simp; omega)
      · exact ih ⟨_, hx, asides', last?, rfl, hlast⟩

lemma Course.fed (h : Course fuel lines asides s ds t) : s.console.Fed lines := by
  cases h with
  | settled fed _ => exact fed
  | aside _ fed _ _ _ => exact fed
  | turn _ _ fed _ _ _ _ _ => exact fed

lemma mem_asked {line : Line} (h : line ∈ toProgram ds) :
    some line ∈ (ds.flatMap Draw.asked).map (·.2) := by
  obtain ⟨x, hx, hline⟩ := List.mem_filterMap.1 h
  cases x with
  | pause _ _ => cases hline
  | input line? =>
      refine List.mem_map.2 ⟨(.program, line?), List.mem_flatMap.2 ⟨_, hx, ?_⟩, hline⟩
      simp [Draw.asked]

/-- When no lines are left, the program gets none. -/
lemma Course.toProgram_eq_nil (h : Course fuel lines [] s ds t) (hs : s.console.Fed []) :
    toProgram ds = [] := by
  have hlines : lines = [] := by
    have htyped : typed lines = typed [] := h.fed.input.symm.trans hs.input
    have hlength := length_le_typed lines
    rw [htyped] at hlength
    simpa using hlength
  subst hlines
  obtain ⟨n, htaken, -⟩ := h.taken
  refine List.eq_nil_iff_forall_not_mem.2 fun line hline => ?_
  have hmem := mem_asked hline
  rw [← htaken] at hmem
  simp [inTurn] at hmem

/-! ### A run from its start to its end -/

/-- The debugger when the run has advanced for the first time and the commands have been shown. -/
def opened (fuel : Nat) (d : Debugger) : Debugger :=
  { d with session := d.session.advance fuel }.announce helpText

/-- What takes lines when the run has advanced for the first time. -/
def afterwards (fuel : Nat) (d : Debugger) : List Draw :=
  (d.opened fuel).draws fuel ((d.opened fuel).session.console.input.length + 1) []

lemma record_eq (fuel : Nat) (d : Debugger) :
    d.record fuel = d.session.draws fuel ++ d.afterwards fuel := rfl

/-- The run is such a course after its first advance. -/
theorem exists_course (hp : Paced d.session) (hfed : d.session.console.Fed lines) (fuel : Nat) :
    ∃ n, d.session.draws fuel = (inTurn lines n).map .input ∧
      Course fuel (lines.drop n) [] (d.opened fuel).session (d.afterwards fuel)
        (d.run fuel).session := by
  obtain ⟨n, hdraws, hfed'⟩ := draws_advance hfed fuel
  have hopened := fed_announce hfed' (.ofString helpText)
  refine ⟨n, hdraws, course_rounds ((hp.advance fuel).withConsole _) hopened (.inl rfl) ?_⟩
  have hinput : (d.opened fuel).session.console.input = typed (lines.drop n) := hfed'.input
  rw [hinput]
  exact Nat.lt_succ_of_le (length_le_typed _)

/-- Each who asks takes the next line, from the first line on. -/
theorem asked_record (hp : Paced d.session) (hfed : d.session.console.Fed lines) (fuel : Nat) :
    ((d.record fuel).flatMap Draw.asked).map (·.2) =
        inTurn lines ((d.record fuel).flatMap Draw.asked).length ∧
      (d.run fuel).session.console.Fed
        (lines.drop ((d.record fuel).flatMap Draw.asked).length) := by
  obtain ⟨n, hdraws, hcourse⟩ := exists_course hp hfed fuel
  obtain ⟨m, htaken, hfed'⟩ := hcourse.taken
  have hasked : ((d.record fuel).flatMap Draw.asked).map (·.2) = inTurn lines (n + m) := by
    rw [record_eq, hdraws, List.flatMap_append, List.map_append, ← htaken, asked_input, inTurn_add]
    simp [Function.comp_def]
  have hlength : ((d.record fuel).flatMap Draw.asked).length = n + m := by
    have := congrArg List.length hasked
    simpa [inTurn] using this
  rw [hlength, hasked]
  rw [List.drop_drop] at hfed'
  exact ⟨rfl, hfed'⟩

end Debugger

end Pseudocode
