/-
# What one step of a run can do

A step takes a task from the pending ones, or puts one there, or both.  This file lists the ways
in which it can do so, each with what happens to the frames, to the current statement and to the
count of statements.  Everything that is proved about every step is proved from this list.  A step
that reports a change of phase leaves the machine as it is, unless the observer breaks down.

The main results are

* `Session.arrival`: what becomes of a statement that reaches its boundary, and when;
* `Session.heeding`: what becomes of it when it heeds the controls;
* `Session.proceed_move`: a sound machine goes on by one of the moves;
* `Machine.Move.sound`: a move keeps a machine sound;
* `Session.Reachable.sound`: the machine of a run is sound at every moment.
-/
import Pseudocode.Proofs.Schedule
import Pseudocode.Proofs.Tasks

namespace Pseudocode

/-- Whether a control hands something to the task on top. -/
def Control.isResult : Control → Bool
  | .value _ | .complete _ | .fail _ | .crash _ => true
  | _ => false

/-- Whether a control waits for something from outside, or is over. -/
def Control.rests : Control → Bool
  | .idle | .boundary .paused _ | .held _ _ | .ended _ => true
  | _ => false

/-- The outcome of the run, if it is settled. -/
def Control.settled? : Control → Option Outcome
  | .ending o | .ended o => some o
  | _ => none

lemma Control.settled?_eq_some {c : Control} {o : Outcome} :
    c.settled? = some o ↔ c = .ending o ∨ c = .ended o := by
  cases c <;> simp [settled?]

lemma Control.settled?_of_due {c : Control} {d : Due} (h : c.due? = some d) :
    c.settled? = none := by
  cases c <;> simp_all [due?, settled?]

namespace Machine

/-- Whether a control is what can become of a statement that has reached its boundary: it is
executed, it is still there, or it cannot be executed. -/
def passes (n : Node) : Control → Prop
  | .exec n' | .boundary _ n' => n' = n
  | .fail e => e.isOwn = true
  | _ => False

/-- Nothing changes that belongs to the program: the frames, the tasks, the current statement, the
count of statements and the functions stay. -/
structure Keeps (m m' : Machine) : Prop where
  store : m'.store = m.store
  pending : m'.pending = m.pending
  current : m'.current = m.current
  steps : m'.steps = m.steps
  functions : m'.functions = m.functions

/-- The moves of a machine; `fragile` tells whether the observer breaks down at a pause. -/
inductive Move (fragile : Bool) (m : Machine) : Machine → Prop where
  /-- Nothing goes on. -/
  | stay (control : m.control.rests = true) : Move fragile m m
  /-- Something goes on that is not a call. -/
  | plain {d : Due} {m' : Machine} (control : m.control.work? = some d) (h : Plain d m m') :
      Move fragile m m'
  /-- A task goes on with the result it has waited for. -/
  | task {p : Pending} {rest : List Pending} {m' : Machine} (pending : m.pending = p :: rest)
      (hp : p.isPlain = true) (control : m.control.due? = some p.takes)
      (result : m.control.isResult = true) (h : Plain p.yields { m with pending := rest } m') :
      Move fragile m m'
  /-- A statement reaches its boundary. -/
  | reach {n : Node} {c : Control} {steps : Nat} (control : m.control = .reach n)
      (hc : passes n c) : Move fragile m
        { m with
          control := c, pending := .leave m.current :: m.pending, current := n.span, steps }
  /-- The observer breaks down at a pause. -/
  | breakdown {n : Node} {text : String} (control : m.control = .boundary .paused n)
      (hfragile : fragile = true) : Move fragile m (m.goto (.crash text))
  /-- A statement goes on at its boundary. -/
  | pass {n : Node} {p : Standing} {c : Control} (control : m.control = .boundary p n)
      (hc : passes n c) : Move fragile m (m.goto c)
  /-- A statement has been executed. -/
  | leave {c : Completion} {outer : Span} {rest : List Pending} (control : m.control = .complete c)
      (pending : m.pending = .leave outer :: rest) : Move fragile m
        { m with pending := rest, current := outer, control := .complete c }
  /-- A procedure is entered. -/
  | enter {name : String} {args : List Value} {site : Span} {vars : Bindings Value} {body : Block}
      (control : m.control = .call name args site) : Move fragile m
        { m with
          store := m.store.push name vars, pending := .invocation :: m.pending
          control := .block body }
  /-- A procedure is left. -/
  | exit {c : Completion} {rest : List Pending} {v : Value} (control : m.control = .complete c)
      (pending : m.pending = .invocation :: rest) : Move fragile m
        { m with pending := rest, store := m.store.pop, control := .value v }
  /-- A host function is entered. -/
  | enterHost {name : String} {args : List Value} {site : Span} {a : Action Value}
      (control : m.control = .call name args site)
      (body : ∃ arity f, Bindings.get? m.functions name = some (.host arity f) ∧ a = f args) :
      Move fragile m (m.await (.hostCall name site m.store.depth) (.host site a))
  /-- A host function has an outcome. -/
  | outcome {site : Span} {a : Action Value} {c : Control} (control : m.control = .host site a)
      (hc : (∃ v, c = .value v) ∨ (∃ e, c = .fail e) ∨ ∃ text, c = .crash text) :
      Move fragile m (m.goto c)
  /-- A host function goes on, after a request or after a wait, or begins to wait. -/
  | request {m' : Machine} (control : m.control.due? = some .action)
      (control' : m'.control.due? = some .action) (keeps : Keeps m m') : Move fragile m m'
  /-- A host function calls a function. -/
  | reenter {site : Span} {name : String} {args : List Value}
      {next : Except Failure Value → Action Value}
      (control : m.control = .host site (.ask (.call name args) next)) :
      Move fragile m (m.await (.reenter site m.store.depth next) (.call name args site))
  /-- The call that a host function made has a result. -/
  | answer {v : Value} {site : Span} {depth : Nat} {next : Except Failure Value → Action Value}
      {rest : List Pending} (control : m.control = .value v)
      (pending : m.pending = .reenter site depth next :: rest) : Move fragile m
        { m with pending := rest, control := .host site (next (.ok v)) }
  /-- A host function has handed on its result. -/
  | exitHost {v : Value} {name : String} {site : Span} {depth : Nat} {rest : List Pending}
      (control : m.control = .value v) (pending : m.pending = .hostCall name site depth :: rest) :
      Move fragile m { m with pending := rest, control := .value v }
  /-- A failure passes a task. -/
  | unwind {e : Failure} {p : Pending} {rest : List Pending} (control : m.control = .fail e)
      (pending : m.pending = p :: rest) (ht : p.takes ≠ .action) (hy : p.yields ≠ .action) :
      Move fragile m { m with pending := rest, control := .fail e }
  /-- A failure leaves a host function. -/
  | unwindHost {e : Failure} {name : String} {site : Span} {depth : Nat} {rest : List Pending}
      (control : m.control = .fail e) (pending : m.pending = .hostCall name site depth :: rest) :
      Move fragile m { m with pending := rest, control := .fail (hostFailure name site e) }
  /-- A failure is handed to the host function whose call failed. -/
  | hand {e e' : Failure} {site : Span} {depth : Nat}
      {next : Except Failure Value → Action Value} {rest : List Pending}
      (control : m.control = .fail e) (pending : m.pending = .reenter site depth next :: rest) :
      Move fragile m
        { m with
          pending := rest
          store := if depth < m.store.depth then m.store.truncate depth else m.store
          control := .host site (next (.error e')) }
  /-- A breakdown passes a task. -/
  | collapse {text : String} {p : Pending} {rest : List Pending} (control : m.control = .crash text)
      (pending : m.pending = p :: rest) (ht : p.takes ≠ .action) :
      Move fragile m { m with pending := rest, control := .crash text }
  /-- A breakdown leaves the innermost host function as a failure. -/
  | collapseHost {text : String} {name : String} {site : Span} {depth : Nat}
      {rest : List Pending} (control : m.control = .crash text)
      (pending : m.pending = .hostCall name site depth :: rest) : Move fragile m
        { m with
          pending := rest
          store := m.store.truncate depth
          control := .fail (.fault
            { kind := .hostFunction, detail := name ++ ": " ++ text, span := site }) }
  /-- The run ends. -/
  | finish {o : Outcome} {m' : Machine} (control : m.control.isResult = true)
      (pending : m.pending = []) (control' : m'.control = .ending o) (keeps : Keeps m m') :
      Move fragile m m'
  /-- It is shown how the run has ended. -/
  | close {o : Outcome} (control : m.control = .ending o) : Move fragile m (m.goto (.ended o))

/-! ### Moves keep machines sound -/

variable {fragile : Bool} {m m' : Machine}

/-- What is known of a sound machine that is about to have a result. -/
lemma Sound.of_due {d : Due} (h : Sound m) (hc : m.control.due? = some d)
    (hv : ∀ v, m.control ≠ .value v) :
    Fits d m.pending ∧ m.store.depth = height m.pending := by
  cases h with
  | active control fits depth =>
      rw [hc, Option.some.injEq] at control
      exact ⟨control ▸ fits, depth⟩
  | handing control _ _ => exact absurd control (hv _)
  | failing control _ _ _ => simp [control, Control.due?] at hc
  | broken control _ _ => simp [control, Control.due?] at hc
  | ended control => rcases control with control | control <;> simp [control, Control.due?] at hc

/-- What is known of a sound machine that is neither failing nor over: the number of frames is
the one that belongs to its tasks. -/
lemma Sound.balanced {d : Due} (h : Sound m) (hc : m.control.due? = some d) :
    (∃ d', Fits d' m.pending) ∧ m.store.depth = height m.pending := by
  cases h with
  | active _ fits depth => exact ⟨⟨_, fits⟩, depth⟩
  | handing _ fits depth => exact ⟨⟨_, fits⟩, depth⟩
  | failing control _ _ _ => simp [control, Control.due?] at hc
  | broken control _ _ => simp [control, Control.due?] at hc
  | ended control => rcases control with control | control <;> simp [control, Control.due?] at hc

/-- What is known below the task on top of a sound machine that is neither failing nor over. -/
lemma Sound.below {d : Due} {p : Pending} {rest : List Pending} (h : Sound m)
    (hc : m.control.due? = some d) (hp : m.pending = p :: rest) :
    Fits p.yields rest ∧ m.store.depth = height (p :: rest) := by
  obtain ⟨⟨d', fits⟩, depth⟩ := h.balanced hc
  rw [hp] at fits depth
  exact ⟨fits.tail.2, depth⟩

/-- A sound machine that hands on a value hands it to a task that waits for one, or to the call
of a host function. -/
lemma Sound.of_value {v : Value} (h : Sound m) (hc : m.control = .value v) :
    Fits .value m.pending ∨ Fits .action m.pending := by
  cases h with
  | active control fits _ =>
      rw [hc, Control.due?, Option.some.injEq] at control
      exact .inl (control ▸ fits)
  | handing _ fits _ => exact .inr fits
  | failing control _ _ _ => simp [control] at hc
  | broken control _ _ => simp [control] at hc
  | ended control => rcases control with control | control <;> simp [control] at hc

lemma Sound.of_fail {e : Failure} (h : Sound m) (hc : m.control = .fail e) :
    ∃ d, Fits d m.pending ∧ height m.pending ≤ m.store.depth ∧
      (d = .action → m.store.depth = height m.pending) := by
  cases h with
  | active control _ _ => simp [hc, Control.due?] at control
  | handing control _ _ => simp [control] at hc
  | failing _ fits depth host => exact ⟨_, fits, depth, host⟩
  | broken control _ _ => simp [control] at hc
  | ended control => rcases control with control | control <;> simp [control] at hc

lemma Sound.of_crash {text : String} (h : Sound m) (hc : m.control = .crash text) :
    ∃ d, Fits d m.pending ∧ height m.pending ≤ m.store.depth := by
  cases h with
  | active control _ _ => simp [hc, Control.due?] at control
  | handing control _ _ => simp [control] at hc
  | failing control _ _ _ => simp [control] at hc
  | broken _ fits depth => exact ⟨_, fits, depth⟩
  | ended control => rcases control with control | control <;> simp [control] at hc

/-- A statement that has reached its boundary leaves a machine sound, whatever comes of it. -/
lemma sound_of_passes {n : Node} (hc : passes n m.control) (fits : Fits .completion m.pending)
    (depth : m.store.depth = height m.pending) : Sound m := by
  cases hcontrol : m.control with
  | exec _ => exact .active (d := .completion) (by rw [hcontrol]; rfl) fits depth
  | boundary _ _ => exact .active (d := .completion) (by rw [hcontrol]; rfl) fits depth
  | fail _ => exact .failing hcontrol fits (Nat.le_of_eq depth.symm) (fun _ => depth)
  | _ => simp [hcontrol, passes] at hc

/-- A move keeps a machine sound. -/
theorem Move.sound (h : Move fragile m m') (hm : Sound m) : Sound m' := by
  cases h with
  | stay _ => exact hm
  | plain control h =>
      obtain ⟨hdue, hd, hv⟩ := Control.due?_of_work? control
      obtain ⟨fits, depth⟩ := hm.of_due hdue hv
      exact h.sound fits depth hd
  | @task p rest m' pending hp control _ h =>
      obtain ⟨fits, depth⟩ := hm.below control pending
      rw [height_cons_of_isPlain hp] at depth
      exact h.sound fits depth (Pending.yields_ne_action hp)
  | reach control hc =>
      obtain ⟨fits, depth⟩ := hm.of_due (d := .completion) (by rw [control]; rfl) (by simp [control])
      exact sound_of_passes hc (.leave fits) depth
  | breakdown control _ =>
      obtain ⟨fits, depth⟩ := hm.of_due (d := .completion) (by rw [control]; rfl) (by simp [control])
      exact .broken rfl fits (Nat.le_of_eq depth.symm)
  | pass control hc =>
      obtain ⟨fits, depth⟩ := hm.of_due (d := .completion) (by rw [control]; rfl) (by simp [control])
      exact sound_of_passes hc fits depth
  | leave control pending =>
      obtain ⟨fits, depth⟩ := hm.below (d := .completion) (by rw [control]; rfl) pending
      exact .active (d := .completion) rfl fits depth
  | enter control =>
      obtain ⟨fits, depth⟩ := hm.of_due (d := .value) (by rw [control]; rfl) (by simp [control])
      refine .active (d := .completion) rfl (.invocation fits) ?_
      simp [height, depth]
  | @exit c rest v control pending =>
      obtain ⟨fits, depth⟩ := hm.below (d := .completion) (by rw [control]; rfl) pending
      refine .active (d := .value) rfl fits ?_
      have hpos := one_le_height rest
      have hpop := congrArg List.length m.store.frameIds_pop
      simp only [height] at depth
      simp only [List.length_take, Store.length_frameIds] at hpop
      show m.store.pop.depth = height rest
      omega
  | enterHost control _ =>
      obtain ⟨fits, depth⟩ := hm.of_due (d := .value) (by rw [control]; rfl) (by simp [control])
      refine .active (d := .action) rfl ?_ depth
      simp only [await, depth]
      exact .hostCall fits
  | outcome control hc =>
      obtain ⟨fits, depth⟩ := hm.of_due (d := .action) (by rw [control]; rfl) (by simp [control])
      rcases hc with ⟨v, rfl⟩ | ⟨e, rfl⟩ | ⟨text, rfl⟩
      · exact .handing rfl fits depth
      · exact .failing rfl fits (Nat.le_of_eq depth.symm) (fun _ => depth)
      · exact .broken rfl fits (Nat.le_of_eq depth.symm)
  | request control control' keeps =>
      obtain ⟨fits, depth⟩ := hm.of_due control (by rintro v hv; simp [hv, Control.due?] at control)
      exact .active control' (keeps.pending ▸ fits) (by rw [keeps.store, keeps.pending, depth])
  | reenter control =>
      obtain ⟨fits, depth⟩ := hm.of_due (d := .action) (by rw [control]; rfl) (by simp [control])
      refine .active (d := .value) rfl ?_ depth
      simp only [await, depth]
      exact .reenter fits
  | answer control pending =>
      obtain ⟨fits, depth⟩ := hm.below (d := .value) (by rw [control]; rfl) pending
      exact .active (d := .action) rfl fits depth
  | exitHost control pending =>
      obtain ⟨fits, depth⟩ := hm.below (d := .value) (by rw [control]; rfl) pending
      exact .active (d := .value) rfl fits depth
  | @unwind e p rest control pending ht hy =>
      obtain ⟨d, fits, depth, -⟩ := hm.of_fail control
      rw [pending] at fits depth
      -- a procedure that fails leaves its frame behind, so that there may be too many
      exact .failing rfl fits.tail.2 (Nat.le_trans (height_le_cons p rest) depth)
        (fun ha => absurd ha hy)
  | unwindHost control pending =>
      obtain ⟨d, fits, depth, -⟩ := hm.of_fail control
      rw [pending] at fits depth
      exact .failing (d := .value) rfl fits.tail.2 depth (fun ha => absurd ha (by simp))
  | @hand e e' site depth next rest control pending =>
      obtain ⟨d, fits, hle, -⟩ := hm.of_fail control
      rw [pending] at fits hle
      refine .active (d := .action) rfl fits.tail.2 ?_
      -- the frames above the call are cut off, and there are at least those of the call
      have hdepth := fits.reenter_depth
      have hpos := one_le_height rest
      simp only [height] at hle
      show (if depth < m.store.depth then m.store.truncate depth else m.store).depth = height rest
      split
      · rw [Store.depth_truncate]
        omega
      · omega
  | @collapse text p rest control pending _ =>
      obtain ⟨d, fits, depth⟩ := hm.of_crash control
      rw [pending] at fits depth
      exact .broken rfl fits.tail.2 (Nat.le_trans (height_le_cons p rest) depth)
  | @collapseHost text name site depth rest control pending =>
      obtain ⟨d, fits, hle⟩ := hm.of_crash control
      rw [pending] at fits hle
      refine .failing (d := .value) rfl fits.tail.2 ?_ (fun ha => absurd ha (by simp))
      have hdepth := fits.hostCall_depth
      have hpos := one_le_height rest
      simp only [height] at hle
      show height rest ≤ (m.store.truncate depth).depth
      rw [Store.depth_truncate]
      omega
  | finish _ _ control' _ => exact .ended (.inl control')
  | close _ => exact .ended (.inr rfl)

end Machine

namespace Session

open Machine

variable {s : Session}

/-! ### Steps are moves -/

lemma withTask_nil {next : Machine → Pending → Machine} {last : Session → Session}
    (h : s.machine.pending = []) : s.withTask next last = last s := by
  simp [withTask, h]

lemma withTask_cons {next : Machine → Pending → Machine} {last : Session → Session}
    {p : Pending} {rest : List Pending} (h : s.machine.pending = p :: rest) :
    s.withTask next last = { s with machine := next { s.machine with pending := rest } p } := by
  simp [withTask, h]

lemma proceed_value {v : Value} (h : s.machine.control = .value v) :
    s.proceed = s.withTask (fun m p => m.resume v p) (·.finishCompleted .next) := by
  simp only [proceed, h]

lemma proceed_complete {c : Completion} (h : s.machine.control = .complete c) :
    s.proceed = s.withTask (fun m p => m.proceed s.controller.cancelled c p)
      (·.finishCompleted c) := by
  simp only [proceed, h]

lemma proceed_fail {e : Failure} (h : s.machine.control = .fail e) :
    s.proceed = s.withTask (fun m p => m.unwind e p) (·.finishFailed e) := by
  simp only [proceed, h]

lemma proceed_crash {text : String} (h : s.machine.control = .crash text) :
    s.proceed = s.withTask (fun m p => m.collapse text p) (·.finishCrashed text) := by
  simp only [proceed, h]

/-- The end of a run is a move. -/
lemma move_finish {fragile : Bool} {o : Outcome} (hc : s.machine.control.isResult = true)
    (hp : s.machine.pending = []) : Move fragile s.machine (s.goto (.ending o)).machine :=
  .finish hc hp rfl ⟨rfl, rfl, rfl, rfl, rfl⟩

lemma move_finishCompleted {fragile : Bool} (c : Completion)
    (hc : s.machine.control.isResult = true) (hp : s.machine.pending = []) :
    Move fragile s.machine (s.finishCompleted c).machine := by
  cases c with
  | returned v => exact move_finish hc hp
  | next => exact move_finish hc hp

/-- Handing on a value is a move. -/
lemma move_value {fragile : Bool} {v : Value} (hs : Sound s.machine)
    (hc : s.machine.control = .value v) : Move fragile s.machine s.proceed.machine := by
  simp only [Session.proceed, hc]
  cases hp : s.machine.pending with
  | nil =>
      rw [withTask_nil hp]
      exact move_finishCompleted _ (by rw [hc]; rfl) hp
  | cons p rest =>
      rw [withTask_cons hp]
      -- the task on top waits for a value, or it is the call of the host function that has it
      have htakes : p.takes = .value ∨ p.takes = .action := by
        have hfits := hs.of_value hc
        rw [hp] at hfits
        exact hfits.imp (·.tail.1) (·.tail.1)
      by_cases hplain : p.isPlain = true
      · have hvalue := htakes.resolve_right (Pending.takes_ne_action hplain)
        exact .task hp hplain (by rw [hc, hvalue]; rfl) (by rw [hc]; rfl)
          (plain_resume _ v hplain hvalue)
      · cases p with
        | hostCall name site depth => exact .exitHost hc hp
        | reenter site depth next => exact .answer hc hp
        | leave _ | invocation => simp [Pending.takes] at htakes
        | _ => simp [Pending.isPlain] at hplain

/-- Handing on the completion of a statement is a move. -/
lemma move_complete {fragile : Bool} {c : Completion} (hs : Sound s.machine)
    (hc : s.machine.control = .complete c) : Move fragile s.machine s.proceed.machine := by
  simp only [Session.proceed, hc]
  cases hp : s.machine.pending with
  | nil =>
      rw [withTask_nil hp]
      exact move_finishCompleted c (by rw [hc]; rfl) hp
  | cons p rest =>
      rw [withTask_cons hp]
      have htakes : p.takes = .completion := by
        have hfits := (hs.of_due (d := .completion) (by rw [hc]; rfl) (by simp [hc])).1
        rw [hp] at hfits
        exact hfits.tail.1
      by_cases hplain : p.isPlain = true
      · exact .task hp hplain (by rw [hc, htakes]; rfl) (by rw [hc]; rfl)
          (plain_proceed _ _ c hplain htakes)
      · cases p with
        | leave outer => exact .leave hc hp
        | invocation => exact .exit hc hp
        | hostCall _ _ _ | reenter _ _ _ => simp [Pending.takes] at htakes
        | _ => simp [Pending.isPlain] at hplain

/-- A failure on its way up makes a move. -/
lemma move_fail {fragile : Bool} {e : Failure} (hc : s.machine.control = .fail e) :
    Move fragile s.machine s.proceed.machine := by
  simp only [Session.proceed, hc]
  cases hp : s.machine.pending with
  | nil =>
      rw [withTask_nil hp]
      unfold finishFailed
      split
      · exact move_finish (by rw [hc]; rfl) hp
      · exact .finish (by rw [hc]; rfl) hp rfl ⟨rfl, rfl, rfl, rfl, rfl⟩
  | cons p rest =>
      rw [withTask_cons hp]
      cases p with
      | hostCall name site depth => exact .unwindHost hc hp
      | reenter site depth next =>
          have h : ∀ e', Move fragile s.machine { s.machine with
              pending := rest
              store := if depth < s.machine.store.depth then s.machine.store.truncate depth
                else s.machine.store
              control := .host site (next (.error e')) } := fun _ => .hand hc hp
          by_cases hdepth : depth < s.machine.store.depth
          · simpa [unwind, hdepth, snapshot] using h (e.withStack s.machine.snapshot)
          · simpa [unwind, hdepth, Machine.goto] using h e
      | _ =>
          have h : Move fragile s.machine { s.machine with pending := rest, control := .fail e } :=
            .unwind hc hp (by simp [Pending.takes]) (by simp [Pending.yields])
          simpa [unwind, hc] using h

/-- A breakdown on its way up makes a move. -/
lemma move_crash {fragile : Bool} {text : String} (hc : s.machine.control = .crash text) :
    Move fragile s.machine s.proceed.machine := by
  simp only [Session.proceed, hc]
  cases hp : s.machine.pending with
  | nil =>
      rw [withTask_nil hp]
      exact move_finish (by rw [hc]; rfl) hp
  | cons p rest =>
      rw [withTask_cons hp]
      cases p with
      | hostCall name site depth => exact .collapseHost hc hp
      | _ =>
          have h : Move fragile s.machine
              { s.machine with pending := rest, control := .crash text } :=
            .collapse hc hp (by simp [Pending.takes])
          simpa [collapse, hc] using h

/-- A call makes a move. -/
lemma move_call {fragile : Bool} {name : String} {args : List Value} {site : Span}
    (hc : s.machine.control = .call name args site) :
    Move fragile s.machine s.proceed.machine := by
  have hplain : ∀ {m' : Machine}, Plain .value s.machine m' → Move fragile s.machine m' :=
    fun h => .plain (by rw [hc]; rfl) h
  simp only [Session.proceed, hc]
  unfold call
  split
  · exact hplain (plain_fail _ rfl)
  · rename_i f hf
    split
    · exact hplain (plain_raise _ _ _ _)
    · split
      · unfold invoke
        split
        · exact hplain (plain_raise _ _ _ _)
        · exact .enter hc
      · exact .enterHost hc ⟨_, _, hf, rfl⟩

/-- A request of a host function makes a move. -/
lemma move_perform {fragile : Bool} {site : Span} {q : Request} {next : q.Answer → Action Value}
    (hc : s.machine.control = .host site (.ask q next)) :
    Move fragile s.machine (s.perform site q next).machine := by
  have hdue : s.machine.control.due? = some .action := by rw [hc]; rfl
  cases q with
  | call name args => exact .reenter hc
  | resume stepping =>
      simp only [perform]
      split
      · exact .request hdue rfl ⟨rfl, rfl, rfl, rfl, rfl⟩
      · exact .request hdue rfl ⟨rfl, rfl, rfl, rfl, rfl⟩
  | _ => exact .request hdue rfl ⟨rfl, rfl, rfl, rfl, rfl⟩

lemma move_act {fragile : Bool} {site : Span} {a : Action Value}
    (hc : s.machine.control = .host site a) : Move fragile s.machine s.proceed.machine := by
  simp only [Session.proceed, hc]
  cases a with
  | pure v => exact .outcome hc (.inl ⟨v, rfl⟩)
  | fail e => exact .outcome hc (.inr (.inl ⟨e, rfl⟩))
  | crash text => exact .outcome hc (.inr (.inr ⟨text, rfl⟩))
  | ask q next => exact move_perform hc

/-! ### Statement boundaries -/

variable {t : Session} {n : Node}

/-- The session with a statement at its boundary, when it is not settled yet whether the statement
is executed. -/
def arrived (s : Session) (n : Node) (steps : Nat) : Session :=
  { s with machine := { s.machine with
      pending := .leave s.machine.current :: s.machine.pending, current := n.span, steps } }

/-- The statement is there, and there have not been too many. -/
structure Counted (s : Session) (n : Node) : Prop where
  present : n.isMissing = false
  within : ¬(0 < s.machine.maxSteps ∧ s.machine.maxSteps < s.machine.steps + 1)

/-- What becomes of a statement that reaches its boundary. -/
inductive Arrival (s : Session) (n : Node) : Session → Prop where
  /-- There is no statement. -/
  | missing (absent : n.isMissing = true) :
      Arrival s n ((s.arrived n s.machine.steps).goto (.fail (.fault
        { kind := .invalidOperation, detail := "missing statement", span := .none })))
  /-- There have been too many. -/
  | excess (present : n.isMissing = false)
      (exceeded : 0 < s.machine.maxSteps ∧ s.machine.maxSteps < s.machine.steps + 1) :
      Arrival s n ((s.arrived n (s.machine.steps + 1)).goto (.fail (.fault
        { kind := .maxStepsExceeded, detail := "(" ++ toString s.machine.maxSteps ++ ")"
          span := n.span })))
  /-- The run has been told to end. -/
  | told (counted : Counted s n) (cancelled : s.controller.cancelled = true) :
      Arrival s n ((s.arrived n (s.machine.steps + 1)).goto (.fail .stopped))
  /-- It stands at its boundary. -/
  | admitted (counted : Counted s n) (cancelled : s.controller.cancelled = false) :
      Arrival s n ((s.arrived n (s.machine.steps + 1)).goto (.boundary .admitted n))

/-- A statement that reaches its boundary fails or stays there, and the guards settle which. -/
theorem arrival (s : Session) (n : Node) : Arrival s n (s.reach n) := by
  unfold reach
  dsimp only
  split
  · rename_i habsent
    exact .missing habsent
  · rename_i hpresent
    split
    · rename_i hover
      exact .excess (by simpa using hpresent) hover
    · rename_i hwithin
      have hcounted : Counted s n := ⟨by simpa using hpresent, hwithin⟩
      unfold checkpoint
      split
      · rename_i hcancelled
        exact .told hcounted hcancelled
      · rename_i hcancelled
        exact .admitted hcounted (by simpa using hcancelled)

lemma reach_of_counted (h : Counted s n) :
    s.reach n = (s.arrived n (s.machine.steps + 1)).checkpoint n :=
  (if_neg (by simp [h.present])).trans (if_neg h.within)

/-- The guards settle what becomes of the statement. -/
theorem Arrival.reach_eq (h : Arrival s n t) : s.reach n = t := by
  cases h with
  | missing absent => exact if_pos absent
  | excess present exceeded => exact (if_neg (by simp [present])).trans (if_pos exceeded)
  | told counted cancelled =>
      rw [reach_of_counted counted, checkpoint, if_pos (by exact cancelled)]
  | admitted counted cancelled =>
      rw [reach_of_counted counted, checkpoint, if_neg (by simp [arrived, cancelled])]

lemma proceed_reach (hc : s.machine.control = .reach n) : s.proceed = s.reach n := by
  simp only [Session.proceed, hc]

lemma proceed_boundary {p : Standing} (hc : s.machine.control = .boundary p n) :
    s.proceed = s.pass n p := by
  simp only [Session.proceed, hc]

lemma arrival_proceed (hc : s.machine.control = .reach n) : Arrival s n s.proceed :=
  proceed_reach hc ▸ s.arrival n

/-- What becomes of a statement that heeds the controls. -/
inductive Heeding (s : Session) (n : Node) : Session → Prop where
  /-- It is executed; if the run is single-stepping, a stored token is taken. -/
  | begun {k : Controller}
      (token : s.controller.stepping = true →
        s.controller.token = true ∨ s.controller.phase ≠ .running)
      (speed : s.controller.stepping = false → s.controller.speed = 0)
      (controller : k = { s.controller with
        span := n.span
        token := s.controller.token && !s.controller.stepping }) :
      Heeding s n (Session.goto { s with controller := k } (.exec n))
  /-- It is slowed down. -/
  | slowed {k : Controller} (stepping : s.controller.stepping = false)
      (speed : s.controller.speed ≠ 0) (controller : k = { s.controller with span := n.span }) :
      Heeding s n (Session.goto { s with controller := k } (.boundary .throttled n))
  /-- It is held up, which the run has to report. -/
  | pauses {k : Controller} (stepping : s.controller.stepping = true)
      (token : s.controller.token = false) (phase : s.controller.phase = .running)
      (controller : k =
        { s.controller with span := n.span, phase := .paused, reporting := true }) :
      Heeding s n (Session.goto { s with controller := k } (.boundary .paused n))

/-- A statement that heeds the controls is executed or held up, and they settle which. -/
theorem heeding (s : Session) (n : Node) : Heeding s n (s.heed n) := by
  unfold heed
  dsimp only
  split
  · rename_i hstepping
    split
    · rename_i htoken
      exact .begun (fun _ => .inl htoken) (by simp [hstepping]) (by simp [hstepping])
    · rename_i htoken
      have htoken : s.controller.token = false := by simpa using htoken
      split
      · rename_i hphase
        exact .pauses hstepping htoken hphase rfl
      · rename_i hphase
        exact .begun (fun _ => .inr hphase) (by simp [hstepping]) (by simp [htoken])
  · rename_i hstepping
    split
    · rename_i hspeed
      exact .begun (fun h => absurd h hstepping) (fun _ => hspeed) (by simp [hstepping])
    · rename_i hspeed
      exact .slowed (by simpa using hstepping) hspeed rfl

lemma heeding_proceed (hc : s.machine.control = .boundary .admitted n) : Heeding s n s.proceed :=
  proceed_boundary hc ▸ s.heeding n

lemma proceed_throttled (hc : s.machine.control = .boundary .throttled n) :
    s.proceed = s.goto
      (if s.controller.cancelled then .fail .stopped else .boundary .delayed n) :=
  proceed_boundary hc

lemma proceed_delayed (hc : s.machine.control = .boundary .delayed n) :
    s.proceed = s.goto
      (if s.controller.cancelled && !s.controller.eager then .fail .stopped else .exec n) :=
  proceed_boundary hc

/-- What becomes of a statement that is held up. -/
inductive Waking (s : Session) (n : Node) : Session → Prop where
  /-- It looks for a token and for word to end. -/
  | polls (wait : s.controller.wait = .polling) :
      Waking s n { s with controller := s.controller.poll }
  /-- It goes on waiting. -/
  | waits (wait : s.controller.wait = .parked) : Waking s n s
  /-- It is executed, as it has got a token. -/
  | begun (wait : s.controller.wait = .granted) :
      Waking s n (Session.goto { s with controller := s.controller.proceed } (.exec n))
  /-- It is not executed, as it has got word to end. -/
  | told (wait : s.controller.wait = .dismissed) :
      Waking s n
        (Session.goto { s with controller := { s.controller with wait := .polling } }
          (.fail .stopped))

/-- A statement that is held up goes on by what it has got. -/
theorem waking (s : Session) (n : Node) : Waking s n (s.wake n) := by
  unfold wake
  split
  · rename_i hwait
    exact .polls hwait
  · rename_i hwait
    exact .waits hwait
  · rename_i hwait
    exact .begun hwait
  · rename_i hwait
    exact .told hwait

lemma waking_proceed (hc : s.machine.control = .boundary .paused n) : Waking s n s.proceed :=
  proceed_boundary hc ▸ s.waking n

/-- A statement that reaches its boundary makes a move. -/
lemma move_reach {fragile : Bool} (hc : s.machine.control = .reach n) :
    Move fragile s.machine s.proceed.machine := by
  have h := arrival_proceed hc
  generalize s.proceed = t at h ⊢
  cases h with
  | _ => exact .reach hc rfl

/-- A statement at its boundary makes a move. -/
lemma move_boundary {fragile : Bool} {p : Standing} (hc : s.machine.control = .boundary p n) :
    Move fragile s.machine s.proceed.machine := by
  cases p with
  | admitted =>
      have h := heeding_proceed hc
      generalize s.proceed = t at h ⊢
      cases h with
      | _ => exact .pass hc rfl
  | throttled =>
      rw [proceed_throttled hc]
      split
      · exact .pass hc rfl
      · exact .pass hc rfl
  | delayed =>
      rw [proceed_delayed hc]
      split
      · exact .pass hc rfl
      · exact .pass hc rfl
  | paused =>
      have h := waking_proceed hc
      generalize s.proceed = t at h ⊢
      cases h with
      | polls _ | waits _ => exact .stay (by rw [hc]; rfl)
      | begun _ | told _ => exact .pass hc rfl

/-! ### Steps -/

/-- A sound machine goes on by a move. -/
theorem proceed_move (fragile : Bool) (hs : Sound s.machine) :
    Move fragile s.machine s.proceed.machine := by
  cases hc : s.machine.control with
  | idle | ended _ | held _ _ =>
      simp only [Session.proceed, hc]
      exact .stay (by rw [hc]; rfl)
  | eval n =>
      simp only [Session.proceed, hc]
      exact .plain (by rw [hc]; rfl) (plain_eval _ n)
  | exec n =>
      simp only [Session.proceed, hc]
      exact .plain (by rw [hc]; rfl) (plain_exec _ n)
  | block b =>
      simp only [Session.proceed, hc]
      exact .plain (by rw [hc]; rfl) (plain_block _ b)
  | choose branches =>
      simp only [Session.proceed, hc]
      exact .plain (by rw [hc]; rfl) (plain_choose _ branches)
  | value v => exact move_value hs hc
  | complete c => exact move_complete hs hc
  | reach n => exact move_reach hc
  | boundary p n => exact move_boundary hc
  | call name args site => exact move_call hc
  | host site a => exact move_act hc
  | fail e => exact move_fail hc
  | crash text => exact move_crash hc
  | ending o =>
      simp only [Session.proceed, hc]
      exact .close hc

/-- An observer that breaks down does so at a pause. -/
lemma move_falters (h : s.falters = true) :
    Move s.controller.fragile s.machine (s.reported.goto (.crash "hook failed")).machine := by
  obtain ⟨n, hc⟩ := exists_paused_of_falters h
  simp only [falters, Bool.and_eq_true] at h
  exact .breakdown hc h.1.2

/-- A step of a sound machine is a move, or it leaves the machine as it is. -/
theorem step_move (hs : Sound s.machine) :
    Move s.controller.fragile s.machine s.step.machine ∨ s.step.machine = s.machine :=
  step_cases (P := fun t => Move s.controller.fragile s.machine t.machine ∨ t.machine = s.machine)
    (fun _ _ => .inr rfl) (fun _ hfalters => .inl (move_falters hfalters))
    fun _ => .inl (proceed_move _ hs)

/-! ### The setting of a run -/

/-- The sessions have the same setting: they differ in the machine and the controls at most. -/
def SameSetting (s t : Session) : Prop := ∃ m k, t = { s with machine := m, controller := k }

lemma sameSetting_pass (n : Node) (p : Standing) : SameSetting s (s.pass n p) := by
  cases p with
  | admitted =>
      have h := s.heeding n
      show SameSetting s (s.heed n)
      generalize s.heed n = t at h ⊢
      cases h with
      | _ => exact ⟨_, _, rfl⟩
  | throttled | delayed => exact ⟨_, _, rfl⟩
  | paused =>
      have h := s.waking n
      show SameSetting s (s.wake n)
      generalize s.wake n = t at h ⊢
      cases h with
      | _ => exact ⟨_, _, rfl⟩

lemma sameSetting_reach (n : Node) : SameSetting s (s.reach n) := by
  have h := s.arrival n
  generalize s.reach n = t at h ⊢
  cases h with
  | _ => exact ⟨_, _, rfl⟩

lemma sameSetting_finishCompleted (c : Completion) : SameSetting s (s.finishCompleted c) := by
  cases c with
  | returned v => exact ⟨_, _, rfl⟩
  | next => exact ⟨_, _, rfl⟩

lemma sameSetting_finishFailed (e : Failure) : SameSetting s (s.finishFailed e) := by
  unfold finishFailed
  split
  · exact ⟨_, _, rfl⟩
  · exact ⟨_, _, rfl⟩

lemma sameSetting_withTask {next : Machine → Pending → Machine} {last : Session → Session}
    (hlast : SameSetting s (last s)) : SameSetting s (s.withTask next last) := by
  unfold withTask
  split
  · exact hlast
  · exact ⟨_, _, rfl⟩

/-- Apart from host functions, a run works on the machine and the controls only. -/
theorem sameSetting_proceed (h : ∀ site a, s.machine.control ≠ .host site a) :
    SameSetting s s.proceed := by
  cases hc : s.machine.control with
  | host site a => exact absurd hc (h site a)
  | boundary p n =>
      rw [proceed_boundary hc]
      exact sameSetting_pass n p
  | reach n =>
      rw [proceed_reach hc]
      exact sameSetting_reach n
  | value v =>
      rw [proceed_value hc]
      exact sameSetting_withTask (sameSetting_finishCompleted .next)
  | complete c =>
      rw [proceed_complete hc]
      exact sameSetting_withTask (sameSetting_finishCompleted c)
  | fail e =>
      rw [proceed_fail hc]
      exact sameSetting_withTask (sameSetting_finishFailed e)
  | crash text =>
      rw [proceed_crash hc]
      exact sameSetting_withTask ⟨_, _, rfl⟩
  | _ =>
      simp only [Session.proceed, hc]
      exact ⟨_, _, rfl⟩

theorem sameSetting_step (h : ∀ site a, s.machine.control ≠ .host site a) :
    SameSetting s s.step :=
  step_cases (fun _ _ => ⟨_, _, rfl⟩) (fun _ _ => ⟨_, _, rfl⟩) fun _ => sameSetting_proceed h

/-! ### Events -/

/-- Whatever happens to a session with a sound machine, the machine makes a move or stays as it
is. -/
theorem happen_move (hs : Sound s.machine) (e : Event) :
    Move s.controller.fragile s.machine (s.happen e).machine ∨
      (s.happen e).machine = s.machine := by
  by_cases he : e = .step
  · rw [he]
    exact step_move hs
  · rcases happen_command s he with h | ⟨site, next, hc, h⟩
    · exact .inr (by rw [h])
    · rw [h]
      exact .inl (.request (by rw [hc]; rfl) rfl ⟨rfl, rfl, rfl, rfl, rfl⟩)

lemma sound_happen (hs : Sound s.machine) (e : Event) : Sound (s.happen e).machine := by
  rcases happen_move hs e with h | h
  · exact h.sound hs
  · exact h ▸ hs

/-! ### Runs -/

/-- The machine of a run that has just begun is sound. -/
lemma sound_launch {s₀ : Session} {program : Program} {l : Launch}
    (h : s₀.launch program l = .ok s) : Sound s.machine := by
  obtain ⟨machine, hm, rfl⟩ := launch_eq_ok.mp h
  obtain ⟨functions, -, rfl⟩ := freshMachine_eq_ok hm
  refine .active (d := .completion) rfl (.plain (p := .sequence _) rfl .nil) ?_
  show (Plugin.addVars l.plugins (Store.empty, s₀.machine.heap)).1.depth = 1
  rw [← Store.length_frameIds, Plugin.frameIds_addVars]
  rfl

lemma sound_after (hs : Sound s.machine) (es : List Event) : Sound (s.after es).machine :=
  after_induction (P := fun s => Sound s.machine) (fun _ e hs => sound_happen hs e) hs es

/-- What every event keeps, if the machine is sound, holds after every schedule. -/
lemma sound_induction {P : Session → Prop}
    (hkeep : ∀ s e, Sound s.machine → P s → P (s.happen e)) (hs : Sound s.machine) (h : P s)
    (es : List Event) : P (s.after es) := by
  have hboth : Sound (s.after es).machine ∧ P (s.after es) :=
    after_induction (P := fun s => Sound s.machine ∧ P s)
      (fun t e ht => ⟨sound_happen ht.1 e, hkeep t e ht.1 ht.2⟩) ⟨hs, h⟩ es
  exact hboth.2

/-- The machine of a run is sound at every moment. -/
theorem Reachable.sound (h : Reachable s) : Sound s.machine := by
  obtain ⟨s₀, program, l, t, es, ht, rfl⟩ := h
  exact sound_after (sound_launch ht) es

end Session

end Pseudocode
