/-
# Where a run failed

A run that fails shows the statement that was the current one at the end, which is the first one
of its trail.  It is the innermost statement that was in execution when the reported failure arose
if no host function has dropped a failure in between.  If one has, it is a statement which the
dropped failure has ended.

The main results are

* `Session.failed_span`: what a run shows that has failed, and when it is the innermost statement
  that was in execution;
* `Session.failed_span_dropped`: a run that shows a statement which was over before.
-/
import Pseudocode.Proofs.Controls
import Pseudocode.Proofs.Trail

namespace Pseudocode

namespace Machine

variable {fragile : Bool} {m m' : Machine} {T : Trail}

/-! ### The outermost statement -/

/-- Nothing is to be done but the statements of the program that are to come. -/
def AtTop (K : List Pending) : Prop := K = [] ∨ ∃ statements, K = [.sequence statements]

/-- Whatever goes on goes on inside a statement of the program, save that one statement follows
another, or that a failure has ended one. -/
inductive Rooted (m : Machine) (T : Trail) : Prop where
  | inside {K : List Pending} {outer : Span} {statements : List Node}
      (pending : m.pending = K ++ [Pending.leave outer, .sequence statements])
  | between {c : Completion} (control : m.control = .complete c) (pending : AtTop m.pending)
  | before {n : Node} {statements : List Node} (control : m.control = .reach n)
      (pending : m.pending = [.sequence statements])
  | failing {e : Failure} (flight : m.inFlight? = some e) (pending : AtTop m.pending)
      (lost : ∃ x ∈ T, x.fate = .lost e.origin)

/-- Where the tasks end in two given ones, so they do without the one on top, unless that is one
of the two. -/
lemma pop_of_eq_append {p q r : Pending} {rest K : List Pending}
    (h : p :: rest = K ++ [q, r]) : (∃ K', rest = K' ++ [q, r]) ∨ p = q ∧ rest = [r] := by
  cases K with
  | nil =>
      simp only [List.nil_append, List.cons.injEq] at h
      exact .inr h
  | cons k K =>
      simp only [List.cons_append, List.cons.injEq] at h
      exact .inl ⟨K, h.2⟩

lemma Rooted.of_push {p : Pending} {K : List Pending} {outer : Span} {statements : List Node}
    (h : m.pending = K ++ [Pending.leave outer, .sequence statements])
    (h' : m'.pending = p :: m.pending) : Rooted m' T :=
  .inside (K := p :: K) (by rw [h', h]; rfl)

/-- What goes on inside a statement of the program stays inside it, or ends it. -/
lemma Move.rooted (h : Move fragile m m') (hl : Located m T) {K : List Pending} {outer : Span}
    {statements : List Node} (hK : m.pending = K ++ [Pending.leave outer, .sequence statements]) :
    Rooted m' (m.observe T) := by
  have hpop : ∀ {p : Pending} {rest : List Pending} {T' : Trail}, m.pending = p :: rest →
      p ≠ .leave outer → m'.pending = rest → Rooted m' T' := by
    intro p rest T' hp hne hrest
    rw [hp] at hK
    rcases pop_of_eq_append hK with ⟨K', hK'⟩ | ⟨heq, -⟩
    · exact .inside (hrest.trans hK')
    · exact absurd heq hne
  have hplain : ∀ {d : Due} {m₀ : Machine} {L : List Pending},
      m₀.pending = L ++ [Pending.leave outer, .sequence statements] → Plain d m₀ m' →
      Rooted m' (m.observe T) := by
    intro d m₀ L hL hp
    cases hp.shape with
    | fails _ _ pending => exact .inside (pending.trans hL)
    | goes _ pending => exact .inside (pending.trans hL)
    | awaits _ _ _ pending => exact .of_push hL pending
  cases h with
  | stay _ => exact .inside hK
  | plain _ h => exact hplain hK h
  | task pending hp _ _ h =>
      rw [pending] at hK
      rcases pop_of_eq_append hK with ⟨K', hK'⟩ | ⟨heq, -⟩
      · exact hplain hK' h
      · simp [heq, Pending.isPlain] at hp
  | reach _ _ => exact .of_push hK rfl
  | breakdown _ _ | pass _ _ => exact .inside hK
  | leave control pending =>
      rw [pending] at hK
      rcases pop_of_eq_append hK with ⟨K', hK'⟩ | ⟨-, hrest⟩
      · exact .inside hK'
      · exact .between rfl (.inr ⟨_, hrest⟩)
  | enter _ => exact .of_push hK rfl
  | exit _ pending => exact hpop pending (by simp) rfl
  | enterHost _ _ => exact .of_push hK rfl
  | outcome _ _ => exact .inside hK
  | request _ _ keeps => exact .inside (keeps.pending.trans hK)
  | reenter _ => exact .of_push hK rfl
  | answer _ pending => exact hpop pending (by simp) rfl
  | exitHost _ pending => exact hpop pending (by simp) rfl
  | @unwind e _ _ control pending _ _ =>
      have htracks := hl.tracks
      rw [pending] at hK htracks
      rcases pop_of_eq_append hK with ⟨K', hK'⟩ | ⟨rfl, hrest⟩
      · exact .inside hK'
      · -- the statement of the program itself is ended
        have hobserve : m.observe T = Trail.lose e.origin T := by
          simp only [observe, control, pending]
        rw [hobserve]
        exact .failing rfl (.inr ⟨_, hrest⟩) (htracks.lose _).2.2.1
  | unwindHost _ pending => exact hpop pending (by simp) rfl
  | hand _ pending => exact hpop pending (by simp) rfl
  | @collapse text _ _ control pending _ =>
      have htracks := hl.tracks
      rw [pending] at hK htracks
      rcases pop_of_eq_append hK with ⟨K', hK'⟩ | ⟨rfl, hrest⟩
      · exact .inside hK'
      · have hobserve : m.observe T = Trail.lose (m.breakdown text).origin T := by
          simp only [observe, control, pending]
        rw [hobserve]
        refine .failing (e := m.breakdown text) ?_ (.inr ⟨_, hrest⟩) (htracks.lose _).2.2.1
        simp only [inFlight?, Option.some.injEq]
        exact breakdown_pop pending rfl text
  | collapseHost _ pending => exact hpop pending (by simp) rfl
  | finish _ pending _ _ => simp [pending] at hK
  | close _ => exact .inside hK

/-- At the end of a run that fails, the trail begins with statements that have been dropped, if
there are such.  Then comes one that was ended by the failure of the run. -/
lemma Located.split (h : Located m T) {e : Failure} (hflight : m.inFlight? = some e)
    (hpending : m.pending = []) (hlost : ∃ x ∈ T, x.fate = .lost e.origin) :
    ∃ dropped u rest, T = dropped ++ u :: rest ∧ u.fate = .lost e.origin ∧
      ∀ x ∈ dropped, x.fate = .dropped := by
  -- no statement is in execution any more, and no host function either
  have hall : ∀ x ∈ T, x.fate = .dropped ∨ x.fate = .lost e.origin := by
    intro x hx
    have htracks := h.tracks
    rw [hpending] at htracks
    have hover := htracks x hx
    have haccords := h.fates x hx
    cases hfate : x.fate with
    | active => simp [hfate, Fate.isOver] at hover
    | lost o =>
        rw [hfate] at haccords
        obtain ⟨-, e', he', rfl⟩ := haccords
        rw [hflight, Option.some.injEq] at he'
        exact .inr (by rw [he'])
    | held o call =>
        rw [hfate] at haccords
        obtain ⟨-, p, rest, hsuffix, -, -⟩ := haccords
        simp [hpending] at hsuffix
    | dropped => exact .inl rfl
  clear h hpending
  induction T with
  | nil => simp at hlost
  | cons x T ih =>
      obtain ⟨hx, hall⟩ := List.forall_mem_cons.mp hall
      rcases hx with hx | hx
      · have hlost' : ∃ y ∈ T, y.fate = .lost e.origin := by
          obtain ⟨y, hy, hfate⟩ := hlost
          rcases List.mem_cons.mp hy with rfl | hy
          · simp [hx] at hfate
          · exact ⟨y, hy, hfate⟩
        obtain ⟨dropped, u, rest, rfl, hu, hdropped⟩ := ih hlost' hall
        exact ⟨x :: dropped, u, rest, rfl, hu, List.forall_mem_cons.mpr ⟨hx, hdropped⟩⟩
      · exact ⟨[], x, T, rfl, hx, by simp⟩

end Machine

namespace Session

open Machine

variable {s : Session} {T : Trail}

lemma pending_reach (n : Node) :
    (s.reach n).machine.pending = .leave s.machine.current :: s.machine.pending := by
  have h := s.arrival n
  generalize s.reach n = t at h ⊢
  cases h with
  | _ => rfl

/-- One statement of the program follows another, or the run ends. -/
lemma proceed_between {c : Completion} (hc : s.machine.control = .complete c)
    (hp : AtTop s.machine.pending) :
    (∃ o, s.proceed.machine.control.settled? = some o) ∨ Rooted s.proceed.machine T := by
  rw [proceed_complete hc]
  rcases hp with hp | ⟨statements, hp⟩
  · rw [withTask_nil hp]
    cases c with
    | returned v => exact .inl ⟨_, rfl⟩
    | next => exact .inl ⟨_, rfl⟩
  · rw [withTask_cons hp]
    cases c with
    | returned v => exact .inr (.between rfl (.inl rfl))
    | next =>
        cases statements with
        | nil => exact .inr (.between rfl (.inl rfl))
        | cons n statements => exact .inr (.before rfl rfl)

/-- A failure that has ended a statement of the program ends the run. -/
lemma proceed_failing {e : Failure} (hflight : s.machine.inFlight? = some e)
    (hp : AtTop s.machine.pending) (hlost : ∃ x ∈ T, x.fate = .lost e.origin) :
    (∃ o, s.proceed.machine.control.settled? = some o) ∨ Rooted s.proceed.machine T := by
  unfold inFlight? at hflight
  split at hflight
  · rename_i e' hc
    rw [proceed_fail hc]
    rcases hp with hp | ⟨statements, hp⟩
    · rw [withTask_nil hp]
      unfold finishFailed
      split
      · exact .inl ⟨_, rfl⟩
      · exact .inl ⟨_, rfl⟩
    · rw [withTask_cons hp]
      refine .inr (.failing (e := e) ?_ (.inl rfl) hlost)
      rw [← hflight]
      simp [inFlight?, unwind, hc]
  · rename_i text hc
    rw [proceed_crash hc]
    rcases hp with hp | ⟨statements, hp⟩
    · rw [withTask_nil hp]
      exact .inl ⟨_, rfl⟩
    · rw [withTask_cons hp]
      refine .inr (.failing (e := e) ?_ (.inl rfl) hlost)
      rw [← hflight]
      simp only [inFlight?, collapse, hc, Option.some.injEq]
      exact breakdown_pop hp rfl text
  · simp at hflight

/-- Before its end a run is inside a statement of the program, or between two of them. -/
lemma rooted_proceed (hs : Sound s.machine) (hl : Located s.machine T) (h : Rooted s.machine T) :
    (∃ o, s.proceed.machine.control.settled? = some o) ∨
      Rooted s.proceed.machine (s.machine.observe T) := by
  cases h with
  | inside pending => exact .inr ((proceed_move false hs).rooted hl pending)
  | between control pending => exact proceed_between control pending
  | @before n statements control pending =>
      have hpending : s.proceed.machine.pending =
          [.leave s.machine.current, .sequence statements] := by
        rw [proceed_reach control, pending_reach, pending]
      exact .inr (.inside (K := []) hpending)
  | failing flight pending lost =>
      have hobserve : s.machine.observe T = T := by
        refine observe_eq_self (fun n hn => by simp [inFlight?, hn] at flight) fun p K hp => ?_
        rcases pending with hnil | ⟨statements, hsequence⟩
        · simp [hnil] at hp
        · rw [hsequence, List.cons.injEq] at hp
          exact hp.1 ▸ rfl
      rw [hobserve]
      exact proceed_failing flight pending lost

/-! ### The trail of a run -/

/-- The trail after a schedule. -/
def trail (T : Trail) : Session → List Event → Trail
  | _, [] => T
  | s, e :: es => trail (if s.goesOn e then s.machine.observe T else T) (s.happen e) es

/-- What the trail tells about a run: where it is, or where it has failed. -/
inductive Accounted (s : Session) (T : Trail) : Prop where
  | running (hrun : s.machine.control.settled? = none) (located : Located s.machine T)
      (rooted : Rooted s.machine T)
  | failed {e : Failure} {span : Span} (control : s.machine.control.settled? = some (.failed e span))
      (span_eq : span = Trail.span T)
      (split : ∃ dropped u rest, T = dropped ++ u :: rest ∧ u.fate = .lost e.origin ∧
        ∀ x ∈ dropped, x.fate = .dropped)
  | ended {o : Outcome} (control : s.machine.control.settled? = some o)
      (ho : ∀ e span, o ≠ .failed e span)

/-- A run that has failed shows the statement that was the first one of its trail. -/
lemma accounted_finish (hp : s.machine.pending = []) (hl : Located s.machine T)
    (hr : Rooted s.machine T) {o : Outcome} {t : Session} (hending : Ending s o)
    (ht : t.machine.control.settled? = some o) : Accounted t T := by
  have hfailed : ∀ e, s.machine.inFlight? = some e → o = .failed e s.machine.current →
      Accounted t T := by
    intro e hflight ho
    refine .failed (ht.trans (by rw [ho])) hl.current (hl.split hflight hp ?_)
    cases hr with
    | inside pending => simp [hp] at pending
    | between control _ => simp [inFlight?, control] at hflight
    | before _ pending => simp [hp] at pending
    | failing flight _ lost =>
        rw [hflight, Option.some.injEq] at flight
        exact flight ▸ lost
  cases hending with
  | returned _ => exact .ended ht (by simp)
  | fell _ _ => exact .ended ht (by simp)
  | stopped _ _ => exact .ended ht (by simp)
  | unwound _ _ => exact .ended ht (by simp)
  | failed control _ _ => exact hfailed _ (by simp [inFlight?, control]) rfl
  | crashed control => exact hfailed _ (by simp [inFlight?, control, breakdown, hp]) rfl

lemma Accounted.proceed (h : Accounted s T) (hs : Sound s.machine) :
    Accounted s.proceed (s.machine.observe T) := by
  have hmove := proceed_move false hs
  have hstay : ∀ {o : Outcome}, s.machine.control.settled? = some o →
      s.machine.observe T = T := by
    intro o ho
    rcases Control.settled?_eq_some.mp ho with hc | hc
    · simp only [observe, hc]
    · simp only [observe, hc]
  cases h with
  | running hrun located rooted =>
      cases hended : s.proceed.machine.control.settled? with
      | some o =>
          obtain ⟨hpending, hresult, hending, -, -⟩ := ending_of_settled hs hended hrun
          have hobserve : s.machine.observe T = T :=
            observe_eq_self (fun n hn => by simp [hn, Control.isResult] at hresult)
              (by simp [hpending])
          rw [hobserve]
          exact accounted_finish hpending located rooted hending hended
      | none =>
          exact .running hended (hmove.located hs located hended)
            ((rooted_proceed hs located rooted).resolve_left (by simp [hended]))
  | failed control span_eq split =>
      rw [hstay control]
      exact .failed (hmove.settled control) span_eq split
  | ended control ho =>
      rw [hstay control]
      exact .ended (hmove.settled control) ho

/-- What the trail tells is about the machine only. -/
lemma Accounted.congr {t : Session} (h : Accounted s T) (ht : t.machine = s.machine) :
    Accounted t T := by
  cases h with
  | running hrun located rooted => exact .running (ht ▸ hrun) (ht ▸ located) (ht ▸ rooted)
  | failed control span_eq split => exact .failed (ht ▸ control) span_eq split
  | ended control ho => exact .ended (ht ▸ control) ho

/-- What turns aside inside a statement ends no statement yet. -/
lemma Accounted.goto (h : Accounted s T) {d : Due} {c : Control}
    (hdue : s.machine.control.due? = some d) (hcomplete : ∀ r, s.machine.control ≠ .complete r)
    (hreach : ∀ n, s.machine.control ≠ .reach n) (hc : c.settled? = none)
    (hfail : ∀ e, c ≠ .fail e) : Accounted (s.goto c) T := by
  have hopen := Control.settled?_of_due hdue
  cases h with
  | running hrun located rooted =>
      refine .running hc ?_ ?_
      · exact located.mono (carries_of_due hdue) (fun _ => id) rfl located.tracks
          (fun e he => absurd he (hfail e))
      · cases rooted with
        | inside pending => exact .inside pending
        | between control _ => exact absurd control (hcomplete _)
        | before control _ => exact absurd control (hreach _)
        | failing flight _ _ => simp [inFlight?_of_due hdue] at flight
  | failed control _ _ => simp [hopen] at control
  | ended control _ => simp [hopen] at control

lemma Accounted.aside {t : Session} (h : Accounted s T) (ht : Aside s t) : Accounted t T := by
  cases ht with
  | controls c => exact h.congr rfl
  | release control =>
      exact h.goto (d := .action) (by rw [control]; rfl) (by simp [control]) (by simp [control])
        rfl (by simp)
  | falter c falters =>
      obtain ⟨n, hc⟩ := exists_paused_of_falters falters
      exact (h.goto (d := .completion) (by rw [hc]; rfl) (by simp [hc]) (by simp [hc]) rfl
        (by simp)).congr rfl

lemma Accounted.happen (h : Accounted s T) (hs : Sound s.machine) (e : Event) :
    Accounted (s.happen e) (if s.goesOn e then s.machine.observe T else T) := by
  rcases happen_cases s e with ⟨hgoes, heq⟩ | ⟨hgoes, haside⟩
  · rw [if_pos hgoes, heq]
    exact h.proceed hs
  · rw [if_neg (by simp [hgoes])]
    exact h.aside haside

lemma Accounted.after (h : Accounted s T) (hs : Sound s.machine) (es : List Event) :
    Accounted (s.after es) (s.trail T es) := by
  induction es generalizing s T with
  | nil => exact h
  | cons e es ih => exact ih (h.happen hs e) (sound_happen hs e)

lemma accounted_launch {s₀ : Session} {program : Program} {l : Launch}
    (h : s₀.launch program l = .ok s) : Accounted s [] := by
  obtain ⟨machine, hm, rfl⟩ := launch_eq_ok.mp h
  obtain ⟨functions, -, rfl⟩ := freshMachine_eq_ok hm
  refine .running rfl ⟨rfl, ?_, by simp, by rintro e ⟨⟩⟩ ?_
  · exact (Tracks.cons_iff_of_isPlain (p := .sequence program.statements) rfl).mpr (by
      rintro x ⟨⟩)
  · exact .between rfl (.inr ⟨_, rfl⟩)

/-- **Where a failed run is located.**  Start a program with any host functions, follow any
schedule, and let the run fail with `e`.

The trail of the run has a first statement `u` that was ended by `e`.  This is the innermost one
that was in execution when `e` arose.  The statements that are before it on the trail were ended
by failures which came to host functions and were not passed on.

The session and the outcome of the run show the same statement.  If there is none before `u`, it
is `u`.  Else it is the latest of the dropped ones. -/
theorem failed_span {s₀ t : Session} {program : Program} {l : Launch} {es : List Event}
    {e : Failure} {span : Span} (ht : s₀.launch program l = .ok t)
    (hfailed : (t.after es).outcome? = some (.failed e span)) :
    ∃ dropped u rest, t.trail [] es = dropped ++ u :: rest ∧ u.fate = .lost e.origin ∧
      (∀ x ∈ dropped, x.fate = .dropped) ∧
      (t.after es).controller.status.span = span ∧
      (dropped = [] → span = u.span) ∧
      ∀ x xs, dropped = x :: xs → span = x.span := by
  have hcontrol := outcome?_eq_some.mp hfailed
  have hsettled := Control.settled?_eq_some.mpr (.inr hcontrol)
  have hreachable : (t.after es).Reachable := ⟨s₀, program, l, t, es, ht, rfl⟩
  have hshown := (hreachable.settled _ hcontrol).2.2
  cases (accounted_launch ht).after (sound_launch ht) es with
  | running hrun _ _ => simp [hsettled] at hrun
  | ended control ho =>
      rw [hsettled, Option.some.injEq] at control
      exact absurd control.symm (ho e span)
  | failed control span_eq split =>
      rw [hsettled, Option.some.injEq, Outcome.failed.injEq] at control
      obtain ⟨rfl, rfl⟩ := control
      obtain ⟨dropped, u, rest, htrail, hu, hdropped⟩ := split
      rw [htrail] at span_eq
      refine ⟨dropped, u, rest, htrail, hu, hdropped, hshown, ?_, ?_⟩
      · intro hnil
        rw [span_eq, hnil]
        rfl
      · intro x xs hcons
        rw [span_eq, hcons]
        rfl

/-- A program of one statement and a procedure `f` that fails. -/
def failingProgram (statement : Node) : Program where
  statements := [statement]
  procedures := [some (.of .none (some ⟨.none, "f"⟩) []
    (.of .none [.return (.point 2 1) (.identifier .none "missing")]))]

/-- A host function that calls `f` and passes its failure on in a context. -/
def relay : Native := fun _ => .ask (.call "f" []) fun
  | .ok v => .pure v
  | .error e => .fail (.wrapped "relay" e)

/-- A run whose only statement calls `relay`. -/
def relayRun : Session :=
  begun (failingProgram (.call (.point 3 1) (some ⟨.none, "RELAY"⟩) []))
    { plugins := [{ functions := [("RELAY", relay)] }] }

/-- A failure that is passed on shows the statement inside the procedure. -/
theorem failed_span_relayed :
    ∃ e u rest,
      (relayRun.after (List.replicate 27 .step)).outcome? = some (.failed e (.point 2 1)) ∧
      relayRun.trail [] (List.replicate 27 .step) = u :: rest ∧ u.fate = .lost e.origin ∧
      u.span = .point 2 1 := by
  have ht : launch {} (failingProgram (.call (.point 3 1) (some ⟨.none, "RELAY"⟩) []))
      { plugins := [{ functions := [("RELAY", relay)] }] } = .ok relayRun := rfl
  obtain ⟨e, he⟩ : ∃ e, (relayRun.after (List.replicate 27 .step)).outcome? =
      some (.failed e (.point 2 1)) := ⟨_, rfl⟩
  obtain ⟨dropped, u, rest, htrail, hu, hdropped, -, hnone, -⟩ := failed_span ht he
  cases dropped with
  | nil => exact ⟨e, u, rest, he, htrail, hu, (hnone rfl).symm⟩
  | cons x xs =>
      -- the first statement of the trail was ended by the failure that is reported
      have hx : some x = (relayRun.trail [] (List.replicate 27 .step)).head? := by
        rw [htrail]
        rfl
      have hfate := hdropped x List.mem_cons_self
      cases hx
      cases hfate

/-- A host function that calls `f` and goes on, whatever comes of the call. -/
def shrug : Native := fun _ => .ask (.call "f" []) fun _ => .pure .nothing

/-- A run whose only statement assigns the sum of what `shrug` has and of a variable that does not
exist. -/
def shrugRun : Session :=
  begun (failingProgram (.assignment (.point 3 1) (.identifier .none "x")
      (.binary .none .add (.call .none (some ⟨.none, "SHRUG"⟩) []) (.identifier .none "absent"))))
    { plugins := [{ functions := [("SHRUG", shrug)] }] }

/-- The run fails in its only statement, and shows one that was ended by a failure which had been
dropped before. -/
theorem failed_span_dropped :
    ∃ e x u, shrugRun.Reachable ∧
      (shrugRun.after (List.replicate 31 .step)).outcome? = some (.failed e x.span) ∧
      shrugRun.trail [] (List.replicate 31 .step) = [x, u] ∧
      x.fate = .dropped ∧ u.fate = .lost e.origin ∧ x.span = .point 2 1 ∧ u.span = .point 3 1 :=
  ⟨_, _, _, reachable_begun rfl, rfl, rfl, rfl, rfl, rfl, rfl⟩

end Session

end Pseudocode
