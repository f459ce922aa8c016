/-
# The frames of a failure

A failure leaves the frames in place in which it arose until it comes to a host function, since
the frames of a call are popped before its failure is handed to the host function that has made the
call.  The failure takes a copy of the frames along then, unless it has one already.  So when a run
fails, it shows the frames as they were when its failure arose.

To say when that was, a record is kept beside the run.  It tells when the failure that is on its way
up arose, and it lists the failures that have been handed to host functions.  A host function that
fails may pass on a failure that was handed to it: then that failure is on its way again, and it
arose when it arose.  Otherwise a new failure arises.

The main results are

* `Session.Kept.proceed`: when the run has gone on, the failures in the record still show the
  frames in which they arose;
* `Session.failure_snapshot`: the frames that a failed run shows are those in which its failure
  arose.
-/
import Pseudocode.Proofs.Stopping
import Pseudocode.Proofs.Trail
import Pseudocode.Value.Render

namespace Pseudocode

/-- What is seen of frames: their labels, and the names and rendered values of their variables, the
global frame first. -/
def Snapshot.shown (x : Snapshot) : List (String × List (String × String)) :=
  x.store.frames.map fun f => (f.label, f.vars.entries.map fun v => (v.1, x.heap.inspect v.2))

namespace Failure

/-- The copy of the frames that a failure has taken along. -/
def stack? (e : Failure) : Option Snapshot := e.fault?.bind (·.stack)

/-- The frames that are shown of a failure, if those in place are `now`. -/
def frames (e : Failure) (now : Snapshot) : Snapshot := e.stack?.getD now

lemma frames_of_stack?_eq_none {e : Failure} (h : e.stack? = none) (now : Snapshot) :
    e.frames now = now := by
  simp [frames, h]

lemma fault?_withStack (e : Failure) (x : Snapshot) :
    (e.withStack x).fault? =
      e.fault?.map fun f => { f with stack := f.stack.orElse fun _ => some x } := by
  induction e with
  | fault f => rfl
  | stopped => rfl
  | host e => rfl
  | wrapped context inner ih => exact ih

/-- A fault that takes the frames along that are in place shows the same as before, whatever is in
place afterwards. -/
lemma frames_withStack {e : Failure} (h : e.fault?.isSome = true) (x now : Snapshot) :
    (e.withStack x).frames now = e.frames x := by
  obtain ⟨f, hf⟩ := Option.isSome_iff_exists.mp h
  simp only [frames, stack?, fault?_withStack, hf, Option.map_some, Option.bind_some]
  cases f.stack with
  | none => rfl
  | some y => rfl

lemma origin_withStack (e : Failure) (x : Snapshot) : (e.withStack x).origin = e.origin := by
  induction e with
  | fault f => rfl
  | stopped => rfl
  | host e => rfl
  | wrapped context inner ih => exact ih

end Failure

/-! ### Failures that arise -/

/-- Whether a control is no failure that has taken frames along. -/
def Control.isFresh : Control → Bool
  | .fail e => e.stack?.isNone
  | _ => true

namespace Machine

variable (m : Machine)

lemma fresh_eval (n : Node) : (m.eval n).control.isFresh = true := by
  unfold eval readVariable
  repeat' split
  all_goals rfl

lemma fresh_assign (target value : Node) : (m.assign target value).control.isFresh = true := by
  unfold assign
  repeat' split
  all_goals rfl

lemma fresh_exec (n : Node) : (m.exec n).control.isFresh = true := by
  unfold exec
  split
  · rfl
  · exact fresh_assign m _ _
  all_goals rfl

lemma fresh_block (b : Block) : (m.block b).control.isFresh = true := by
  cases b with
  | missing => rfl
  | of span statements => rfl

lemma fresh_choose (branches : List Branch) : (m.choose branches).control.isFresh = true := by
  unfold choose
  repeat' split
  all_goals rfl

lemma fresh_call (name : String) (args : List Value) (site : Span) :
    (m.call name args site).control.isFresh = true := by
  unfold call invoke
  repeat' split
  all_goals rfl

lemma fresh_commit (v : Value) (target : Target) : (m.commit v target).control.isFresh = true := by
  unfold commit writeElement
  dsimp only
  repeat' split
  all_goals rfl

lemma fresh_readElement (span : Span) (name : String) (index : Value) :
    (m.readElement span name index).control.isFresh = true := by
  unfold readElement
  repeat' split
  all_goals rfl

lemma fresh_resume (v : Value) (p : Pending) : (m.resume v p).control.isFresh = true := by
  cases p with
  | assign target => exact fresh_commit m v target
  | element span name => exact fresh_readElement m span name v
  | items _ rest | args _ _ _ rest =>
      cases rest with
      | nil => rfl
      | cons n rest => rfl
  | binaryApply _ _ _ | relationApply _ _ _ | targetIndex _ _ _ | timesCount _ _ | untilTest _ _
  | arm _ _ | eachSource _ _ _ =>
      simp only [resume]
      split
      · rfl
      · rfl
  | _ => rfl

lemma fresh_proceed (cancelled : Bool) (c : Completion) (p : Pending) :
    (m.proceed cancelled c p).control.isFresh = true := by
  unfold proceed iterate
  repeat' split
  all_goals rfl

end Machine

namespace Session

open Machine

variable {s : Session}

lemma fresh_reach (n : Node) : (s.reach n).machine.control.isFresh = true := by
  have h := s.arrival n
  generalize s.reach n = t at h ⊢
  cases h with
  | _ => rfl

lemma fresh_boundary {p : Standing} {n : Node} (hc : s.machine.control = .boundary p n) :
    s.proceed.machine.control.isFresh = true := by
  cases p with
  | admitted =>
      have h := heeding_proceed hc
      generalize s.proceed = t at h ⊢
      cases h with
      | _ => rfl
  | throttled =>
      rw [proceed_throttled hc]
      split
      · rfl
      · rfl
  | delayed =>
      rw [proceed_delayed hc]
      split
      · rfl
      · rfl
  | paused =>
      have h := waking_proceed hc
      generalize s.proceed = t at h ⊢
      cases h with
      | polls _ | waits _ => rw [hc]; rfl
      | begun _ | told _ => rfl

lemma fresh_withTask {next : Machine → Pending → Machine} {last : Session → Session}
    (hnext : ∀ m p, (next m p).control.isFresh = true)
    (hlast : (last s).machine.control.isFresh = true) :
    (s.withTask next last).machine.control.isFresh = true := by
  unfold withTask
  split
  · exact hlast
  · exact hnext _ _

lemma fresh_finishCompleted (c : Completion) :
    (s.finishCompleted c).machine.control.isFresh = true := by
  cases c with
  | next => rfl
  | returned v => rfl

lemma fresh_perform (site : Span) (q : Request) (next : q.Answer → Action Value) :
    (s.perform site q next).machine.control.isFresh = true := by
  cases q with
  | resume stepping =>
      simp only [perform]
      split
      · rfl
      · rfl
  | _ => rfl

/-- A failure that arises has taken no frames along, unless a host function fails with it. -/
lemma isFresh_proceed (hfail : ∀ e, s.machine.control ≠ .fail e)
    (hhost : ∀ site e, s.machine.control ≠ .host site (.fail e)) :
    s.proceed.machine.control.isFresh = true := by
  cases hc : s.machine.control with
  | fail e => exact absurd hc (hfail e)
  | idle | ending _ | ended _ | held _ _ =>
      simp only [Session.proceed, hc]
      rfl
  | boundary p n => exact fresh_boundary hc
  | reach n =>
      simp only [Session.proceed, hc]
      exact fresh_reach n
  | eval n =>
      simp only [Session.proceed, hc]
      exact fresh_eval _ n
  | exec n =>
      simp only [Session.proceed, hc]
      exact fresh_exec _ n
  | block b =>
      simp only [Session.proceed, hc]
      exact fresh_block _ b
  | choose branches =>
      simp only [Session.proceed, hc]
      exact fresh_choose _ branches
  | call name args site =>
      simp only [Session.proceed, hc]
      exact fresh_call _ name args site
  | value v =>
      rw [proceed_value hc]
      exact fresh_withTask (fun m p => fresh_resume m v p) (fresh_finishCompleted _)
  | complete c =>
      rw [proceed_complete hc]
      exact fresh_withTask (fun m p => fresh_proceed m _ c p) (fresh_finishCompleted _)
  | host site a =>
      simp only [Session.proceed, hc]
      cases a with
      | fail e => exact absurd hc (hhost site e)
      | pure v => rfl
      | crash text => rfl
      | ask q next => exact fresh_perform site q next
  | crash text =>
      rw [proceed_crash hc]
      unfold withTask
      split
      · rfl
      · rename_i p rest _
        cases p with
        | hostCall name site depth => rfl
        | _ =>
            simp only [collapse, hc]
            rfl

end Session

/-! ### The record -/

/-- The moment at which a failure arose: what it was then, and the frames that were in place. -/
structure Birth where
  origin : Origin
  frames : Snapshot

/-- A failure of that origin is on its way up in those frames. -/
def Birth.IsOf (b : Birth) (s : Session) : Prop :=
  ∃ e, s.machine.control = .fail e ∧ e.origin = b.origin ∧ s.machine.snapshot = b.frames

/-- The failure is the one that arose at the given moment, and the frames that are shown of it, if
those in place are `now`, look like the frames of that moment. -/
def Failure.BornAt (e : Failure) (now : Snapshot) (birth? : Option Birth) : Prop :=
  ∃ b, birth? = some b ∧ e.origin = b.origin ∧ (e.frames now).shown = b.frames.shown

namespace Failure

variable {e e' : Failure} {now now' : Snapshot} {birth? : Option Birth}

lemma bornAt_of_stack?_eq_none (h : e.stack? = none) (now : Snapshot) :
    e.BornAt now (some ⟨e.origin, now⟩) :=
  ⟨_, rfl, rfl, by rw [frames_of_stack?_eq_none h]⟩

/-- A fault may take the frames along that are in place. -/
lemma BornAt.withStack (h : e.BornAt now birth?) (hfault : e.fault?.isSome = true)
    (now' : Snapshot) : (e.withStack now).BornAt now' birth? := by
  obtain ⟨b, hb, horigin, hframes⟩ := h
  refine ⟨b, hb, ?_, ?_⟩
  · rw [origin_withStack, horigin]
  · rw [frames_withStack hfault, hframes]

/-- Whether two failures have the same origin and have taken frames along that look the same, or
none both. -/
def resembles (e e' : Failure) : Bool :=
  e.origin = e'.origin && e.stack?.map (·.shown) = e'.stack?.map (·.shown)

lemma shown_frames (e : Failure) (now : Snapshot) :
    (e.frames now).shown = (e.stack?.map (·.shown)).getD now.shown := by
  unfold frames
  cases e.stack? with
  | none => rfl
  | some x => rfl

/-- A failure that resembles another one arose when that did, as long as the frames in place look
the same. -/
lemma BornAt.passOn (h : e.BornAt now birth?) (heq : e.resembles e' = true)
    (hshown : now.shown = now'.shown) : e'.BornAt now' birth? := by
  obtain ⟨b, hb, horigin, hframes⟩ := h
  simp only [resembles, Bool.and_eq_true, decide_eq_true_eq] at heq
  refine ⟨b, hb, heq.1.symm.trans horigin, ?_⟩
  rw [← hframes, shown_frames, shown_frames, heq.2, hshown]

end Failure

namespace Machine

/-- The failure that a host function is handed for a call it has made when the number of frames was
`depth`. -/
def handed (m : Machine) (e : Failure) (depth : Nat) : Failure :=
  if depth < m.store.depth then e.withStack m.snapshot else e

variable {m : Machine} {e : Failure} {depth : Nat} {site : Span}
  {next : Except Failure Value → Action Value}

lemma control_unwind_reenter :
    (m.unwind e (.reenter site depth next)).control =
      .host site (next (.error (m.handed e depth))) := by
  simp only [unwind, handed]
  split
  · rfl
  · rfl

lemma isSome_fault?_handed : (m.handed e depth).fault?.isSome = e.fault?.isSome := by
  unfold handed
  split
  · rw [Failure.fault?_withStack, Option.isSome_map]
  · rfl

/-- The frames of the call are popped, but not without a copy. -/
lemma bornAt_handed {birth? : Option Birth} (h : e.BornAt m.snapshot birth?)
    (hfault : e.fault?.isSome = true) :
    (m.handed e depth).BornAt (m.unwind e (.reenter site depth next)).snapshot birth? := by
  simp only [unwind, handed]
  split
  · exact h.withStack hfault _
  · exact h

end Machine

/-- A failure that has been handed to a host function, and the frames that were left in place. -/
structure Receipt where
  failure : Failure
  birth? : Option Birth
  now : Snapshot

/-- The record that is kept beside a run. -/
structure Custody where
  /-- When the failure that is on its way up arose; else, when the latest one did. -/
  birth? : Option Birth := none
  /-- What has been handed to host functions, the latest first. -/
  received : List Receipt := []

namespace Custody

/-- A failure arises. -/
def arise (c : Custody) (e : Failure) (now : Snapshot) : Custody :=
  { c with birth? := some ⟨e.origin, now⟩ }

/-- The failure that a host function passes on when it fails with `e`, whatever context it puts it
in: one that `e` resembles and that was handed over when the variables looked as they do now. -/
def passedOn? (c : Custody) (e : Failure) (now : Snapshot) : Option Receipt :=
  c.received.find? fun r =>
    r.failure.fault?.isSome && r.failure.resembles e && r.now.shown = now.shown

/-- The record when the run has gone on. -/
def next (c : Custody) (s : Session) : Custody :=
  match s.machine.control, s.machine.pending with
  | .fail e, .reenter _ depth _ :: _ =>
      { c with
        received := ⟨s.machine.handed e depth, c.birth?, s.proceed.machine.snapshot⟩ :: c.received }
  | .fail e, .hostCall name site _ :: _ =>
      -- an error of the host's own is reported as a fault from here on
      if e.isOwn then c else c.arise (Machine.hostFailure name site e) s.machine.snapshot
  | .fail _, _ => c
  | .host _ (.fail e), _ =>
      match c.passedOn? e s.machine.snapshot with
      | some r => { c with birth? := r.birth? }
      | none => c.arise e s.machine.snapshot
  | _, _ =>
      match s.proceed.machine.control with
      | .fail e => c.arise e s.proceed.machine.snapshot
      | _ => c

/-- Every birth in the record has a property. -/
structure All (P : Birth → Prop) (c : Custody) : Prop where
  birth : ∀ b, c.birth? = some b → P b
  received : ∀ r ∈ c.received, ∀ b, r.birth? = some b → P b

lemma All.arise {P : Birth → Prop} {c : Custody} (h : c.All P) {e : Failure} {now : Snapshot}
    (hP : P ⟨e.origin, now⟩) : (c.arise e now).All P := by
  refine ⟨fun b hb => ?_, h.received⟩
  rw [Custody.arise, Option.some.injEq] at hb
  exact hb ▸ hP

/-- What is entered in the record has just arisen. -/
lemma All.next {P : Birth → Prop} {c : Custody} {s : Session} (h : c.All P)
    (hP : ∀ b : Birth, b.IsOf s.proceed → P b) : (c.next s).All P := by
  unfold Custody.next
  split
  · exact ⟨h.birth, List.forall_mem_cons.mpr ⟨h.birth, h.received⟩⟩
  · rename_i e name site depth rest hc hp
    split
    · exact h
    · refine h.arise (hP _ ⟨Machine.hostFailure name site e, ?_, rfl, ?_⟩)
      · rw [Session.proceed_fail hc, Session.withTask_cons hp]
        rfl
      · rw [Session.proceed_fail hc, Session.withTask_cons hp]
        rfl
  · exact h
  · rename_i site e hc
    split
    · rename_i r hr
      exact ⟨h.received r (List.mem_of_find?_eq_some hr), h.received⟩
    · refine h.arise (hP _ ⟨e, ?_, rfl, ?_⟩)
      · simp only [Session.proceed, hc]
        rfl
      · simp only [Session.proceed, hc]
        rfl
  · split
    · rename_i e hc
      exact h.arise (hP _ ⟨e, hc, rfl, rfl⟩)
    · exact h

/-- The failures that were handed over still show the frames in which they arose. -/
def Sound (c : Custody) : Prop :=
  ∀ r ∈ c.received, r.failure.fault?.isSome = true → r.failure.BornAt r.now r.birth?

lemma bornAt_of_passedOn? {c : Custody} (h : c.Sound) {e : Failure} {now : Snapshot} {r : Receipt}
    (hr : c.passedOn? e now = some r) : e.BornAt now r.birth? := by
  have hmem := List.mem_of_find?_eq_some hr
  have hfound := List.find?_some hr
  simp only [Bool.and_eq_true, decide_eq_true_eq] at hfound
  obtain ⟨⟨hfault, heq⟩, hshown⟩ := hfound
  exact (h r hmem hfault).passOn heq hshown

end Custody

namespace Session

open Machine

variable {s : Session} {c : Custody}

/-! ### The record of a run -/

/-- Whether a host function that is about to fail has come by the failure in a fair way: it passes
on one that was handed to it, or else the failure has no frames with it. -/
def isFair (s : Session) (c : Custody) : Bool :=
  match s.machine.control with
  | .host _ (.fail e) => (c.passedOn? e s.machine.snapshot).isSome || e.stack?.isNone
  | _ => true

/-- The record after a schedule. -/
def custody (c : Custody) : Session → List Event → Custody
  | _, [] => c
  | s, e :: es => custody (if s.goesOn e then c.next s else c) (s.happen e) es

/-- Every birth in the record is that of a failure which is on its way up at some moment. -/
lemma all_custody {P : Birth → Prop} {es : List Event} (h : c.All P)
    (hP : ∀ es' b, es' <+: es → Birth.IsOf b (s.after es') → P b) : (s.custody c es).All P := by
  induction es generalizing s c with
  | nil => exact h
  | cons e es ih =>
      have hrest : ∀ es' b, es' <+: es → Birth.IsOf b ((s.happen e).after es') → P b :=
        fun es' b hes' => hP (e :: es') b (List.cons_prefix_cons.mpr ⟨rfl, hes'⟩)
      refine ih ?_ hrest
      rcases happen_cases s e with ⟨hgoes, heq⟩ | ⟨hgoes, -⟩
      · rw [if_pos hgoes]
        exact h.next fun b hb => hrest [] b List.nil_prefix (heq ▸ hb)
      · rw [if_neg (by simp [hgoes])]
        exact h

/-- Whether the host functions that fail during a schedule are fair. -/
def allFair (c : Custody) : Session → List Event → Bool
  | _, [] => true
  | s, e :: es => s.isFair c && allFair (if s.goesOn e then c.next s else c) (s.happen e) es

/-- The failures in the record, the one on its way up and the one that has ended the run show the
frames in which they arose. -/
structure Kept (s : Session) (c : Custody) : Prop where
  received : c.Sound
  flight : ∀ e, s.machine.control = .fail e → e.BornAt s.machine.snapshot c.birth?
  failed : ∀ e span, s.machine.control.settled? = some (.failed e span) →
    s.machine.failedStack = e.stack? ∧ e.BornAt s.machine.snapshot c.birth?

/-- Where no failure is on its way, nothing is to be shown but what has been handed over. -/
lemma Kept.of_sound (h : c.Sound) (hfail : ∀ e, s.machine.control ≠ .fail e)
    (hrun : s.machine.control.settled? = none) : Kept s c :=
  ⟨h, fun e he => absurd he (hfail e), fun _ _ he => by simp [hrun] at he⟩

/-- A failure is on its way. -/
lemma Kept.of_fail (h : c.Sound) {e : Failure} (hc : s.machine.control = .fail e)
    (hborn : e.BornAt s.machine.snapshot c.birth?) : Kept s c := by
  refine ⟨h, fun e' he' => ?_, fun e' span he' => ?_⟩
  · rw [hc, Control.fail.injEq] at he'
    exact he' ▸ hborn
  · simp [hc, Control.settled?] at he'

/-- A failure goes through a task, or ends the run. -/
lemma Kept.unwind (h : Kept s c) {e : Failure} (hc : s.machine.control = .fail e) :
    Kept s.proceed (c.next s) := by
  have hborn := h.flight e hc
  cases hp : s.machine.pending with
  | nil =>
      have hnext : c.next s = c := by simp only [Custody.next, hc, hp]
      rw [hnext, proceed_fail hc, withTask_nil hp]
      unfold finishFailed
      split
      · exact ⟨h.received, by rintro e' ⟨⟩, by rintro e' span ⟨⟩⟩
      · refine ⟨h.received, by rintro e' ⟨⟩, ?_⟩
        rintro e' span ⟨⟩
        exact ⟨rfl, hborn⟩
  | cons p rest =>
      have hproceed : s.proceed =
          { s with machine := Machine.unwind { s.machine with pending := rest } e p } := by
        rw [proceed_fail hc, withTask_cons hp]
      cases p with
      | hostCall name site depth =>
          have hnext : c.next s =
              if e.isOwn then c else c.arise (hostFailure name site e) s.machine.snapshot := by
            simp only [Custody.next, hc, hp]
          rw [hnext, hproceed]
          split
          · rename_i hown
            refine .of_fail h.received (e := e) ?_ hborn
            simp [Machine.unwind, Machine.goto, hostFailure, hown]
          · rename_i hown
            refine .of_fail h.received rfl (Failure.bornAt_of_stack?_eq_none ?_ _)
            rw [hostFailure, if_neg hown]
            rfl
      | reenter site depth next =>
          have hnext : c.next s = { c with
              received := ⟨s.machine.handed e depth, c.birth?, s.proceed.machine.snapshot⟩ ::
                c.received } := by
            simp only [Custody.next, hc, hp]
          rw [hnext]
          refine .of_sound ?_ ?_ ?_
          · refine List.forall_mem_cons.mpr ⟨fun hfault => ?_, h.received⟩
            rw [hproceed]
            exact bornAt_handed (m := { s.machine with pending := rest }) hborn
              (isSome_fault?_handed ▸ hfault)
          · simp [hproceed, control_unwind_reenter]
          · simp [hproceed, control_unwind_reenter, Control.settled?]
      | _ =>
          have hnext : c.next s = c := by simp only [Custody.next, hc, hp]
          rw [hnext, hproceed]
          exact .of_fail h.received hc hborn

/-- A host function fails. -/
lemma Kept.hostFails (h : Kept s c) (hfair : s.isFair c = true) {site : Span} {e : Failure}
    (hc : s.machine.control = .host site (.fail e)) : Kept s.proceed (c.next s) := by
  have hproceed : s.proceed = s.goto (.fail e) := by simp only [Session.proceed, hc, act]
  rw [hproceed]
  simp only [isFair, hc, Bool.or_eq_true, Option.isNone_iff_eq_none] at hfair
  simp only [Custody.next, hc]
  split
  · rename_i r hr
    exact .of_fail h.received rfl (Custody.bornAt_of_passedOn? h.received hr)
  · rename_i hr
    refine .of_fail h.received rfl (Failure.bornAt_of_stack?_eq_none ?_ _)
    exact hfair.resolve_left (by simp [hr])

/-- Otherwise a failure may arise. -/
lemma Kept.arise (h : Kept s c) (hs : Guarded s) (hsturdy : s.controller.fragile = false)
    (hfail : ∀ e, s.machine.control ≠ .fail e)
    (hhost : ∀ site e, s.machine.control ≠ .host site (.fail e)) : Kept s.proceed (c.next s) := by
  have hnext : c.next s = match s.proceed.machine.control with
      | .fail e => c.arise e s.proceed.machine.snapshot
      | _ => c := by
    unfold Custody.next
    split
    · rename_i hc _
      exact absurd hc (hfail _)
    · rename_i hc _
      exact absurd hc (hfail _)
    · rename_i hc _ _
      exact absurd hc (hfail _)
    · rename_i hc
      exact absurd hc (hhost _ _)
    · rfl
  rw [hnext]
  have hfresh := isFresh_proceed hfail hhost
  cases hsettled : s.proceed.machine.control.settled? with
  | some o =>
      have hkeep : ∀ e, s.proceed.machine.control ≠ .fail e := by
        intro e hc
        simp [hc, Control.settled?] at hsettled
      have hsame : (match s.proceed.machine.control with
          | .fail e => c.arise e s.proceed.machine.snapshot
          | _ => c) = c := by
        split
        · rename_i e hc
          exact absurd hc (hkeep e)
        · rfl
      rw [hsame]
      refine ⟨h.received, fun e he => absurd he (hkeep e), fun e span he => ?_⟩
      rw [hsettled, Option.some.injEq] at he
      subst he
      cases hrun : s.machine.control.settled? with
      | some o =>
          -- the outcome has been settled before, and is shown now at most
          obtain rfl : o = .failed e span := by
            have hstays := (proceed_move false hs.sound).settled hrun
            rw [hsettled, Option.some.injEq] at hstays
            exact hstays.symm
          have hmachine : s.proceed.machine.failedStack = s.machine.failedStack ∧
              s.proceed.machine.snapshot = s.machine.snapshot := by
            rcases Control.settled?_eq_some.mp hrun with hc | hc
            · simp only [Session.proceed, hc]
              exact ⟨rfl, rfl⟩
            · simp only [Session.proceed, hc, and_self]
          rw [hmachine.1, hmachine.2]
          exact h.failed e span hrun
      | none =>
          obtain ⟨hpending, -, hending, -, -⟩ := ending_of_settled hs.sound hsettled hrun
          cases hending with
          | failed control _ _ => exact absurd control (hfail _)
          | crashed control =>
              -- a breakdown has the call of a host function below it
              obtain ⟨_, _, _, hcall, -⟩ := (hs.crash hsturdy _ control).exists_hostCall
              simp [hpending] at hcall
  | none =>
      split
      · rename_i e hc
        rw [hc] at hfresh
        exact .of_fail h.received hc
          (Failure.bornAt_of_stack?_eq_none (Option.isNone_iff_eq_none.mp hfresh) _)
      · rename_i hc
        exact .of_sound h.received hc hsettled

/-- When the run has gone on, the failures in the record still show the frames in which they
arose. -/
theorem Kept.proceed (h : Kept s c) (hs : Guarded s) (hsturdy : s.controller.fragile = false)
    (hfair : s.isFair c = true) : Kept s.proceed (c.next s) := by
  by_cases hfail : ∃ e, s.machine.control = .fail e
  · obtain ⟨e, hc⟩ := hfail
    exact h.unwind hc
  · by_cases hhost : ∃ site e, s.machine.control = .host site (.fail e)
    · obtain ⟨site, e, hc⟩ := hhost
      exact h.hostFails hfair hc
    · exact h.arise hs hsturdy (fun e he => hfail ⟨e, he⟩)
        (fun site e he => hhost ⟨site, e, he⟩)

/-- What happens aside does not touch failures. -/
lemma Kept.aside {t : Session} (h : Kept s c) (ht : Aside s t) : Kept t c := by
  cases ht with
  | controls k => exact ⟨h.received, h.flight, h.failed⟩
  | release _ => exact .of_sound h.received (by simp) rfl
  | falter k _ => exact .of_sound h.received (by simp) rfl

lemma Kept.after (h : Kept s c) (hs : Guarded s) (hsturdy : s.controller.fragile = false)
    {es : List Event} (hfair : s.allFair c es = true) : Kept (s.after es) (s.custody c es) := by
  induction es generalizing s c with
  | nil => exact h
  | cons e es ih =>
      obtain ⟨hnow, hrest⟩ := Bool.and_eq_true_iff.mp hfair
      refine ih ?_ (hs.happen e) ((fragile_happen hs.sound e).trans hsturdy) hrest
      rcases happen_cases s e with ⟨hgoes, heq⟩ | ⟨hgoes, haside⟩
      · rw [if_pos hgoes, heq]
        exact h.proceed hs hsturdy hnow
      · rw [if_neg (by simp [hgoes])]
        exact h.aside haside

lemma kept_launch {s₀ : Session} {program : Program} {l : Launch}
    (h : s₀.launch program l = .ok s) : Kept s {} := by
  obtain ⟨machine, hm, rfl⟩ := launch_eq_ok.mp h
  obtain ⟨functions, -, rfl⟩ := freshMachine_eq_ok hm
  exact .of_sound (by rintro r ⟨⟩) (by rintro e ⟨⟩) rfl

/-- **The frames of a failed run.**  Start a program with any host functions, follow any schedule,
and let the run fail with `e`.  The observer does not break down.  A host function that fails with
a failure that has frames with it passes on one that was handed to it, and the variables look as
they did then.

The record tells the moment `es'` at which `e` arose, and the session shows the frames as they were
then: the same labels, the same variables, and the same values. -/
theorem failure_snapshot {s₀ t : Session} {program : Program} {l : Launch} {es : List Event}
    {e : Failure} {span : Span} (hook : s₀.controller.fragile = false)
    (ht : s₀.launch program l = .ok t) (hfair : t.allFair {} es = true)
    (hfailed : (t.after es).outcome? = some (.failed e span)) :
    ∃ birth es' frames, (t.custody {} es).birth? = some birth ∧ e.origin = birth.origin ∧
      es' <+: es ∧ birth.IsOf (t.after es') ∧
      (t.after es).snapshot? = some frames ∧ frames.shown = birth.frames.shown := by
  have hcontrol := outcome?_eq_some.mp hfailed
  have hreachable : (t.after es).Reachable := ⟨s₀, program, l, t, es, ht, rfl⟩
  have hguarded : Guarded t := Reachable.guarded ⟨s₀, program, l, t, [], ht, rfl⟩
  have hsturdy : t.controller.fragile = false := by
    obtain ⟨machine, -, rfl⟩ := launch_eq_ok.mp ht
    exact hook
  obtain ⟨hstack, birth, hbirth, horigin, hframes⟩ :=
    ((kept_launch ht).after hguarded hsturdy hfair).failed e span
      (Control.settled?_eq_some.mpr (.inr hcontrol))
  have hmoments : (t.custody {} es).All fun b => ∃ es', es' <+: es ∧ b.IsOf (t.after es') :=
    all_custody ⟨by rintro b ⟨⟩, by rintro r ⟨⟩⟩ fun es' b hes' hb => ⟨es', hes', hb⟩
  obtain ⟨es', hes', hmoment⟩ := hmoments.birth birth hbirth
  have hphase := (hreachable.settled _ hcontrol).1
  refine ⟨birth, es', _, hbirth, horigin, hes', hmoment, ?_, hframes⟩
  simp only [snapshot?, Controller.inspectable, hphase, Outcome.phase, hstack, Failure.frames]
  cases e.stack? with
  | none => rfl
  | some x => rfl

/-- A procedure that makes a variable of its own and then executes a statement. -/
def withLocal (name var : String) (statement : Node) : Procedure :=
  .of .none (some ⟨.none, name⟩) [] (.of .none
    [.assignment .none (.identifier .none var) (.literal .none (.bool true)), statement])

/-- The procedure `f` fails, and `g` calls it by way of `RELAY`.  The program calls `RETRY`. -/
def nestedProgram : Program where
  statements := [.call .none (some ⟨.none, "RETRY"⟩) []]
  procedures :=
    [some (withLocal "f" "x" (.return .none (.identifier .none "missing"))),
     some (withLocal "g" "y" (.call .none (some ⟨.none, "RELAY"⟩) []))]

/-- A host function that calls `f` and passes its failure on in a context. -/
def relayInner : Native := fun _ => .ask (.call "f" []) fun
  | .ok v => .pure v
  | .error e => .fail (.wrapped "inner" e)

/-- A host function that calls `f`, drops its failure, calls `g` and passes on that of `g`. -/
def retry : Native := fun _ => .ask (.call "f" []) fun _ => .ask (.call "g" []) fun
  | .ok v => .pure v
  | .error e => .fail e

/-- A run of the program. -/
def nestedRun : Session :=
  begun nestedProgram { plugins := [{ functions := [("RELAY", relayInner), ("RETRY", retry)] }] }

set_option maxRecDepth 2000 in
/-- The failure of `f` comes to two host functions, and the frames of `f` and `g` are popped on the
way.  The run shows them nonetheless, and not those of the failure that was dropped before. -/
theorem failure_snapshot_nested :
    ∃ e span birth es' frames,
      (nestedRun.after (List.replicate 77 .step)).outcome? = some (.failed e span) ∧
      (nestedRun.custody {} (List.replicate 77 .step)).birth? = some birth ∧
      e.origin = birth.origin ∧ es' <+: List.replicate 77 .step ∧
      birth.IsOf (nestedRun.after es') ∧
      (nestedRun.after (List.replicate 77 .step)).snapshot? = some frames ∧
      frames.shown = birth.frames.shown ∧
      birth.frames.shown = [("Global", []), ("g", [("y", "true")]), ("f", [("x", "true")])] ∧
      (nestedRun.after (List.replicate 77 .step)).machine.snapshot.shown = [("Global", [])] := by
  have ht : launch {} nestedProgram
      { plugins := [{ functions := [("RELAY", relayInner), ("RETRY", retry)] }] } =
        .ok nestedRun := rfl
  have hfair : nestedRun.allFair {} (List.replicate 77 .step) = true := by decide +kernel
  have hshown : (nestedRun.custody {} (List.replicate 77 .step)).birth?.map (·.frames.shown) =
      some [("Global", []), ("g", [("y", "true")]), ("f", [("x", "true")])] := by decide +kernel
  obtain ⟨e, span, hfailed⟩ : ∃ e span,
      (nestedRun.after (List.replicate 77 .step)).outcome? = some (.failed e span) :=
    ⟨_, _, rfl⟩
  obtain ⟨birth, es', frames, hbirth, horigin, hes', hmoment, hsnapshot, hframes⟩ :=
    failure_snapshot rfl ht hfair hfailed
  rw [hbirth, Option.map_some, Option.some.injEq] at hshown
  exact ⟨e, span, birth, es', frames, hfailed, hbirth, horigin, hes', hmoment, hsnapshot, hframes,
    hshown, by decide +kernel⟩

end Session

end Pseudocode
