/-
# The balance of the frame stack

A call of a procedure adds a frame, and a failing one leaves it where it is.  Three places put the
stack back in order: the return from a procedure, the call that a host function makes, and the
call of a host function that breaks down.  This file proves that together they do.

The main results are

* `Machine.Move.frames_below`: a move leaves the frames that belong to untouched tasks alone;
* `Session.frames_within`: so does every piece of a run that stays within those tasks;
* `Session.frameStack_balanced`: expressions, statements, blocks, calls of host functions and
  calls by host functions leave the stack as they found it, and the global frame stays.
-/
import Pseudocode.Proofs.Controls

namespace Pseudocode

/-- Whether an expression, a statement or a block is about to begin. -/
def Control.begins : Control → Bool
  | .eval _ | .reach _ | .block _ => true
  | _ => false

/-- Whether an expression, a statement or a block has finished without a failure. -/
def Control.finishes : Control → Bool
  | .value _ | .complete _ => true
  | _ => false

namespace Control

lemma due?_of_begins {c : Control} (h : c.begins = true) : ∃ d, c.due? = some d := by
  cases c <;> simp_all [begins, due?]

lemma due?_of_finishes {c : Control} (h : c.finishes = true) : ∃ d, c.due? = some d := by
  cases c <;> simp_all [finishes, due?]

end Control

namespace Machine

variable {fragile : Bool} {m m' : Machine}

/-- The frames that belong to tasks which a move does not touch are not touched either. -/
theorem Move.frames_below {K : List Pending} (h : Move fragile m m') (hm : Sound m)
    (hK : K <:+ m.pending) (hK' : K <:+ m'.pending) :
    m'.store.frameIds.take (height K) = m.store.frameIds.take (height K) := by
  have hheight := height_le_of_suffix hK
  cases h with
  | plain _ h => rw [h.frames]
  | task _ _ _ _ h => rw [h.frames]
  | request _ _ keeps => rw [keeps.store]
  | finish _ _ _ keeps => rw [keeps.store]
  | enter control =>
      have hdepth := (hm.balanced (d := .value) (by rw [control]; rfl)).2
      rw [Store.frameIds_push, List.take_append_of_le_length]
      rw [Store.length_frameIds, hdepth]
      exact hheight
  | @exit c rest v control pending =>
      -- the frame that is left lies above those of the remaining tasks
      have hdepth := (hm.below (d := .completion) (by rw [control]; rfl) pending).2
      have hrest := height_le_of_suffix hK'
      simp only [height] at hdepth
      rw [Store.frameIds_pop, List.take_take]
      congr 1
      simp only at hrest
      omega
  | @hand e e' site depth next rest control pending =>
      obtain ⟨d, fits, -, -⟩ := hm.of_fail control
      rw [pending] at fits
      have hdepth := fits.reenter_depth
      have hrest := height_le_of_suffix hK'
      simp only at hrest ⊢
      split
      · rw [Store.frameIds_truncate, List.take_take]
        congr 1
        omega
      · rfl
  | @collapseHost text name site depth rest control pending =>
      obtain ⟨d, fits, -⟩ := hm.of_crash control
      rw [pending] at fits
      have hdepth := fits.hostCall_depth
      have hrest := height_le_of_suffix hK'
      rw [Store.frameIds_truncate, List.take_take]
      congr 1
      simp only at hrest
      omega
  | _ => rfl

end Machine

namespace Session

open Machine

variable {s : Session}

/-- A piece of a run leaves the frames alone that belong to the tasks it stays within. -/
theorem frames_within {K : List Pending} {es : List Event} (hs : Sound s.machine)
    (h : Within K s es) :
    (s.after es).machine.store.frameIds.take (height K) =
      s.machine.store.frameIds.take (height K) := by
  induction es generalizing s with
  | nil => rfl
  | cons e es ih =>
      obtain ⟨hK, hrest⟩ := within_cons.mp h
      rw [after_cons, ih (sound_happen hs e) hrest]
      rcases happen_move hs e with hmove | heq
      · exact hmove.frames_below hs hK hrest.start
      · rw [heq]

/-- The frames after a piece of a run are those before it, if neither end has frames besides
those of the tasks it stays within. -/
lemma Settles.frameIds_eq {K : List Pending} {a b : Session} (ha : Sound a.machine)
    (h : Settles K a b) (hdepth : a.machine.store.depth = height K)
    (hdepth' : b.machine.store.depth = height K) :
    b.machine.store.frameIds = a.machine.store.frameIds := by
  obtain ⟨es, hwithin, rfl, -⟩ := h
  have htake := frames_within ha hwithin
  rw [← Store.length_frameIds] at hdepth hdepth'
  rwa [← hdepth, List.take_length, hdepth, ← hdepth', List.take_length] at htake

lemma Settles.sound {K : List Pending} {a b : Session} (ha : Sound a.machine)
    (h : Settles K a b) : Sound b.machine := by
  obtain ⟨es, -, rfl, -⟩ := h
  exact sound_after ha es

lemma Settles.reachable {K : List Pending} {a b : Session} (ha : a.Reachable)
    (h : Settles K a b) : b.Reachable := by
  obtain ⟨es, -, rfl, -⟩ := h
  exact ha.after es

lemma Settles.pending_eq {K : List Pending} {a b : Session} (h : Settles K a b) :
    b.machine.pending = K := by
  obtain ⟨es, -, -, hpending⟩ := h
  exact hpending

lemma Settles.start {K : List Pending} {a b : Session} (h : Settles K a b) :
    K <:+ a.machine.pending := by
  obtain ⟨es, hwithin, -, -⟩ := h
  exact hwithin.start

/-- The frames below a call that puts one task on top of the pending ones: until that task is
all that is left above them, they are those that were there at the call. -/
lemma Settles.take_frameIds {p : Pending} {d : Due} {a b : Session} (ha : Sound a.machine)
    (hdue : a.machine.control.due? = some d)
    (hheight : height (p :: a.machine.pending) = height a.machine.pending)
    (h : Settles (p :: a.machine.pending) a.step b) :
    b.machine.store.frameIds.take (height a.machine.pending) = a.machine.store.frameIds := by
  have hsuffix : a.machine.pending <:+ a.step.machine.pending :=
    (List.suffix_cons p _).trans h.start
  have hcall : a.step.machine.store.frameIds.take (height a.machine.pending) =
      a.machine.store.frameIds.take (height a.machine.pending) := by
    rcases step_move ha with hmove | heq
    · exact hmove.frames_below ha List.suffix_rfl hsuffix
    · rw [heq]
  obtain ⟨es, hwithin, rfl, -⟩ := h
  have hrun := frames_within (sound_happen ha .step) hwithin
  rw [hheight] at hrun
  calc (a.step.after es).machine.store.frameIds.take (height a.machine.pending)
      = a.step.machine.store.frameIds.take (height a.machine.pending) := hrun
    _ = a.machine.store.frameIds.take (height a.machine.pending) := hcall
    _ = a.machine.store.frameIds := by
        rw [← (ha.balanced hdue).2, ← Store.length_frameIds, List.take_length]

/-- A host function leaves behind the frames that belong to the tasks below it, whether it hands
on a value, fails or breaks down. -/
lemma frameIds_host_ends {name : String} {site : Span} {depth : Nat} {K : List Pending}
    {b : Session} (hb : Sound b.machine) (hp : b.machine.pending = .hostCall name site depth :: K)
    (hc : (∃ v, b.machine.control = .value v) ∨ (∃ e, b.machine.control = .fail e) ∨
      ∃ text, b.machine.control = .crash text) :
    b.proceed.machine.pending = K ∧
      b.proceed.machine.store.frameIds = b.machine.store.frameIds.take (height K) := by
  have htake : b.machine.store.depth = height K →
      b.machine.store.frameIds = b.machine.store.frameIds.take (height K) := by
    intro hdepth
    rw [← hdepth, ← Store.length_frameIds, List.take_length]
  rcases hc with ⟨v, hc⟩ | ⟨e, hc⟩ | ⟨text, hc⟩
  · have hdepth := (hb.below (d := .value) (by rw [hc]; rfl) hp).2
    simp only [Session.proceed, hc]
    rw [withTask_cons hp]
    exact ⟨rfl, htake hdepth⟩
  · obtain ⟨d, fits, -, hhost⟩ := hb.of_fail hc
    rw [hp] at fits hhost
    simp only [Session.proceed, hc]
    rw [withTask_cons hp]
    exact ⟨rfl, htake (hhost fits.tail.1.symm)⟩
  · -- a breakdown may have left frames behind, which are cut off here
    obtain ⟨d, fits, -⟩ := hb.of_crash hc
    rw [hp] at fits
    have hdepth := fits.hostCall_depth
    have hmax : max 1 depth = height K := by
      have := one_le_height K
      omega
    simp only [Session.proceed, hc]
    rw [withTask_cons hp]
    refine ⟨rfl, ?_⟩
    show (b.machine.store.truncate depth).frameIds = _
    rw [Store.frameIds_truncate, hmax]

/-- The call that a host function makes leaves behind the frames that belong to the tasks below
it, whether it has a value or fails. -/
lemma frameIds_call_ends {site : Span} {depth : Nat} {next : Except Failure Value → Action Value}
    {K : List Pending} {b : Session} (hb : Sound b.machine)
    (hp : b.machine.pending = .reenter site depth next :: K)
    (hc : (∃ v, b.machine.control = .value v) ∨ ∃ e, b.machine.control = .fail e) :
    b.proceed.machine.pending = K ∧ (∃ r, b.proceed.machine.control = .host site (next r)) ∧
      b.proceed.machine.store.frameIds = b.machine.store.frameIds.take (height K) := by
  rcases hc with ⟨v, hc⟩ | ⟨e, hc⟩
  · have hdepth := (hb.below (d := .value) (by rw [hc]; rfl) hp).2
    simp only [Session.proceed, hc]
    rw [withTask_cons hp]
    refine ⟨rfl, ⟨.ok v, rfl⟩, ?_⟩
    have hheight : height (.reenter site depth next :: K) = height K := rfl
    rw [← hheight, ← hdepth, ← Store.length_frameIds, List.take_length]
    rfl
  · obtain ⟨d, fits, hle, -⟩ := hb.of_fail hc
    rw [hp] at fits hle
    have hdepth := fits.reenter_depth
    have hpos := one_le_height K
    simp only [height] at hle
    simp only [Session.proceed, hc]
    rw [withTask_cons hp]
    simp only [unwind]
    split
    · refine ⟨rfl, ⟨_, rfl⟩, ?_⟩
      rw [Store.frameIds_truncate, hdepth, Nat.max_eq_right hpos]
    · rename_i hlt
      have heq : b.machine.store.depth = height K := by omega
      refine ⟨rfl, ⟨_, rfl⟩, ?_⟩
      show b.machine.store.frameIds = _
      rw [← heq, ← Store.length_frameIds, List.take_length]

/-- The frame at the bottom is the global one, at every moment of every run. -/
lemma Reachable.head_frameIds (h : Reachable s) :
    s.machine.store.frameIds.head? = some (globalLabel, 0) := by
  obtain ⟨s₀, program, l, t, es, ht, rfl⟩ := h
  have hwithin : Within [] t es := fun es' _ => List.nil_suffix
  have htake := frames_within (sound_launch ht) hwithin
  have hstart : t.machine.store.frameIds = [(globalLabel, 0)] := by
    obtain ⟨machine, hm, rfl⟩ := launch_eq_ok.mp ht
    obtain ⟨functions, -, rfl⟩ := freshMachine_eq_ok hm
    exact Plugin.frameIds_addVars _ _ _
  rw [hstart] at htake
  have hhead := congrArg List.head? htake
  simpa [height, List.head?_take] using hhead

/-- **Balance of the frame stack.**  Take any moment `a` of any run, with any host functions.

* If an expression, a statement or a block begins at `a` and finishes at `b` without a failure,
  the frames at `b` are those at `a`.
* If a host function is called at `a` and it hands on a value, fails or breaks down at `b`, the
  frames after that are those at `a`.
* If a host function makes a call at `a` that has a value or a failure at `b`, the host function
  goes on with the frames of `a`.
* The frame at the bottom is the global one. -/
theorem frameStack_balanced {a : Session} (ha : a.Reachable) :
    (∀ b, a.machine.control.begins = true → Settles a.machine.pending a b →
      b.machine.control.finishes = true →
      b.machine.store.frameIds = a.machine.store.frameIds) ∧
    (∀ b name args site, a.machine.control = .call name args site →
      Settles (.hostCall name site a.machine.store.depth :: a.machine.pending) a.step b →
      ((∃ v, b.machine.control = .value v) ∨ (∃ e, b.machine.control = .fail e) ∨
        ∃ text, b.machine.control = .crash text) →
      b.step.machine.pending = a.machine.pending ∧
        b.step.machine.store.frameIds = a.machine.store.frameIds) ∧
    (∀ b site name args next, a.machine.control = .host site (.ask (.call name args) next) →
      Settles (.reenter site a.machine.store.depth next :: a.machine.pending) a.step b →
      ((∃ v, b.machine.control = .value v) ∨ ∃ e, b.machine.control = .fail e) →
      b.step.machine.pending = a.machine.pending ∧
        (∃ r, b.step.machine.control = .host site (next r)) ∧
        b.step.machine.store.frameIds = a.machine.store.frameIds) ∧
    a.machine.store.frameIds.head? = some (globalLabel, 0) := by
  have hsound := ha.sound
  refine ⟨?_, ?_, ?_, ha.head_frameIds⟩
  · intro b hbegins hsettles hfinishes
    obtain ⟨d, hd⟩ := Control.due?_of_begins hbegins
    obtain ⟨d', hd'⟩ := Control.due?_of_finishes hfinishes
    have hb := ((hsettles.sound hsound).balanced hd').2
    rw [hsettles.pending_eq] at hb
    exact hsettles.frameIds_eq hsound (hsound.balanced hd).2 hb
  · intro b name args site hcall hsettles hends
    have hb := hsettles.reachable (ha.after [.step])
    have hreports : b.machine.control.reports = false := by
      rcases hends with ⟨v, hc⟩ | ⟨e, hc⟩ | ⟨text, hc⟩
      · rw [hc]; rfl
      · rw [hc]; rfl
      · rw [hc]; rfl
    rw [hb.step_eq hreports]
    obtain ⟨hpending, hframes⟩ := frameIds_host_ends hb.sound hsettles.pending_eq hends
    refine ⟨hpending, hframes.trans ?_⟩
    exact hsettles.take_frameIds hsound (d := .value) (by rw [hcall]; rfl) rfl
  · intro b site name args next hcall hsettles hends
    have hb := hsettles.reachable (ha.after [.step])
    have hreports : b.machine.control.reports = false := by
      rcases hends with ⟨v, hc⟩ | ⟨e, hc⟩
      · rw [hc]; rfl
      · rw [hc]; rfl
    rw [hb.step_eq hreports]
    obtain ⟨hpending, hcontrol, hframes⟩ := frameIds_call_ends hb.sound hsettles.pending_eq hends
    refine ⟨hpending, hcontrol, hframes.trans ?_⟩
    exact hsettles.take_frameIds hsound (d := .action) (by rw [hcall]; rfl) rfl

/-- A host function that calls `f` and goes on, whatever comes of the call. -/
def heedless : Native := fun _ => .ask (.call "f" []) fun _ => .pure .nothing

/-- A program whose only statement calls `heedless`; the procedure `f` fails. -/
def heedlessProgram : Program where
  statements := [.call (.point 3 1) (some ⟨.none, "HEEDLESS"⟩) []]
  procedures := [some (.of .none (some ⟨.none, "f"⟩) []
    (.of .none [.return (.point 2 1) (.identifier .none "x")]))]

/-- The moment at which `heedless` makes its call. -/
def heedlessCall : Session :=
  (begun heedlessProgram { plugins := [{ functions := [("HEEDLESS", heedless)] }] }).after
    (List.replicate 7 .step)

/-- The frame of the failing procedure is on the stack when the failure comes to the host
function, and the host function goes on without it. -/
theorem frameStack_balanced_heedless :
    ∃ b : Session, heedlessCall.Reachable ∧
      Settles (.reenter (.point 3 1) 1 (fun _ => .pure .nothing) :: heedlessCall.machine.pending)
        heedlessCall.step b ∧
      b.machine.store.frameIds = [(globalLabel, 0), ("f", 1)] ∧
      heedlessCall.machine.store.frameIds = [(globalLabel, 0)] ∧
      b.step.machine.store.frameIds = heedlessCall.machine.store.frameIds := by
  have hreachable : heedlessCall.Reachable := ⟨{}, heedlessProgram, _, _, _, rfl, rfl⟩
  have hsettles : Settles
      (.reenter (.point 3 1) 1 (fun _ => .pure .nothing) :: heedlessCall.machine.pending)
      heedlessCall.step (heedlessCall.step.after (List.replicate 11 .step)) := by
    refine ⟨List.replicate 11 .step, ?_, rfl, rfl⟩
    iterate 11 refine within_cons.mpr ⟨List.suffix_iff_eq_drop.mpr rfl, ?_⟩
    exact within_nil.mpr (List.suffix_iff_eq_drop.mpr rfl)
  refine ⟨_, hreachable, hsettles, rfl, rfl, ?_⟩
  exact ((frameStack_balanced hreachable).2.2.1 _ _ _ _ _ rfl hsettles (.inr ⟨_, rfl⟩)).2.2

end Session

end Pseudocode
