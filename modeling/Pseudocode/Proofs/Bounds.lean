/-
# The limits of a run hold

A run may be limited in the number of statements it begins and in the number of calls in progress.
A host function may catch the failure of a run that has come to one of its limits, and make further
calls.  But what has been counted stays counted: the number of statements is looked at whenever a
statement reaches its boundary, and the number of frames whenever a procedure is entered.  So no
host function gets past a limit.

The statements that begin during a schedule are listed here, apart from the count that the run keeps
of the statements which have reached their boundary.

The main results are

* `Session.Limited.happen`: no event takes a run past its limits;
* `Session.limits_hold`: no more statements begin and no more frames are on the stack than the
  limits allow, and a procedure can be entered until the stack is full.
-/
import Pseudocode.Proofs.Budget

namespace Pseudocode

/-- How many statements stand at their boundary; they have been counted and have not begun. -/
def Control.waiting : Control → Nat
  | .boundary _ _ => 1
  | _ => 0

namespace Machine

variable {fragile : Bool} {m m' : Machine}

/-- No frame is added but for a call. -/
lemma Move.depth_le (h : Move fragile m m')
    (hcall : ∀ name args site, m.control ≠ .call name args site) :
    m'.store.depth ≤ m.store.depth := by
  have hcut : ∀ depth, (m.store.truncate depth).depth ≤ m.store.depth := by
    intro depth
    rw [Store.depth_truncate]
    exact Nat.min_le_right _ _
  cases h with
  | plain _ h => exact Nat.le_of_eq h.depth
  | task _ _ _ _ h => exact Nat.le_of_eq h.depth
  | request _ _ keeps => rw [keeps.store]
  | finish _ _ _ keeps => rw [keeps.store]
  | enter control => exact absurd control (hcall _ _ _)
  | exit _ _ =>
      rw [← Store.length_frameIds, ← Store.length_frameIds, Store.frameIds_pop]
      exact List.length_take_le' _ _
  | hand _ _ =>
      dsimp only
      split
      · exact hcut _
      · exact Nat.le_refl _
  | collapseHost _ _ => exact hcut _
  | _ => exact Nat.le_refl _

/-- The failure of a call for which there is no room on the stack. -/
def noRoom (m : Machine) (name : String) (site : Span) : Failure :=
  .fault { kind := .callDepthExceeded, span := site
           detail := "(" ++ toString m.maxDepth ++ ") calling " ++ name }

/-- A call of a procedure with as many arguments as it has parameters fails if the stack is full,
and else enters the procedure. -/
lemma call_declared {name : String} {args : List Value} {site : Span} {params : List String}
    {body : Block} (hf : Bindings.get? m.functions name = some (.declared params body))
    (hargs : args.length = params.length) :
    m.call name args site =
      if 0 < m.maxDepth ∧ m.maxDepth < m.store.depth then m.goto (.fail (m.noRoom name site))
      else
        { m with
          store := m.store.push name ((Bindings.empty : Bindings Value).insertAll (params.zip args))
          pending := .invocation :: m.pending
          control := .block body } := by
  have harity : ¬(0 ≤ Function.arity (.declared params body) ∧
      Function.arity (.declared params body) ≠ args.length) := by
    simp [Function.arity, hargs]
  simp only [call, hf, harity, if_false]
  rfl

/-- A call keeps within the limit. -/
lemma depth_call_le {name : String} {args : List Value} {site : Span}
    (hm : m.store.depth ≤ m.maxDepth + 1) (hlimit : 0 < m.maxDepth) :
    (m.call name args site).store.depth ≤ m.maxDepth + 1 := by
  unfold call
  split
  · exact hm
  · split
    · exact hm
    · split
      · unfold invoke
        split
        · exact hm
        · rename_i hroom
          show m.store.depth + 1 ≤ m.maxDepth + 1
          omega
      · exact hm

end Machine

namespace Session

open Machine

variable {s : Session} {k d b : Nat}

/-! ### The statements that begin -/

/-- The statement that begins with an event: it has passed its boundary then and is about to be
executed. -/
def beginning (s : Session) (e : Event) : List Node :=
  match s.machine.control, (s.happen e).machine.control with
  | .boundary _ _, .exec n => [n]
  | _, _ => []

/-- The statements that begin during a schedule, in their order. -/
def beginnings : Session → List Event → List Node
  | _, [] => []
  | s, e :: es => s.beginning e ++ (s.happen e).beginnings es

lemma beginning_of_exec {e : Event} {p : Standing} {n n' : Node}
    (hc : s.machine.control = .boundary p n') (hn : (s.happen e).machine.control = .exec n) :
    s.beginning e = [n] := by
  simp only [beginning, hc, hn]

/-- Nothing begins but what stands at its boundary and comes to be executed. -/
lemma mem_beginning {e : Event} {n : Node} :
    n ∈ s.beginning e ↔
      (∃ p n', s.machine.control = .boundary p n') ∧ (s.happen e).machine.control = .exec n := by
  simp only [beginning]
  split
  · rename_i p n' n'' hc hn
    simp [hc, hn, eq_comm]
  · rename_i hnone
    simp only [List.not_mem_nil, false_iff, not_and]
    rintro ⟨p, n', hc⟩ hn
    exact hnone p n' n hc hn

lemma beginning_eq_nil {e : Event}
    (h : (∃ p n, s.machine.control = .boundary p n) →
      ∀ n, (s.happen e).machine.control ≠ .exec n) : s.beginning e = [] := by
  rw [List.eq_nil_iff_forall_not_mem]
  intro n hn
  obtain ⟨hc, hn⟩ := mem_beginning.mp hn
  exact h hc n hn

/-- Nothing begins while the run does not go on, and no statement comes to its boundary. -/
lemma beginning_aside {e : Event} (h : Aside s (s.happen e)) :
    s.beginning e = [] ∧ (s.happen e).machine.control.waiting ≤ s.machine.control.waiting := by
  generalize ht : s.happen e = t at h
  have hnil : (∀ n, t.machine.control ≠ .exec n) ∨ t.machine.control = s.machine.control →
      s.beginning e = [] := by
    intro hcases
    refine beginning_eq_nil ?_
    rintro ⟨p, n', hc⟩ n hn
    rw [ht] at hn
    rcases hcases with hexec | heq
    · exact hexec n hn
    · simp [heq, hc] at hn
  cases h with
  | controls c => exact ⟨hnil (.inr rfl), Nat.le_refl _⟩
  | release control => exact ⟨hnil (.inl (by rintro n ⟨⟩)), Nat.zero_le _⟩
  | falter c falters => exact ⟨hnil (.inl (by rintro n ⟨⟩)), Nat.zero_le _⟩

/-- Nothing begins with a command. -/
lemma beginning_command {e : Event} (he : e ≠ .step) : s.beginning e = [] := by
  refine (beginning_aside ?_).1
  rcases happen_cases s e with ⟨hgoes, -⟩ | ⟨-, haside⟩
  · simp [goesOn, he] at hgoes
  · exact haside

/-- If no statement reaches its boundary, one that begins or stands there afterwards stood there
before. -/
lemma beginning_le (hs : Sound s.machine) {e : Event}
    (hreach : s.goesOn e = true → ∀ n, s.machine.control ≠ .reach n) :
    (s.beginning e).length + (s.happen e).machine.control.waiting ≤
      s.machine.control.waiting := by
  rcases happen_cases s e with ⟨hgoes, heq⟩ | ⟨-, haside⟩
  · by_cases hboundary : ∃ p n, s.machine.control = .boundary p n
    · obtain ⟨p, n, hc⟩ := hboundary
      simp only [beginning, hc]
      split
      · rename_i hexec
        simp [hexec, Control.waiting]
      · cases hc' : (s.happen e).machine.control with
        | _ => simp [Control.waiting]
    · have hnil : s.beginning e = [] := beginning_eq_nil fun h => absurd h hboundary
      have hmove := proceed_move false hs
      have hnot := hmove.not_boundary (hreach hgoes) fun p n hc => hboundary ⟨p, n, hc⟩
      rw [hnil, heq]
      cases hc' : s.proceed.machine.control with
      | boundary p n => exact absurd hc' (hnot p n)
      | _ => simp [Control.waiting]
  · obtain ⟨hnil, hle⟩ := beginning_aside haside
    rw [hnil]
    simpa using hle

/-- A statement that reaches its boundary does not begin there and then.  It is counted, and fails
if the limit has been passed. -/
lemma counted_of_reach {n : Node} (hc : s.machine.control = .reach n) :
    s.machine.steps ≤ s.proceed.machine.steps ∧
      (s.proceed.machine.control.waiting = 0 ∨
        s.proceed.machine.control.waiting = 1 ∧
        s.proceed.machine.steps = s.machine.steps + 1 ∧
          ¬(0 < s.machine.maxSteps ∧ s.machine.maxSteps < s.machine.steps + 1)) := by
  have h := arrival_proceed hc
  generalize s.proceed = t at h ⊢
  cases h with
  | missing absent => exact ⟨Nat.le_refl _, .inl rfl⟩
  | excess present exceeded => exact ⟨Nat.le_succ _, .inl rfl⟩
  | told counted cancelled => exact ⟨Nat.le_succ _, .inl rfl⟩
  | admitted counted _ => exact ⟨Nat.le_succ _, .inr ⟨rfl, rfl, counted.within⟩⟩

/-! ### Runs within their limits -/

/-- A run that has begun `b` statements is within its limits: at most `k` statements begin and at
most `d` calls are in progress, where zero stands for no limit. -/
structure Limited (k d b : Nat) (s : Session) : Prop where
  under : Under k d s
  /-- Every statement that has begun, or waits to begin, has been counted. -/
  counted : b + s.machine.control.waiting ≤ s.machine.steps
  steps : 0 < k → b + s.machine.control.waiting ≤ k
  depth : 0 < d → s.machine.store.depth ≤ d + 1

/-- Statements are counted, and frames come to be on the stack, only when a run goes on. -/
lemma sameCounts_aside {t : Session} (h : Aside s t) :
    t.machine.steps = s.machine.steps ∧ t.machine.store = s.machine.store := by
  cases h with
  | controls c => exact ⟨rfl, rfl⟩
  | release control => exact ⟨rfl, rfl⟩
  | falter c falters => exact ⟨rfl, rfl⟩

/-- A run that goes on does not put more frames on the stack than it may. -/
lemma Limited.depth_proceed (h : Limited k d b s) (hs : Sound s.machine) (hpositive : 0 < d) :
    s.proceed.machine.store.depth ≤ d + 1 := by
  obtain ⟨-, hd⟩ := h.under.limits
  have hlimit := h.depth hpositive
  by_cases hcall : ∃ name args site, s.machine.control = .call name args site
  · obtain ⟨name, args, site, hn⟩ := hcall
    simp only [Session.proceed, hn]
    subst hd
    exact depth_call_le hlimit hpositive
  · simp only [not_exists] at hcall
    exact Nat.le_trans ((proceed_move false hs).depth_le hcall) hlimit

/-- No event takes a run past its limits. -/
theorem Limited.happen (h : Limited k d b s) (hs : Sound s.machine) (e : Event) :
    Limited k d (b + (s.beginning e).length) (s.happen e) := by
  have hunder : Under k d (s.happen e) := h.under.after [e]
  obtain ⟨hk, hd⟩ := h.under.limits
  have hcounted := h.counted
  have hsteps := h.steps
  by_cases hreach : s.goesOn e = true ∧ ∃ n, s.machine.control = .reach n
  · obtain ⟨hgoes, n, hn⟩ := hreach
    have heq : s.happen e = s.proceed :=
      ((happen_cases s e).resolve_right fun h => by simp [hgoes] at h).2
    have hnil : s.beginning e = [] := beginning_eq_nil (by simp [hn])
    have hnone : s.machine.control.waiting = 0 := by rw [hn]; rfl
    obtain ⟨hle, hwaiting⟩ := counted_of_reach hn
    rw [heq] at hunder
    rw [hnil, List.length_nil, Nat.add_zero, heq]
    refine ⟨hunder, ?_, fun hpositive => ?_, h.depth_proceed hs⟩
    · rcases hwaiting with hwaiting | ⟨hwaiting, hsucc, -⟩
      · omega
      · omega
    · have hlimit := hsteps hpositive
      rcases hwaiting with hwaiting | ⟨hwaiting, -, hroom⟩
      · omega
      · -- no more statements have begun than were counted, and the count is within the limit
        omega
  · have hreach : s.goesOn e = true → ∀ n, s.machine.control ≠ .reach n :=
      fun hgoes n hn => hreach ⟨hgoes, n, hn⟩
    have hle := beginning_le hs hreach
    refine ⟨hunder, ?_, fun hpositive => ?_, fun hpositive => ?_⟩
    · have hsame : (s.happen e).machine.steps = s.machine.steps := by
        rcases happen_cases s e with ⟨hgoes, heq⟩ | ⟨-, haside⟩
        · rw [heq]
          exact (proceed_move false hs).steps (hreach hgoes)
        · exact (sameCounts_aside haside).1
      omega
    · have hlimit := hsteps hpositive
      omega
    · rcases happen_cases s e with ⟨-, heq⟩ | ⟨-, haside⟩
      · rw [heq]
        exact h.depth_proceed hs hpositive
      · rw [(sameCounts_aside haside).2]
        exact h.depth hpositive

lemma Limited.after (h : Limited k d b s) (hs : Sound s.machine) (es : List Event) :
    Limited k d (b + (s.beginnings es).length) (s.after es) := by
  induction es generalizing s b with
  | nil => exact h
  | cons e es ih =>
      have hrest := ih (h.happen hs e) (sound_happen hs e)
      rwa [beginnings, List.length_append, ← Nat.add_assoc]

/-- The machine at the start of a run is within all limits. -/
lemma limited_launch {s₀ : Session} {program : Program} {l : Launch}
    (h : s₀.launch program l = .ok s) : Limited s₀.maxSteps s₀.maxDepth 0 s := by
  have hunder := under_launch h
  have hsound := sound_launch h
  obtain ⟨machine, hm, rfl⟩ := launch_eq_ok.mp h
  obtain ⟨functions, -, rfl⟩ := freshMachine_eq_ok hm
  refine ⟨hunder, Nat.zero_le _, fun _ => Nat.zero_le _, fun _ => ?_⟩
  have hdepth := (hsound.balanced (d := .completion) rfl).2
  rw [hdepth]
  simp [launched, height]

/-- **The limits of a run hold.**  Follow any schedule `es` from the start of a run with any host
functions, which may catch failures and make further calls.

* No more statements have begun than the limit on statements allows.
* No more frames are on the stack than the global one and those of the calls that the limit on calls
  allows.
* A call of a procedure with as many arguments as it has parameters fails there and then if all
  these frames are on the stack, and leaves everything else as it is.  Otherwise it enters the
  procedure. -/
theorem limits_hold {s₀ t : Session} {program : Program} {l : Launch}
    (ht : s₀.launch program l = .ok t) (es : List Event) :
    (0 < s₀.maxSteps → (t.beginnings es).length ≤ s₀.maxSteps) ∧
    (0 < s₀.maxDepth → (t.after es).machine.store.depth ≤ s₀.maxDepth + 1) ∧
    ∀ name args site params body, (t.after es).machine.control = .call name args site →
      Bindings.get? (t.after es).machine.functions name = some (.declared params body) →
      args.length = params.length →
      let m := (t.after es).machine
      let m' := (t.after es).step.machine
      let full := 0 < s₀.maxDepth ∧ m.store.depth = s₀.maxDepth + 1
      ((∃ f, m'.control = .fail (.fault f) ∧ f.kind = .callDepthExceeded ∧ f.span = site) ↔ full) ∧
        (full → m' = m.goto (.fail (m.noRoom name site))) ∧
        (¬ full → m'.control = .block body ∧ m'.store.depth = m.store.depth + 1) := by
  have hlimited := (limited_launch ht).after (sound_launch ht) es
  obtain ⟨hk, hd⟩ := hlimited.under.limits
  refine ⟨fun hpositive => ?_, hlimited.depth, ?_⟩
  · have hle := hlimited.steps hpositive
    omega
  · intro name args site params body hc hf hargs m m' full
    have hreachable : Reachable (t.after es) := ⟨s₀, program, l, t, es, ht, rfl⟩
    have hstep : m' = m.call name args site := by
      simp only [m', hreachable.step_eq (by rw [hc]; rfl), Session.proceed, hc]
      rfl
    rw [call_declared hf hargs] at hstep
    have hfull : (0 < m.maxDepth ∧ m.maxDepth < m.store.depth) ↔ full := by
      have hle := hlimited.depth
      simp only [m, full, hd]
      omega
    by_cases h : full
    · rw [if_pos (hfull.mpr h)] at hstep
      refine ⟨iff_of_true ⟨_, by rw [hstep]; rfl, rfl, rfl⟩ h, fun _ => hstep, fun hnot => ?_⟩
      exact absurd h hnot
    · rw [if_neg (mt hfull.mp h)] at hstep
      refine ⟨iff_of_false ?_ h, fun hyes => absurd hyes h, fun _ => ?_⟩
      · rintro ⟨f, hfail, -, -⟩
        simp [hstep] at hfail
      · rw [hstep]
        exact ⟨rfl, rfl⟩

/-- A host function that calls `f` twice, whatever comes of the calls. -/
def relentless : Native := fun _ =>
  .ask (.call "f" []) fun _ => .ask (.call "f" []) fun _ => .pure .nothing

/-- A program that calls it; the procedure `f` calls itself. -/
def bottomless : Program where
  statements := [.call (.point 1 1) (some ⟨.none, "RELENTLESS"⟩) []]
  procedures := [some (.of .none (some ⟨.none, "f"⟩) []
    (.of .none [.call (.point 3 3) (some ⟨.none, "f"⟩) []]))]

def relentlessLaunch : Launch where
  plugins := [{ functions := [("RELENTLESS", relentless)] }]

set_option maxRecDepth 1000 in
/-- The procedure has come to the limit once, and the host function has called it again.  Now five
statements have begun, the stack is full, and the next call fails. -/
theorem limits_hold_relentless :
    ∃ t s, launch { maxSteps := 5, maxDepth := 2 } bottomless relentlessLaunch = .ok t ∧
      s = t.after (.replicate 47 .step) ∧ s.machine.control = .call "f" [] (.point 3 3) ∧
      (t.beginnings (.replicate 47 .step)).length = 5 ∧ s.machine.store.depth = 3 ∧
      (t.beginnings (.replicate 47 .step)).length ≤ 5 ∧ s.machine.store.depth ≤ 3 ∧
      ∃ f, s.step.machine.control = .fail (.fault f) ∧ f.kind = .callDepthExceeded ∧
        f.span = .point 3 3 := by
  have ht : launch { maxSteps := 5, maxDepth := 2 } bottomless relentlessLaunch =
    .ok ((begun bottomless relentlessLaunch).withLimits 5 2) := rfl
  obtain ⟨hsteps, hdepth, hcall⟩ := limits_hold ht (.replicate 47 .step)
  obtain ⟨hfails, -, -⟩ := hcall "f" [] (.point 3 3) [] _ rfl rfl rfl
  exact ⟨_, _, ht, rfl, rfl, rfl, rfl, hsteps (by decide), hdepth (by decide),
    hfails.mpr ⟨by decide, rfl⟩⟩

end Session

end Pseudocode
