/-
# Host functions that call nothing

A host function is a leaf if it uses the console, the lists and the random numbers and nothing
else: it keeps away from the controls, never waits, and calls no function.  The builtin functions
are leaves.

In a run whose host functions are leaves no failure is ever caught, since a failure comes to a
host function only through a call that it has made.

The main results are

* `Builtins.leaf_plugin`: the builtin functions are leaves;
* `Session.leaf_step`: a run whose host functions are leaves stays one.
-/
import Pseudocode.Host.Builtins
import Pseudocode.Proofs.Moves

namespace Pseudocode

/-- Whether a request concerns the console, the lists, the random numbers or the place of the call
only. -/
def Request.isLeaf : Request → Bool
  | .write _ | .display _ | .prompt _ | .heap | .make _ | .push _ _ | .insert _ _ _ | .erase _ _
  | .draw _ | .site | .output => true
  | _ => false

/-- All requests are those of a leaf, whatever the answers. -/
inductive Action.Leaf {α : Type} : Action α → Prop where
  | pure (a : α) : Leaf (.pure a)
  | fail (e : Failure) : Leaf (.fail e)
  | crash (text : String) : Leaf (.crash text)
  | ask {q : Request} {next : q.Answer → Action α} (hq : q.isLeaf = true)
      (h : ∀ answer, Leaf (next answer)) : Leaf (.ask q next)

lemma Action.Leaf.bind {α β : Type} {a : Action α} {f : α → Action β} (ha : a.Leaf)
    (hf : ∀ v, (f v).Leaf) : (a.bind f).Leaf := by
  induction ha with
  | pure v => exact hf v
  | fail e => exact .fail e
  | crash text => exact .crash text
  | ask hq _ ih => exact .ask hq ih

/-- A function of the host is a leaf with all arguments. -/
def Native.Leaf (f : Native) : Prop := ∀ args, (f args).Leaf

/-- The functions of a plugin are leaves. -/
def Plugin.Leaf (p : Plugin) : Prop := ∀ f ∈ p.functions, Native.Leaf f.2

/-! ### The builtin functions -/

namespace Builtins

lemma leaf_fault (kind : FaultKind) (detail : String) :
    (Action.fault kind detail : Action Value).Leaf :=
  .ask rfl fun _ => .fail _

lemma leaf_withList (name what : String) (args : List Value)
    {next : ListId → List Value → Action Value} (h : ∀ id rest, (next id rest).Leaf) :
    (withList name what args next).Leaf := by
  unfold withList
  split
  · exact h _ _
  · exact leaf_fault _ _

lemma leaf_display : Native.Leaf display := by
  intro args
  refine .ask rfl fun h => .ask rfl fun e => ?_
  refine Action.Leaf.bind ?_ fun _ => .pure _
  cases e with
  | none => exact .pure _
  | some e => exact .fail _

lemma leaf_input : Native.Leaf input := by
  intro args
  refine .ask rfl fun h => .ask rfl fun line => ?_
  cases line with
  | ok line => exact .pure _
  | error e => exact .fail _

lemma leaf_random : Native.Leaf random := by
  intro args
  unfold random
  split
  · split
    · exact .fail _
    · exact .ask rfl fun k => .pure _
  · exact leaf_fault _ _

lemma leaf_length : Native.Leaf length := by
  intro args
  exact leaf_withList _ _ _ fun id _ => .ask rfl fun h => .pure _

lemma leaf_append : Native.Leaf append := by
  intro args
  refine leaf_withList _ _ _ fun id rest => ?_
  cases rest with
  | nil => exact .fail _
  | cons v _ => exact .ask rfl fun _ => .pure _

lemma leaf_insert : Native.Leaf insert := by
  intro args
  refine leaf_withList _ _ _ fun id rest => ?_
  cases rest with
  | nil => exact .fail _
  | cons p rest =>
      refine .ask rfl fun h => ?_
      split
      · exact leaf_fault _ _
      · exact .fail _
      · exact .ask rfl fun _ => .pure _

lemma leaf_remove : Native.Leaf remove := by
  intro args
  refine leaf_withList _ _ _ fun id rest => ?_
  cases rest with
  | nil => exact .fail _
  | cons p rest =>
      refine .ask rfl fun h => ?_
      split
      · exact leaf_fault _ _
      · exact .ask rfl fun _ => .pure _

/-- The builtin functions are leaves. -/
theorem leaf_plugin : plugin.Leaf := by
  intro f hf
  simp only [plugin, List.mem_cons, List.not_mem_nil, or_false] at hf
  rcases hf with rfl | rfl | rfl | rfl | rfl | rfl | rfl
  · exact leaf_display
  · exact leaf_input
  · exact leaf_random
  · exact leaf_length
  · exact leaf_append
  · exact leaf_insert
  · exact leaf_remove

end Builtins

/-! ### The functions of a run -/

namespace Bindings

variable {α : Type} {name : String} {v : α}

lemma mem_of_find? {l : List (String × α)} (h : find? name l = some v) : (name, v) ∈ l := by
  induction l with
  | nil => simp [find?] at h
  | cons e l ih =>
      simp only [find?] at h
      split at h
      · rename_i hname
        simp only [Option.some.injEq] at h
        simp [← h, ← hname]
      · exact List.mem_cons_of_mem _ (ih h)

lemma mem_of_mem_place {e : String × α} {l : List (String × α)} (h : e ∈ place name v l) :
    e = (name, v) ∨ e ∈ l := by
  induction l with
  | nil => exact .inl (by simpa [place] using h)
  | cons e' l ih =>
      simp only [place] at h
      split at h
      · rcases List.mem_cons.mp h with h | h
        · exact .inl h
        · exact .inr (List.mem_cons_of_mem _ h)
      · split at h
        · rcases List.mem_cons.mp h with h | h
          · exact .inl h
          · exact .inr h
        · rcases List.mem_cons.mp h with h | h
          · exact .inr (h ▸ List.mem_cons_self)
          · exact (ih h).imp_right (List.mem_cons_of_mem _)

variable {P : α → Prop} {b : Bindings α}

/-- What holds of everything that is bound still does after another binding of this sort. -/
lemma forall_mem_insert (h : ∀ e ∈ b.entries, P e.2) (hv : P v) :
    ∀ e ∈ (b.insert name v).entries, P e.2 := by
  intro e he
  rcases mem_of_mem_place he with rfl | he
  · exact hv
  · exact h e he

lemma forall_mem_insertAll (h : ∀ e ∈ b.entries, P e.2) {entries : List (String × α)}
    (hall : ∀ e ∈ entries, P e.2) : ∀ e ∈ (b.insertAll entries).entries, P e.2 := by
  induction entries generalizing b with
  | nil => exact h
  | cons e entries ih =>
      have hhead : P e.2 := hall e List.mem_cons_self
      exact ih (forall_mem_insert h hhead) fun e' he' => hall e' (List.mem_cons_of_mem _ he')

end Bindings

namespace Registry

/-- All functions are of one sort. -/
def All (P : Function → Prop) (r : Registry) : Prop := ∀ e ∈ r.entries, P e.2

variable {P : Function → Prop} {r r' : Registry}

lemma All.get {name : String} {f : Function} (h : All P r) (hf : Bindings.get? r name = some f) :
    P f :=
  h _ (Bindings.mem_of_find? hf)

lemma All.insert (h : All P r) {name : String} {f : Function} (hf : P f) :
    All P (Bindings.insert r name f) :=
  Bindings.forall_mem_insert h hf

lemma All.insertAll (h : All P r) {entries : List (String × Function)}
    (hall : ∀ e ∈ entries, P e.2) : All P (Bindings.insertAll r entries) :=
  Bindings.forall_mem_insertAll h hall

lemma All.addFunctions (h : All P r) {plugins : List Plugin}
    (hall : ∀ p ∈ plugins, ∀ f ∈ p.functions, P (.host (-1) f.2)) :
    All P (Plugin.addFunctions plugins r) := by
  induction plugins generalizing r with
  | nil => exact h
  | cons p plugins ih =>
      refine ih (h.insertAll ?_) fun p' hp' => hall p' (List.mem_cons_of_mem _ hp')
      intro e he
      obtain ⟨f, hf, rfl⟩ := List.mem_map.mp he
      exact hall p List.mem_cons_self f hf

lemma All.declare (h : All P r) {p : Option Procedure}
    (hp : ∀ q, p = some q → ∀ params, P (.declared params q.body))
    (hr : Registry.declare r p = .ok r') : All P r' := by
  unfold Registry.declare at hr
  split at hr
  · simp at hr
  · split at hr
    · rw [← Except.ok.inj hr]
      exact h.insert (hp _ rfl _)
    · simp at hr
  · simp at hr

/-- The functions of a run are of one sort, if those of the host and the procedures of the program
are. -/
lemma All.declareAll (h : All P r) {procedures : List (Option Procedure)}
    (hall : ∀ q, some q ∈ procedures → ∀ params, P (.declared params q.body))
    (hr : Registry.declareAll r procedures = .ok r') : All P r' := by
  induction procedures generalizing r with
  | nil => exact Except.ok.inj hr ▸ h
  | cons p procedures ih =>
      simp only [Registry.declareAll, List.foldlM_cons] at hr
      cases hp : Registry.declare r p with
      | error f => simp [hp, bind, Except.bind] at hr
      | ok r'' =>
          rw [hp] at hr
          refine ih (h.declare ?_ hp) (fun q hq => hall q (List.mem_cons_of_mem _ hq)) hr
          rintro q rfl
          exact hall q List.mem_cons_self

end Registry

/-- The functions of a run are all of one sort, if those of its plugins and the procedures of its
program are. -/
lemma Session.all_functions_launch {P : Function → Prop} {s₀ s : Session} {program : Program}
    {l : Launch} (hhost : ∀ p ∈ l.plugins, ∀ f ∈ p.functions, P (.host (-1) f.2))
    (hdeclared : ∀ q, some q ∈ program.procedures → ∀ params, P (.declared params q.body))
    (h : s₀.launch program l = .ok s) : s.machine.functions.All P := by
  obtain ⟨machine, hm, rfl⟩ := launch_eq_ok.mp h
  obtain ⟨functions, hf, rfl⟩ := freshMachine_eq_ok hm
  have hempty : Registry.All P {} := by simp [Registry.All]
  exact (hempty.addFunctions hhost).declareAll hdeclared hf

/-- A function is a procedure of the program, or a leaf of the host. -/
def Function.Leaf : Function → Prop
  | .host _ f => Native.Leaf f
  | .declared _ _ => True

/-- The host function that acts is a leaf, and none waits to be released. -/
def Control.Leaf : Control → Prop
  | .host _ a => a.Leaf
  | .held _ _ => False
  | _ => True

lemma Control.leaf_of_plain {c : Control} {d : Due} (h : c.plain? = some d) : c.Leaf := by
  cases c with
  | host _ _ | held _ _ => simp [plain?] at h
  | _ => trivial

namespace Machine

/-- All host functions of a run are leaves, and none waits for the result of a call. -/
structure Leaf (m : Machine) : Prop where
  functions : m.functions.All Function.Leaf
  control : m.control.Leaf
  pending : ∀ p ∈ m.pending, p.yields ≠ .action

variable {fragile : Bool} {m m' : Machine}

/-- No move makes functions or exchanges them. -/
lemma Move.functions (h : Move fragile m m') : m'.functions = m.functions := by
  cases h with
  | plain _ h => exact h.functions
  | task _ _ _ _ h => exact h.functions
  | request _ _ keeps => exact keeps.functions
  | finish _ _ _ keeps => exact keeps.functions
  | _ => rfl

lemma Plain.leaf {d : Due} (h : Plain d m m') (hpending : ∀ p ∈ m.pending, p.yields ≠ .action) :
    m'.control.Leaf ∧ ∀ p ∈ m'.pending, p.yields ≠ .action := by
  cases h.shape with
  | fails control _ pending => exact ⟨by rw [control]; trivial, pending ▸ hpending⟩
  | goes control pending => exact ⟨Control.leaf_of_plain control, pending ▸ hpending⟩
  | awaits plain _ control pending =>
      refine ⟨Control.leaf_of_plain control, ?_⟩
      rw [pending]
      exact List.forall_mem_cons.mpr ⟨Pending.yields_ne_action plain, hpending⟩

lemma leaf_of_passes {n : Node} {c : Control} (h : passes n c) : c.Leaf := by
  cases c with
  | host _ _ | held _ _ => exact h.elim
  | _ => trivial

/-- A move keeps the host functions leaves, unless it answers a request. -/
lemma Move.leaf (h : Move fragile m m') (hm : Leaf m)
    (haction : m.control.due? = some .action → m'.control.Leaf) : Leaf m' := by
  have hfunctions : m'.functions.All Function.Leaf := h.functions ▸ hm.functions
  have hpending := hm.pending
  have hpush : ∀ {p : Pending}, p.yields ≠ .action → ∀ q ∈ p :: m.pending, q.yields ≠ .action :=
    fun hp => List.forall_mem_cons.mpr ⟨hp, hpending⟩
  have htail : ∀ {p : Pending} {rest : List Pending}, m.pending = p :: rest →
      p.yields ≠ .action ∧ ∀ q ∈ rest, q.yields ≠ .action := by
    intro p rest heq
    rw [heq] at hpending
    exact List.forall_mem_cons.mp hpending
  suffices hrest : m'.control.Leaf ∧ ∀ p ∈ m'.pending, p.yields ≠ .action from
    ⟨hfunctions, hrest.1, hrest.2⟩
  cases h with
  | stay _ => exact ⟨hm.control, hpending⟩
  | plain _ h => exact h.leaf hpending
  | task pending _ _ _ h => exact h.leaf (htail pending).2
  | reach _ hc => exact ⟨leaf_of_passes hc, hpush (by simp [Pending.yields])⟩
  | breakdown _ _ => exact ⟨trivial, hpending⟩
  | pass _ hc => exact ⟨leaf_of_passes hc, hpending⟩
  | leave _ pending => exact ⟨trivial, (htail pending).2⟩
  | enter _ => exact ⟨trivial, hpush (by simp [Pending.yields])⟩
  | exit _ pending => exact ⟨trivial, (htail pending).2⟩
  | enterHost _ body =>
      obtain ⟨arity, f, hf, rfl⟩ := body
      exact ⟨hm.functions.get hf _, hpush (by simp [Pending.yields])⟩
  | outcome control _ => exact ⟨haction (by rw [control]; rfl), hpending⟩
  | request control _ keeps => exact ⟨haction control, keeps.pending ▸ hpending⟩
  | reenter control =>
      -- a leaf makes no calls
      have hcall := hm.control
      rw [control] at hcall
      cases hcall with
      | ask hq _ => simp [Request.isLeaf] at hq
  | answer _ pending => exact absurd rfl (htail pending).1
  | exitHost _ pending => exact ⟨trivial, (htail pending).2⟩
  | unwind _ pending _ _ => exact ⟨trivial, (htail pending).2⟩
  | unwindHost _ pending => exact ⟨trivial, (htail pending).2⟩
  | hand _ pending => exact absurd rfl (htail pending).1
  | collapse _ pending _ => exact ⟨trivial, (htail pending).2⟩
  | collapseHost _ pending => exact ⟨trivial, (htail pending).2⟩
  | finish _ _ control' keeps => exact ⟨by rw [control']; trivial, keeps.pending ▸ hpending⟩
  | close _ => exact ⟨trivial, hpending⟩

end Machine

namespace Session

open Machine

variable {s : Session}

/-- A leaf that acts is followed by its outcome, or by what it does with an answer. -/
lemma leaf_act {site : Span} {a : Action Value} (hc : s.machine.control = .host site a)
    (ha : a.Leaf) : s.proceed.machine.control.Leaf := by
  simp only [Session.proceed, hc]
  cases ha with
  | pure v => trivial
  | fail e => trivial
  | crash text => trivial
  | @ask q next hq hnext =>
      cases q with
      | call _ _ | cancelled | stop | resume _ | status | snapshot | speed | setSpeed _ | hold =>
          simp [Request.isLeaf] at hq
      | _ => exact hnext _

/-- A run whose host functions are leaves stays one when it goes on. -/
lemma leaf_proceed (hs : Sound s.machine) (h : Leaf s.machine) : Leaf s.proceed.machine := by
  refine (proceed_move false hs).leaf h fun hdue => ?_
  have hcontrol := h.control
  cases hc : s.machine.control with
  | host site a =>
      rw [hc] at hcontrol
      exact leaf_act hc hcontrol
  | held _ _ => simp [hc, Control.Leaf] at hcontrol
  | _ => simp [hc, Control.due?] at hdue

/-- A run whose host functions are leaves stays one. -/
theorem leaf_step (hs : Sound s.machine) (h : Leaf s.machine) : Leaf s.step.machine :=
  machine_step h (leaf_proceed hs h) fun _ _ => ⟨h.functions, trivial, h.pending⟩

lemma leaf_launch {s₀ : Session} {program : Program} {l : Launch}
    (hl : ∀ p ∈ l.plugins, p.Leaf) (h : s₀.launch program l = .ok s) : Leaf s.machine := by
  have hfunctions := all_functions_launch (P := Function.Leaf) hl (fun _ _ _ => trivial) h
  obtain ⟨machine, hm, rfl⟩ := launch_eq_ok.mp h
  obtain ⟨functions, -, rfl⟩ := freshMachine_eq_ok hm
  exact ⟨hfunctions, trivial, List.forall_mem_cons.mpr ⟨by simp [Pending.yields], by simp⟩⟩

end Session

end Pseudocode
