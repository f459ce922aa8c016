/-
# What host functions do, all through a run

What a host function does is fixed when it is called, but for the answers to its requests.  So a
property of actions that no answer takes away holds of all host functions in a run, if it holds of
those that can be called: of the one that acts or waits to be released, and of those that wait for
the result of a call.

The main results are

* `Session.abides_step`: a step keeps the host functions to such a property;
* `Session.Reachable.abides`: in a run they keep to it at every moment, if its functions do.
-/
import Pseudocode.Proofs.Leaf

namespace Pseudocode

/-- No answer takes the property away. -/
def Lasting (A : Action Value → Prop) : Prop :=
  ∀ (q : Request) (next : q.Answer → Action Value), A (.ask q next) → ∀ answer, A (next answer)

variable {A : Action Value → Prop}

/-- A function is a procedure of the program, or one of the host with the property. -/
def Function.Abides (A : Action Value → Prop) : Function → Prop
  | .host _ f => ∀ args, A (f args)
  | .declared _ _ => True

/-- The host function that acts has the property, and so has one that waits to be released. -/
def Control.Abides (A : Action Value → Prop) : Control → Prop
  | .host _ a => A a
  | .held _ next => A (.ask .hold fun _ => next)
  | _ => True

/-- A host function that waits for the result of a call has the property. -/
def Pending.Abides (A : Action Value → Prop) : Pending → Prop
  | .reenter _ _ next => ∀ answer, A (next answer)
  | _ => True

lemma Control.abides_of_plain {c : Control} {d : Due} (h : c.plain? = some d) : c.Abides A := by
  cases c with
  | host _ _ | held _ _ => simp [plain?] at h
  | _ => trivial

lemma Pending.abides_of_isPlain {p : Pending} (h : p.isPlain = true) : p.Abides A := by
  cases p with
  | reenter _ _ _ => simp [isPlain] at h
  | _ => trivial

namespace Machine

/-- All host functions of a run have the property: those that can be called, the one that acts and
those that wait. -/
structure Abides (A : Action Value → Prop) (m : Machine) : Prop where
  functions : m.functions.All (Function.Abides A)
  control : m.control.Abides A
  pending : ∀ p ∈ m.pending, p.Abides A

variable {fragile : Bool} {m m' : Machine}

lemma Abides.mono {A' : Action Value → Prop} (h : Abides A m) (hA : ∀ a, A a → A' a) :
    Abides A' m := by
  refine ⟨fun e he => ?_, ?_, fun p hp => ?_⟩
  · have hf := h.functions e he
    cases hfun : e.2 with
    | host arity f =>
        rw [hfun] at hf
        exact fun args => hA _ (hf args)
    | declared params body => trivial
  · have hcontrol := h.control
    cases hc : m.control with
    | host site a =>
        rw [hc] at hcontrol
        exact hA _ hcontrol
    | held site next =>
        rw [hc] at hcontrol
        exact hA _ hcontrol
    | _ => trivial
  · have hpending := h.pending p hp
    cases p with
    | reenter site depth next => exact fun answer => hA _ (hpending answer)
    | _ => trivial

lemma Plain.abides {d : Due} (h : Plain d m m') (hpending : ∀ p ∈ m.pending, p.Abides A) :
    m'.control.Abides A ∧ ∀ p ∈ m'.pending, p.Abides A := by
  cases h.shape with
  | fails control _ pending => exact ⟨by rw [control]; trivial, pending ▸ hpending⟩
  | goes control pending => exact ⟨Control.abides_of_plain control, pending ▸ hpending⟩
  | awaits plain _ control pending =>
      refine ⟨Control.abides_of_plain control, ?_⟩
      rw [pending]
      exact List.forall_mem_cons.mpr ⟨Pending.abides_of_isPlain plain, hpending⟩

lemma abides_of_passes {n : Node} {c : Control} (h : passes n c) : c.Abides A := by
  cases c with
  | host _ _ | held _ _ => exact h.elim
  | _ => trivial

/-- A move keeps the host functions to a lasting property, unless it answers a request. -/
lemma Move.abides (hA : Lasting A) (h : Move fragile m m') (hm : Abides A m)
    (haction : m.control.due? = some .action → m'.control.Abides A) : Abides A m' := by
  have hfunctions : m'.functions.All (Function.Abides A) := h.functions ▸ hm.functions
  have hpending := hm.pending
  have hpush : ∀ {p : Pending}, p.Abides A → ∀ q ∈ p :: m.pending, q.Abides A :=
    fun hp => List.forall_mem_cons.mpr ⟨hp, hpending⟩
  have htail : ∀ {p : Pending} {rest : List Pending}, m.pending = p :: rest →
      p.Abides A ∧ ∀ q ∈ rest, q.Abides A := by
    intro p rest heq
    rw [heq] at hpending
    exact List.forall_mem_cons.mp hpending
  suffices hrest : m'.control.Abides A ∧ ∀ p ∈ m'.pending, p.Abides A from
    ⟨hfunctions, hrest.1, hrest.2⟩
  cases h with
  | stay _ => exact ⟨hm.control, hpending⟩
  | plain _ h => exact h.abides hpending
  | task pending _ _ _ h => exact h.abides (htail pending).2
  | reach _ hc => exact ⟨abides_of_passes hc, hpush trivial⟩
  | breakdown _ _ => exact ⟨trivial, hpending⟩
  | pass _ hc => exact ⟨abides_of_passes hc, hpending⟩
  | leave _ pending => exact ⟨trivial, (htail pending).2⟩
  | enter _ => exact ⟨trivial, hpush trivial⟩
  | exit _ pending => exact ⟨trivial, (htail pending).2⟩
  | enterHost _ body =>
      obtain ⟨arity, f, hf, rfl⟩ := body
      exact ⟨hm.functions.get hf _, hpush trivial⟩
  | outcome control _ => exact ⟨haction (by rw [control]; rfl), hpending⟩
  | request control _ keeps => exact ⟨haction control, keeps.pending ▸ hpending⟩
  | reenter control =>
      have hcall := hm.control
      rw [control] at hcall
      exact ⟨trivial, hpush (hA _ _ hcall)⟩
  | answer _ pending => exact ⟨(htail pending).1 _, (htail pending).2⟩
  | exitHost _ pending => exact ⟨trivial, (htail pending).2⟩
  | unwind _ pending _ _ => exact ⟨trivial, (htail pending).2⟩
  | unwindHost _ pending => exact ⟨trivial, (htail pending).2⟩
  | hand _ pending => exact ⟨(htail pending).1 _, (htail pending).2⟩
  | collapse _ pending _ => exact ⟨trivial, (htail pending).2⟩
  | collapseHost _ pending => exact ⟨trivial, (htail pending).2⟩
  | finish _ _ control' keeps => exact ⟨by rw [control']; trivial, keeps.pending ▸ hpending⟩
  | close _ => exact ⟨trivial, hpending⟩

end Machine

namespace Session

open Machine

variable {s : Session}

/-- What a host function does next has the property. -/
lemma abides_act (hA : Lasting A) {site : Span} {a : Action Value}
    (hc : s.machine.control = .host site a) (ha : A a) : s.proceed.machine.control.Abides A := by
  simp only [Session.proceed, hc]
  cases a with
  | pure v => trivial
  | fail e => trivial
  | crash text => trivial
  | ask q next =>
      have hnext := hA q next ha
      cases q with
      | call name args => trivial
      | hold => exact ha
      | resume stepping =>
          simp only [act, perform]
          split
          · exact hnext true
          · exact hnext false
      | _ => exact hnext _

/-- What a run goes on with keeps the host functions to a lasting property. -/
lemma abides_proceed (hA : Lasting A) (hs : Sound s.machine) (h : Abides A s.machine) :
    Abides A s.proceed.machine := by
  refine (proceed_move false hs).abides hA h fun hdue => ?_
  have hcontrol := h.control
  cases hc : s.machine.control with
  | host site a =>
      rw [hc] at hcontrol
      exact abides_act hA hc hcontrol
  | held site next =>
      simp only [Session.proceed, hc]
      rwa [hc] at hcontrol
  | _ => simp [hc, Control.due?] at hdue

/-- A step keeps the host functions to a lasting property. -/
theorem abides_step (hA : Lasting A) (hs : Sound s.machine) (h : Abides A s.machine) :
    Abides A s.step.machine :=
  machine_step h (abides_proceed hA hs h) fun _ _ => ⟨h.functions, trivial, h.pending⟩

lemma abides_happen (hA : Lasting A) (hs : Sound s.machine) (h : Abides A s.machine) (e : Event) :
    Abides A (s.happen e).machine := by
  by_cases he : e = .step
  · rw [he]
    exact abides_step hA hs h
  · rcases happen_command s he with heq | ⟨site, next, hheld, heq⟩
    · rw [heq]
      exact h
    · have hcontrol := h.control
      rw [hheld] at hcontrol
      rw [heq]
      exact ⟨h.functions, hA _ _ hcontrol (), h.pending⟩

lemma abides_after (hA : Lasting A) (hs : Sound s.machine) (h : Abides A s.machine)
    (es : List Event) : Abides A (s.after es).machine :=
  sound_induction (P := fun s => Abides A s.machine)
    (fun _ e hs h => abides_happen hA hs h e) hs h es

/-- No event makes functions or exchanges them. -/
lemma functions_happen (hs : Sound s.machine) (e : Event) :
    (s.happen e).machine.functions = s.machine.functions := by
  rcases happen_move hs e with h | h
  · exact h.functions
  · rw [h]

lemma functions_after (hs : Sound s.machine) (es : List Event) :
    (s.after es).machine.functions = s.machine.functions :=
  sound_induction (P := fun t => t.machine.functions = s.machine.functions)
    (fun _ e ht h => (functions_happen ht e).trans h) hs rfl es

/-- In a run all host functions have a lasting property, if its functions do. -/
theorem Reachable.abides (hA : Lasting A) (h : s.Reachable)
    (hfunctions : s.machine.functions.All (Function.Abides A)) : Abides A s.machine := by
  obtain ⟨s₀, program, l, t, es, ht, rfl⟩ := h
  have hstart : Abides A t.machine := by
    rw [functions_after (sound_launch ht)] at hfunctions
    obtain ⟨machine, hm, rfl⟩ := launch_eq_ok.mp ht
    obtain ⟨functions, -, rfl⟩ := freshMachine_eq_ok hm
    exact ⟨hfunctions, trivial, List.forall_mem_cons.mpr ⟨trivial, by simp⟩⟩
  exact abides_after hA (sound_launch ht) hstart es

end Session

end Pseudocode
