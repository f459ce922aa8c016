/-
# Host functions that keep away from the controls

A host function is aloof if it neither looks at the controls of the session nor touches them, and
never waits to be released.  It may use the console, the lists and the random numbers, and it may
call other functions and go on whatever comes of the call.  The builtin functions are aloof.

In a run whose host functions are aloof they are the only ones that can become active, since a
run neither makes functions nor exchanges them.

The main results are

* `Builtins.aloof_plugin`: the builtin functions are aloof;
* `Session.aloof_step`: a run with aloof host functions stays one.
-/
import Pseudocode.Proofs.Conduct

namespace Pseudocode

/-- Whether a request has nothing to do with the controls. -/
def Request.isAloof : Request → Bool
  | .cancelled | .stop | .resume _ | .status | .snapshot | .speed | .setSpeed _ | .hold => false
  | _ => true

/-- All requests have nothing to do with the controls, whatever the answers. -/
inductive Action.Aloof {α : Type} : Action α → Prop where
  | pure (a : α) : Aloof (.pure a)
  | fail (e : Failure) : Aloof (.fail e)
  | crash (text : String) : Aloof (.crash text)
  | ask {q : Request} {next : q.Answer → Action α} (hq : q.isAloof = true)
      (h : ∀ answer, Aloof (next answer)) : Aloof (.ask q next)

lemma Request.isAloof_of_isLeaf {q : Request} (h : q.isLeaf = true) : q.isAloof = true := by
  cases q <;> simp_all [isLeaf, isAloof]

lemma Action.Leaf.aloof {α : Type} {a : Action α} (h : a.Leaf) : a.Aloof := by
  induction h with
  | pure v => exact .pure v
  | fail e => exact .fail e
  | crash text => exact .crash text
  | ask hq _ ih => exact .ask (Request.isAloof_of_isLeaf hq) ih

/-- A function of the host is aloof with all arguments. -/
def Native.Aloof (f : Native) : Prop := ∀ args, (f args).Aloof

/-- The functions of a plugin are aloof. -/
def Plugin.Aloof (p : Plugin) : Prop := ∀ f ∈ p.functions, Native.Aloof f.2

/-- The builtin functions are aloof. -/
theorem Builtins.aloof_plugin : plugin.Aloof := by
  intro f hf args
  exact (leaf_plugin f hf args).aloof

/-! ### The functions of a run -/

/-- A function is a procedure of the program, or an aloof function of the host. -/
def Function.Aloof : Function → Prop
  | .host _ f => Native.Aloof f
  | .declared _ _ => True

/-- All functions are aloof. -/
def Registry.Aloof (r : Registry) : Prop := ∀ e ∈ r.entries, e.2.Aloof

/-- The host function that acts is aloof, and none waits to be released. -/
def Control.Aloof : Control → Prop
  | .host _ a => a.Aloof
  | .held _ _ => False
  | _ => True

/-- A host function that waits for the result of a call goes on aloof. -/
def Pending.Aloof : Pending → Prop
  | .reenter _ _ next => ∀ r, (next r).Aloof
  | _ => True

lemma Control.Leaf.aloof {c : Control} (h : c.Leaf) : c.Aloof := by
  cases c with
  | host _ _ => exact Action.Leaf.aloof h
  | held _ _ => exact h
  | _ => trivial

namespace Machine

/-- All host functions of a run are aloof: those that can be called, the one that acts and those
that wait. -/
structure Aloof (m : Machine) : Prop where
  functions : m.functions.Aloof
  control : m.control.Aloof
  pending : ∀ p ∈ m.pending, p.Aloof

end Machine

/-! ### A lasting property -/

lemma lasting_aloof : Lasting Action.Aloof := by
  intro q next h
  cases h with
  | ask _ hnext => exact hnext

lemma Function.abides_aloof (f : Function) : f.Abides Action.Aloof ↔ f.Aloof := by
  cases f with
  | host arity body => rfl
  | declared params body => rfl

lemma Control.abides_aloof (c : Control) : c.Abides Action.Aloof ↔ c.Aloof := by
  cases c with
  | held site next =>
      -- an aloof host function does not ask to be held
      refine ⟨fun h => ?_, False.elim⟩
      cases h with
      | ask hq _ => simp [Request.isAloof] at hq
  | _ => rfl

lemma Pending.abides_aloof (p : Pending) : p.Abides Action.Aloof ↔ p.Aloof := by
  cases p with
  | _ => rfl

lemma Machine.abides_aloof {m : Machine} : m.Abides Action.Aloof ↔ m.Aloof := by
  constructor
  · rintro ⟨hfunctions, hcontrol, hpending⟩
    exact ⟨fun e he => (Function.abides_aloof e.2).mp (hfunctions e he),
      (Control.abides_aloof _).mp hcontrol, fun p hp => (Pending.abides_aloof p).mp (hpending p hp)⟩
  · rintro ⟨hfunctions, hcontrol, hpending⟩
    exact ⟨fun e he => (Function.abides_aloof e.2).mpr (hfunctions e he),
      (Control.abides_aloof _).mpr hcontrol,
      fun p hp => (Pending.abides_aloof p).mpr (hpending p hp)⟩

namespace Session

open Machine

variable {s : Session}

lemma aloof_proceed (hs : Sound s.machine) (h : Aloof s.machine) : Aloof s.proceed.machine :=
  abides_aloof.mp (abides_proceed lasting_aloof hs (abides_aloof.mpr h))

/-- A run with aloof host functions stays one. -/
theorem aloof_step (hs : Sound s.machine) (h : Aloof s.machine) : Aloof s.step.machine :=
  abides_aloof.mp (abides_step lasting_aloof hs (abides_aloof.mpr h))

lemma aloof_launch {s₀ : Session} {program : Program} {l : Launch}
    (hl : ∀ p ∈ l.plugins, p.Aloof) (h : s₀.launch program l = .ok s) : Aloof s.machine := by
  have hfunctions := all_functions_launch (P := Function.Aloof) hl (fun _ _ _ => trivial) h
  obtain ⟨machine, hm, rfl⟩ := launch_eq_ok.mp h
  obtain ⟨functions, -, rfl⟩ := freshMachine_eq_ok hm
  exact ⟨hfunctions, trivial, List.forall_mem_cons.mpr ⟨trivial, by simp⟩⟩

end Session

end Pseudocode
