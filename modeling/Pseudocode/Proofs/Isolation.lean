/-
# Isolation of runs

A session runs one program after another.  Nothing of an earlier run reaches a later one: the later
run gets copies of the host's variables, makes lists of its own above all lists that there are, and
the controls are set anew.  So it does what it would do if there were no other lists, and the same
holds in a new session, in which there are the host's lists only.  The two runs are alike except for
the identities of lists.  The delay between statements is no part of a run and stays as it was set
last; a run in a session with another delay is alike except for the time it takes.

The lists that a run finds when it begins stay as they are, in particular those of the host.  This
holds with any honest host functions.  Such functions may do one thing in one run and another thing
in the next, so the runs before have any honest ones, and the run that is compared has the builtin
ones.

The main results are

* `Session.parallel_launch`: the beginning of a run in a session with a past goes in parallel with
  the beginning of the run without other lists;
* `Session.extends_run`: a run with honest host functions leaves the lists that it finds;
* `Session.runs_isolated`: a run in a session with a past is like the run in a new session, and
  leaves the lists that it found as they are.
-/
import Mathlib.Logic.Relator
import Pseudocode.Proofs.Delays
import Pseudocode.Proofs.Enclosure
import Pseudocode.Proofs.Parallel
import Pseudocode.Proofs.Preservation

namespace Pseudocode

open Machine

/-! ### Copies of the host's variables -/

namespace Plugin

/-- Binds a copy of a variable in the global frame of a run whose lists are its own; the variable
holds lists of `h₀`. -/
def adoptCopy (h₀ : Heap) (state : Store × Heap) (var : String × Value) : Store × Heap :=
  let (v, heap) := h₀.adopt state.2 var.2
  (state.1.bindGlobal var.1 v, heap)

/-- Binds copies of the variables of plugins in the global frame of a run whose lists are its own and
grow in the given way. -/
def adoptVars (slack : Nat → Nat) (h₀ : Heap) (plugins : List Plugin) : Store × Heap :=
  (plugins.flatMap (·.vars)).foldl (adoptCopy h₀) (.empty, { slack })

variable {h h₀ : Heap}

lemma bindCopy_above (hx : h.Extends h₀) (hw : h₀.WellFormed) (store : Store) (g : Heap)
    {var : String × Value} (hv : h₀.Knows var.2) :
    bindCopy (store.above h, g.above h) var =
      ((adoptCopy h₀ (store, g) var).1.above h, (adoptCopy h₀ (store, g) var).2.above h) := by
  simp only [bindCopy, adoptCopy, Heap.clone_above hx hw hv, Store.bindGlobal_above]

/-- The copies that are made above other lists are those that would be made without them. -/
lemma addVars_above (hx : h.Extends h₀) (hw : h₀.WellFormed) {plugins : List Plugin}
    (hv : ∀ p ∈ plugins, ∀ v ∈ p.vars, h₀.Knows v.2) :
    addVars plugins (.empty, h) =
      ((adoptVars h.slack h₀ plugins).1.above h, (adoptVars h.slack h₀ plugins).2.above h) := by
  have hfold : ∀ (vars : List (String × Value)) (state : Store × Heap),
      (∀ v ∈ vars, h₀.Knows v.2) → vars.foldl bindCopy (state.1.above h, state.2.above h) =
        ((vars.foldl (adoptCopy h₀) state).1.above h,
          (vars.foldl (adoptCopy h₀) state).2.above h) := by
    intro vars
    induction vars with
    | nil => exact fun state _ => rfl
    | cons var vars ih =>
        intro state hvars
        obtain ⟨hvar, hvars⟩ := List.forall_mem_cons.mp hvars
        rw [List.foldl_cons, List.foldl_cons, bindCopy_above hx hw _ _ hvar, ih _ hvars]
  have hempty : ((.empty : Store), h) =
      ((Store.empty).above h, Heap.above { slack := h.slack } h) := by
    rw [Heap.above_empty]
    rfl
  rw [addVars, ← List.foldl_flatMap, hempty]
  refine hfold _ (.empty, { slack := h.slack }) fun v hmem => ?_
  obtain ⟨p, hp, hvars⟩ := List.mem_flatMap.mp hmem
  exact hv p hp v hvars

end Plugin

/-! ### The beginning of a run -/

namespace Session

/-- The plugins hold builtin functions and variables of the host, whose lists are those of `h`. -/
structure Launch.Standard (h : Heap) (l : Launch) : Prop where
  functions : ∀ p ∈ l.plugins, ∀ f ∈ p.functions, f ∈ Builtins.plugin.functions
  vars : ∀ p ∈ l.plugins, ∀ v ∈ p.vars, h.Knows v.2

/-- The plugins hold honest functions and variables of the host, whose lists are those of `h`. -/
structure Launch.Honest (h : Heap) (l : Launch) : Prop where
  functions : ∀ p ∈ l.plugins, p.Honest
  vars : ∀ p ∈ l.plugins, ∀ v ∈ p.vars, h.Knows v.2

/-- The builtin functions are honest. -/
lemma Launch.Standard.honest {h : Heap} {l : Launch} (hl : l.Standard h) : l.Honest h where
  functions p hp f hf := Builtins.honest_plugin f (hl.functions p hp f hf)
  vars := hl.vars

/-- A new session of a host that has the given lists. -/
def fresh (o : Settings) (h : Heap) : Session :=
  { new o with machine := { heap := { h with slack := o.slack } } }

/-- The session was set up in the given way, and the host has the lists of `h`.  Nothing is said
about what else the session did. -/
structure Serves (o : Settings) (h : Heap) (s : Session) : Prop where
  lists : s.machine.heap.Extends h
  slack : s.machine.heap.slack = o.slack
  maxSteps : s.maxSteps = o.maxSteps.toNat
  maxDepth : s.maxDepth = o.maxDepth
  fragile : s.controller.fragile = o.fragileObserver
  limit : s.console.limit = o.writeLimit

lemma serves_fresh (o : Settings) (h : Heap) (input : ByteString) (speed : Option Int) :
    (fresh { o with input, speed } h).Serves o h := by
  refine ⟨⟨List.prefix_rfl, List.prefix_rfl⟩, rfl, rfl, rfl, ?_, rfl⟩
  simp only [fresh, new]
  split
  · rfl
  · rfl

/-- The machine at the beginning of a run that has no lists but its own. -/
def Launch.machine (l : Launch) (h : Heap) (program : Program) (functions : Registry)
    (o : Settings) : Machine where
  control := .complete .next
  pending := [.sequence program.statements]
  store := (Plugin.adoptVars o.slack h l.plugins).1
  heap := (Plugin.adoptVars o.slack h l.plugins).2
  functions := functions
  random := l.random
  tidings := l.tidings
  maxSteps := o.maxSteps.toNat
  maxDepth := o.maxDepth

variable {o : Settings} {h : Heap} {s s' t t' : Session} {program : Program} {l : Launch}

lemma freshMachine_eq (hs : s.Serves o h) (hh : h.WellFormed)
    (hv : ∀ p ∈ l.plugins, ∀ v ∈ p.vars, h.Knows v.2) (program : Program) :
    s.freshMachine program l =
      (Registry.declareAll (Plugin.addFunctions l.plugins {}) program.procedures).map
        fun functions => (l.machine h program functions o).above s.machine.heap := by
  have hvars := Plugin.addVars_above hs.lists hh hv
  rw [hs.slack] at hvars
  unfold freshMachine
  cases Registry.declareAll (Plugin.addFunctions l.plugins {}) program.procedures with
  | error f => rfl
  | ok functions =>
      simp only [bind, Except.bind, pure, Except.pure, hvars, hs.maxSteps, hs.maxDepth]
      rfl

/-- Whether a program can be started depends on its procedures, and not on what the session did
before. -/
lemma launch_eq (hs : s.Serves o h) (hh : h.WellFormed)
    (hv : ∀ p ∈ l.plugins, ∀ v ∈ p.vars, h.Knows v.2) (program : Program) :
    s.launch program l =
      (Registry.declareAll (Plugin.addFunctions l.plugins {}) program.procedures).map
        fun functions =>
          s.launched program l ((l.machine h program functions o).above s.machine.heap) := by
  unfold launch
  rw [freshMachine_eq hs hh hv]
  cases Registry.declareAll (Plugin.addFunctions l.plugins {}) program.procedures with
  | error f => rfl
  | ok functions => rfl

/-- The beginning of a run in a session goes in parallel with the beginning of the run without other
lists in any session that was set up in the same way and has the same input, with the delay of the
first session. -/
theorem parallel_launch (hs : s.Serves o h) (hs' : s'.Serves o h) (hh : h.WellFormed)
    (ho : o.writeLimit = none) (hl : l.Standard h) (hinput : s'.console.input = s.console.input)
    {functions : Registry}
    (hf : Registry.declareAll (Plugin.addFunctions l.plugins {}) program.procedures =
      .ok functions) :
    Parallel s'.machine.heap
      ((s.launched program l (l.machine h program functions o)).withDelay s'.controller.speed)
      (s'.launched program l ((l.machine h program functions o).above s'.machine.heap)) := by
  have hall : ∀ P : Function → Prop, (∀ f ∈ Builtins.plugin.functions, P (.host (-1) f.2)) →
      (∀ params body, P (.declared params body)) → functions.All P := by
    intro P hhost hdeclared
    have hempty : Registry.All P {} := by simp [Registry.All]
    exact (hempty.addFunctions fun p hp f hmem => hhost f (hl.functions p hp f hmem)).declareAll
      (fun q _ params => hdeclared params q.body) hf
  have hleaf := hall Function.Leaf (fun f hmem => Builtins.leaf_plugin f hmem) fun _ _ => trivial
  have hsteady := hall Function.Steady (fun f hmem => Builtins.steady_plugin f hmem)
    fun _ _ => trivial
  -- the copies are bound in the global frame, so there is no other one
  have hdepth : (Plugin.adoptVars o.slack h l.plugins).1.depth = 1 := by
    rw [← Store.depth_above s.machine.heap]
    have hvars := Plugin.addVars_above hs.lists hh hl.vars
    have hframes := Plugin.frameIds_addVars l.plugins .empty s.machine.heap
    rw [hvars, hs.slack] at hframes
    rw [← Store.length_frameIds, hframes]
    rfl
  refine ⟨?_, ?_, ?_, hsteady, hs.limit.trans ho⟩
  · refine ⟨⟨s'.controller.notices, s'.controller.callers + s'.controller.reporting.toNat,
      s'.console.written⟩, _, .calm rfl rfl, ?_⟩
    simp only [launched, withDelay, above, Session.goto, hs'.fragile, hs.fragile, hinput,
      hs'.limit, hs.limit, hs'.maxSteps, hs.maxSteps, hs'.maxDepth, hs.maxDepth]
    rfl
  · exact .active (d := .completion) rfl (.plain (p := .sequence _) rfl .nil) hdepth
  · exact ⟨hleaf, trivial, List.forall_mem_cons.mpr ⟨by simp [Pending.yields], by simp⟩⟩

end Session

/-! ### Runs that are alike -/

section Alike

variable (ρ : ListId → ListId → Prop)

/-- Two values are the same, except that they hold lists which correspond. -/
inductive Value.Alike : Value → Value → Prop where
  | same {v : Value} (hv : v.listId? = none) : Alike v v
  | list {i j : ListId} (hij : ρ i j) : Alike (.list i) (.list j)

/-- Two runs have ended in the same way. -/
inductive Outcome.Alike : Outcome → Outcome → Prop where
  | completed {v w : Value} (hvw : v.Alike ρ w) : Alike (.completed v) (.completed w)
  | failed (e : Failure) (span : Span) : Alike (.failed e span) (.failed e span)
  | stopped : Alike .stopped .stopped

/-- Two frames have the same names, with values that are alike. -/
structure Frame.Alike (f g : Frame) : Prop where
  label : f.label = g.label
  serial : f.serial = g.serial
  vars : List.Forall₂ (fun a b => a.1 = b.1 ∧ a.2.Alike ρ b.2) f.vars.entries g.vars.entries

/-- Two snapshots have the same frames, and lists that correspond have the same elements. -/
structure Snapshot.Alike (x y : Snapshot) : Prop where
  frames : List.Forall₂ (Frame.Alike ρ) x.store.frames y.store.frames
  lists : ∀ i j, ρ i j → List.Forall₂ (Value.Alike ρ) (x.heap.contents i) (y.heap.contents j)

/-- Nothing that can be seen of two sessions differs, save for the identities of lists. -/
structure Session.Alike (s t : Session) : Prop where
  outcome : Option.Rel (Outcome.Alike ρ) s.outcome? t.outcome?
  output : s.output = t.output
  snapshot : Option.Rel (Snapshot.Alike ρ) s.snapshot? t.snapshot?
  status : s.controller.status = t.controller.status
  input : s.console.input = t.console.input

end Alike

/-- Two lists lie above the lists of two heaps in the same place. -/
def ListId.Level (h h' : Heap) (i j : ListId) : Prop := ∃ k : ListId, i = k.above h ∧ j = k.above h'

variable {h h' : Heap}

lemma ListId.biUnique_level : Relator.BiUnique (ListId.Level h h') := by
  constructor
  · rintro i i' j ⟨k, rfl, hj⟩ ⟨k', rfl, hj'⟩
    rw [ListId.above_inj.mp (hj.symm.trans hj')]
  · rintro i j j' ⟨k, hi, rfl⟩ ⟨k', hi', rfl⟩
    rw [ListId.above_inj.mp (hi.symm.trans hi')]

lemma Value.alike_above (v : Value) : (v.above h).Alike (ListId.Level h h') (v.above h') := by
  cases v with
  | list id => exact .list ⟨id, rfl, rfl⟩
  | _ => exact .same rfl

lemma Outcome.alike_above (o : Outcome) : (o.above h).Alike (ListId.Level h h') (o.above h') := by
  cases o with
  | completed v => exact .completed v.alike_above
  | failed e span => exact .failed e span
  | stopped => exact .stopped

lemma Frame.alike_above (f : Frame) : (f.above h).Alike (ListId.Level h h') (f.above h') := by
  refine ⟨rfl, rfl, ?_⟩
  simp only [Frame.above, Bindings.map, List.forall₂_map_left_iff, List.forall₂_map_right_iff,
    List.forall₂_same]
  exact fun a _ => ⟨rfl, a.2.alike_above⟩

lemma Store.frames_above (s : Store) : (s.above h).frames = s.frames.map (·.above h) := by
  simp [frames, above]

lemma Snapshot.alike_above (store : Store) (g : Heap) :
    Snapshot.Alike (ListId.Level h h') ⟨store.above h, g.above h⟩ ⟨store.above h', g.above h'⟩ := by
  constructor
  · simp only [Store.frames_above, List.forall₂_map_left_iff, List.forall₂_map_right_iff,
      List.forall₂_same]
    exact fun f _ => f.alike_above
  · rintro i j ⟨k, rfl, rfl⟩
    simp only [Heap.contents_above, List.forall₂_map_left_iff, List.forall₂_map_right_iff,
      List.forall₂_same]
    exact fun v _ => v.alike_above

namespace Session

variable {o : Settings} {s s' t t' : Session} {program : Program} {l : Launch}

lemma Parallel.outcome? (hp : Parallel h s t) : t.outcome? = s.outcome?.map (·.above h) := by
  obtain ⟨x, c, hc, rfl⟩ := hp.same
  simp only [Session.outcome?, control_goto]
  generalize s.machine.control = d at hc
  cases hc with
  | acting _ => rfl
  | calm _ _ =>
      cases d with
      | _ => rfl

/-- While a statement passes its boundary in one session, it does so in the other. -/
lemma Parallel.isPassing (hp : Parallel h s t) :
    t.machine.control.isPassing = s.machine.control.isPassing := by
  obtain ⟨x, c, hc, rfl⟩ := hp.same
  simp only [control_goto]
  generalize s.machine.control = d at hc
  cases hc with
  | acting _ => rfl
  | calm _ _ =>
      cases d with
      | _ => rfl

lemma Parallel.spares (hp : Parallel h s t) {es : List Event} (ht : t.Spares es) :
    s.Spares es :=
  fun es₁ e es₂ heq htells => (hp.after es₁).isPassing.symm.trans (ht es₁ e es₂ heq htells)

/-- A session keeps up with itself with another delay, unless a statement passes its boundary. -/
lemma Parallel.hurries (hp : Parallel h s t) (v : Int)
    (hpassing : s.machine.control.isPassing = false) : Hurries s (s.withDelay v) := by
  refine ⟨⟨v, ?_⟩, hp.sound, hp.leaf, fun _ => hpassing⟩
  rw [undelayed, Machine.undelayed_of_not_isDelayed (Control.isDelayed_of_not_isPassing hpassing)]

lemma Parallel.snapshot? (hp : Parallel h s t) :
    t.snapshot? =
      if s.controller.inspectable then some ⟨s.machine.store.above h, s.machine.heap.above h⟩
      else none := by
  obtain ⟨x, c, -, rfl⟩ := hp.same
  have hinspectable : ((s.above h x).goto c).controller.inspectable =
    s.controller.inspectable := rfl
  have hstack : ((s.above h x).goto c).machine.failedStack = none := rfl
  simp only [Session.snapshot?, hinspectable, hstack]
  cases ((s.above h x).goto c).controller.phase with
  | _ => rfl

/-- Two sessions that go in parallel with the same one, or with two of which the same is seen, are
alike. -/
lemma Parallel.alike (hp : Parallel h s t) (hp' : Parallel h' s' t') (hsame : LooksLike s s') :
    Session.Alike (ListId.Level h h') t t' := by
  refine ⟨?_, ?_, ?_, ?_, ?_⟩
  · rw [hp.outcome?, hp'.outcome?, hsame.outcome]
    cases s.outcome? with
    | none => exact .none
    | some o => exact .some o.alike_above
  · obtain ⟨x, c, -, rfl⟩ := hp.same
    obtain ⟨x', c', -, rfl⟩ := hp'.same
    exact (congrArg Console.transcript hsame.console).symm
  · have hinspectable : s'.controller.inspectable = s.controller.inspectable := by
      have hphase : s'.controller.phase = s.controller.phase := congrArg Status.phase hsame.status
      simp only [Controller.inspectable, hphase]
    rw [hp.snapshot?, hp'.snapshot?, hsame.store, hsame.heap, hinspectable]
    split
    · exact .some (Snapshot.alike_above _ _)
    · exact .none
  · obtain ⟨x, c, -, rfl⟩ := hp.same
    obtain ⟨x', c', -, rfl⟩ := hp'.same
    exact hsame.status.symm
  · obtain ⟨x, c, -, rfl⟩ := hp.same
    obtain ⟨x', c', -, rfl⟩ := hp'.same
    exact (congrArg Console.input hsame.console).symm

/-! ### What a run leaves -/

/-- The procedures of a program that can be started, and the session in which it has been. -/
lemma exists_of_launch (hs : s.Serves o h) (hh : h.WellFormed)
    (hv : ∀ p ∈ l.plugins, ∀ v ∈ p.vars, h.Knows v.2) (ht : s.launch program l = .ok t) :
    ∃ functions, Registry.declareAll (Plugin.addFunctions l.plugins {}) program.procedures =
        .ok functions ∧
      t = s.launched program l ((l.machine h program functions o).above s.machine.heap) := by
  rw [launch_eq hs hh hv] at ht
  cases hf : Registry.declareAll (Plugin.addFunctions l.plugins {}) program.procedures with
  | error f => simp [hf, Except.map] at ht
  | ok functions =>
      rw [hf] at ht
      exact ⟨functions, rfl, (Except.ok.inj ht).symm⟩

/-- What a run with honest host functions begins with is behind the lists that it finds. -/
lemma in_behind (hs : s.Serves o h) (hh : h.WellFormed) (hl : l.Honest h)
    (ht : s.launch program l = .ok t) : t.In (.behind s.machine.heap) := by
  have hfunctions := all_functions_launch (P := Function.Honest) hl.functions
    (fun _ _ _ => trivial) ht
  obtain ⟨functions, -, rfl⟩ := exists_of_launch hs hh hl.vars ht
  refine ⟨?_, fun e he => by cases he⟩
  exact
    { heap := Heap.closed_above _ _
      store := Store.in_above _
      control := trivial
      pending := List.forall_mem_cons.mpr ⟨trivial, by simp⟩
      functions := hfunctions
      failed := fun x hx => by cases hx }

/-- A run with honest host functions leaves the lists that it finds as they are. -/
theorem extends_run (hs : s.Serves o h) (hh : h.WellFormed) (hl : l.Honest h)
    (ht : s.launch program l = .ok t) (es : List Event) :
    (t.after es).machine.heap.Extends s.machine.heap := by
  have hin := in_behind hs hh hl ht
  have hfound : t.machine.heap.Extends s.machine.heap := by
    obtain ⟨functions, -, rfl⟩ := exists_of_launch hs hh hl.vars ht
    exact Heap.extends_above _ _
  have hremains := hin.after es (Region.admits_behind hfound.longer _)
  exact hremains.changes.extends hin.machine.heap hfound

/-- A run leaves the host's lists as they are, and the session as it was set up. -/
lemma Serves.run (hs : s.Serves o h) (hh : h.WellFormed) (ho : o.writeLimit = none)
    (hl : l.Honest h) (ht : s.launch program l = .ok t) (es : List Event) :
    (t.after es).Serves o h := by
  have hunder := (under_launch ht).after es
  have hfragile := fragile_after (sound_launch ht) es
  have hlists := (extends_run hs hh hl ht es).trans hs.lists
  have hslack : (t.after es).machine.heap.slack = o.slack :=
    (Heap.Changes.slack ((s.changes_launch ht).trans (t.changes_after es))).trans hs.slack
  have hlimit : t.console.limit = none := by
    obtain ⟨functions, -, rfl⟩ := exists_of_launch hs hh hl.vars ht
    exact hs.limit.trans ho
  obtain ⟨functions, -, rfl⟩ := exists_of_launch hs hh hl.vars ht
  refine ⟨hlists, hslack, ?_, ?_, hfragile.trans hs.fragile, (limit_after hlimit es).trans ho.symm⟩
  · rw [← hunder]
    exact hs.maxSteps
  · rw [← hunder]
    exact hs.maxDepth

/-- A run in a session: what is started, in which way, and what happens then. -/
structure Episode where
  program : Program
  launch : Launch
  events : List Event

/-- The session after a run.  A program that cannot be started leaves it as it is. -/
def undergo (s : Session) (r : Episode) : Session :=
  match s.launch r.program r.launch with
  | .ok t => t.after r.events
  | .error _ => s

/-- The session after some runs, one after the other. -/
def history (s : Session) (earlier : List Episode) : Session := earlier.foldl undergo s

lemma Serves.history (hs : s.Serves o h) (hh : h.WellFormed) (ho : o.writeLimit = none)
    {earlier : List Episode} (hearlier : ∀ r ∈ earlier, r.launch.Honest h) :
    (s.history earlier).Serves o h := by
  induction earlier generalizing s with
  | nil => exact hs
  | cons r earlier ih =>
      obtain ⟨hr, hearlier⟩ := List.forall_mem_cons.mp hearlier
      refine ih ?_ hearlier
      unfold undergo
      split
      · rename_i t ht
        exact hs.run hh ho hr ht r.events
      · exact hs

/-- Runs are isolated.  A program is started in a session that has done anything before, which may
include earlier runs with any honest host functions and the host's variables.  It can be started if
it can be in a new session that is set up in the same way and has the same input left.  Whatever
happens then, the session and the new one are alike, with one correspondence of the lists all
along, and the lists of the host are as they were.  The delay between statements, which may have
been set before, can differ: then the new session gets there with the same commands, unless the run
is told to end while a statement passes its boundary. -/
theorem runs_isolated (hh : h.WellFormed) (ho : o.writeLimit = none) (hs : s.Serves o h)
    {earlier : List Episode} (hearlier : ∀ r ∈ earlier, r.launch.Honest h) (program : Program)
    (hl : l.Standard h) (speed : Option Int) :
    let old := s.history earlier
    let new := fresh { o with input := .ofList old.console.input, speed } h
    (∀ f, old.launch program l = .error f ↔ new.launch program l = .error f) ∧
      ∀ t, old.launch program l = .ok t → ∃ t', new.launch program l = .ok t' ∧
        (∃ ρ, Relator.BiUnique ρ ∧
          (new.controller.speed = old.controller.speed →
            ∀ es, Session.Alike ρ (t.after es) (t'.after es)) ∧
          ∀ es, t.Spares es → ∃ es', Event.commands es' = Event.commands es ∧
            Session.Alike ρ (t.after es) (t'.after es')) ∧
        ∀ es, (t.after es).Serves o h ∧
          ∀ id : ListId, id.index < h.lists.size →
            (t.after es).machine.heap.contents id = h.contents id := by
  intro old new
  have hold : old.Serves o h := hs.history hh ho hearlier
  have hnew : new.Serves o h := serves_fresh o h _ speed
  have hinput : new.console.input = old.console.input := rfl
  constructor
  · intro f
    rw [launch_eq hold hh hl.vars, launch_eq hnew hh hl.vars]
    cases Registry.declareAll (Plugin.addFunctions l.plugins {}) program.procedures with
    | error g => rfl
    | ok functions => simp [Except.map]
  · intro t ht
    obtain ⟨functions, hf, rfl⟩ := exists_of_launch hold hh hl.vars ht
    -- both runs go in parallel with the one that has no lists but its own, each with its delay
    have hparallel := parallel_launch hold hold hh ho hl rfl hf
    have hparallel' := parallel_launch hold hnew hh ho hl hinput hf
    refine ⟨_, by rw [launch_eq hnew hh hl.vars, hf]; rfl,
      ⟨ListId.Level old.machine.heap new.machine.heap, ListId.biUnique_level, ?_, ?_⟩, ?_⟩
    · intro hspeed es
      rw [hspeed] at hparallel'
      exact (hparallel.after es).alike (hparallel'.after es) (.refl _)
    · intro es hes
      have hspares := hparallel.spares hes
      obtain ⟨es', hcommands, hhurries⟩ := (hparallel.hurries new.controller.speed rfl).after hspares
      exact ⟨es', hcommands, (hparallel.after es).alike (hparallel'.after es') hhurries.looksLike⟩
    · intro es
      have hserves := hold.run hh ho hl.honest ht es
      exact ⟨hserves, fun id hid => hserves.lists.contents hh hid⟩

/-- The lists of a host: one that holds another one twice and itself. -/
def tangled : Heap where
  lists := #[⟨0, 3⟩, ⟨1, 1⟩]
  banks := #[#[.list ⟨1⟩, .list ⟨1⟩, .list ⟨0⟩], #[.bool true]]

def tangledLaunch : Launch where
  plugins := [Builtins.plugin, { vars := [("world", .list ⟨0⟩)] }]

/-- A program that appends to the list which is held twice, and takes the first element of the other
one away. -/
def untangle : Program where
  statements :=
    [.call .none (some ⟨.none, "APPEND"⟩)
      [.element .none (some ⟨.none, "world"⟩) (.literal .none (.number 2)),
       .literal .none (.bool false)],
     .call .none (some ⟨.none, "REMOVE"⟩)
      [.identifier .none "world", .literal .none (.number 1)]]

/-- A program that shows the list. -/
def survey : Program where
  statements := [.call .none (some ⟨.none, "DISPLAY"⟩) [.identifier .none "world"]]

lemma standard_tangledLaunch : tangledLaunch.Standard tangled := by
  constructor
  · intro p hp f hf
    simp only [tangledLaunch, List.mem_cons, List.not_mem_nil, or_false] at hp
    rcases hp with rfl | rfl
    · exact hf
    · simp at hf
  · decide

/-- A run in which a delay is set and the list is taken apart. -/
def untangling : Episode := ⟨untangle, tangledLaunch, .setSpeed 5 :: .replicate 42 .step⟩

set_option maxRecDepth 1000 in
/-- A later run finds the list as it would in a new session with that delay. -/
theorem runs_isolated_tangled :
    ∃ s t t' ρ, s = (fresh {} tangled).history [untangling] ∧
      s.snapshot?.map Snapshot.shown = some [("Global", [("world", "[[true,false],[...]]")])] ∧
      s.launch survey tangledLaunch = .ok t ∧
      (fresh { input := .ofList s.console.input, speed := some 5 } tangled).launch survey
        tangledLaunch = .ok t' ∧
      Relator.BiUnique ρ ∧ (∀ es, Session.Alike ρ (t.after es) (t'.after es)) ∧
      (t.after (.replicate 21 .step)).output.shown = "[[true],[true],[...]] " := by
  have hh : tangled.WellFormed := by decide
  have hearlier : ∀ r ∈ [untangling], r.launch.Honest tangled := by
    intro r hr
    rw [List.mem_singleton.mp hr]
    exact standard_tangledLaunch.honest
  obtain ⟨-, hrun⟩ := runs_isolated hh rfl (serves_fresh {} tangled "" none) hearlier survey
    standard_tangledLaunch (some 5)
  obtain ⟨t', ht', ⟨ρ, hρ, halike, -⟩, -⟩ := hrun _ rfl
  exact ⟨_, _, t', ρ, rfl, by decide +kernel, rfl, ht', hρ, halike rfl, by decide +kernel⟩

/-- A program in which the declaration of a procedure is missing. -/
def incomplete : Program where
  statements := []
  procedures := [none]

/-- The session in which the list has been shown. -/
def surveyed : Session := ((fresh {} tangled).start 20 (some survey) tangledLaunch).1

/-- A program that cannot be started leaves a session as it is.  So the output and the frames of the
run before are still there, and in a new session there are none. -/
theorem refused_unlike_new :
    surveyed.Serves {} tangled ∧ tangledLaunch.Standard tangled ∧
      let new := fresh { input := .ofList surveyed.console.input } tangled
      (surveyed.start 20 (some incomplete) tangledLaunch).2.isSome = true ∧
      (new.start 20 (some incomplete) tangledLaunch).2.isSome = true ∧
      (surveyed.start 20 (some incomplete) tangledLaunch).1.output ≠
        (new.start 20 (some incomplete) tangledLaunch).1.output ∧
      (surveyed.start 20 (some incomplete) tangledLaunch).1.snapshot?.isSome = true ∧
      (new.start 20 (some incomplete) tangledLaunch).1.snapshot?.isSome = false := by
  have hserves : surveyed.Serves {} tangled := ⟨by decide +kernel, rfl, rfl, rfl, rfl, rfl⟩
  exact ⟨hserves, standard_tangledLaunch, rfl, rfl, by decide +kernel, rfl, rfl⟩

end Session

end Pseudocode
