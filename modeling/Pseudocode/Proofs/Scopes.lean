/-
# Two scopes

A name is looked up in the current frame and then in the global one, and a name that is found in
neither is bound in the current frame.  So what goes on inside a call has no access to the frames
between the global frame and its own, and cannot give the global frame a new name.

The frames are counted from the bottom, the global one being at position zero.  The main results
are

* `Session.step_reframes`: a step leaves the frames alone, binds a name for a statement of the
  innermost call, adds a frame, or takes frames away that belong to no task;
* `Session.spares_within`: a piece of a run spares the frames below those in which it can bind
  names;
* `Session.two_level_scoping`: what the execution of an expression or of a statement leaves of the
  variables of all frames.
-/
import Pseudocode.Proofs.Balance

namespace Pseudocode

namespace Bindings

variable {α : Type}

lemma find?_place (name x : String) (v : α) (l : List (String × α)) :
    find? x (place name v l) = if name = x then some v else find? x l := by
  induction l with
  | nil => simp [place, find?]
  | cons e l ih =>
      obtain ⟨n, w⟩ := e
      simp only [place]
      split
      · rename_i heq
        subst heq
        by_cases hx : name = x
        · simp [find?, hx]
        · simp [find?, hx]
      · rename_i hne
        split
        · simp [find?]
        · by_cases hx : n = x
          · have hname : name ≠ x := fun h => hne (h.trans hx.symm)
            simp [find?, hx, hname]
          · simp [find?, hx, ih]

lemma contains_insert (b : Bindings α) (name x : String) (v : α) :
    (b.insert name v).contains x = (decide (name = x) || b.contains x) := by
  unfold contains insert get?
  rw [find?_place]
  by_cases hx : name = x
  · simp [hx]
  · simp [hx]

end Bindings

/-- Binds a name in a frame. -/
def Frame.bind (name : String) (v : Value) (f : Frame) : Frame :=
  { f with vars := f.vars.insert name v }

namespace Store

/-! ### The variables of a frame -/

/-- The variables of the frame at a position. -/
def vars? (s : Store) (i : Nat) : Option (Bindings Value) := (s.frames[i]?).map (·.vars)

/-- Whether a name is bound in the frame at a position. -/
def binds (s : Store) (i : Nat) (name : String) : Bool :=
  ((s.vars? i).map (·.contains name)).getD false

@[simp] lemma length_frames (s : Store) : s.frames.length = s.depth := by
  simp [frames, s.depth_eq]

/-- Changing the current frame changes the last one. -/
lemma getElem?_updateCurrent (s : Store) (f : Frame → Frame) (j : Nat) :
    (s.updateCurrent f).frames[j]? =
      if j + 1 = s.depth then (s.frames[j]?).map f else s.frames[j]? := by
  have hdepth := s.depth_eq
  unfold updateCurrent
  split
  · rename_i h
    cases j with
    | zero => simp [frames, h, hdepth]
    | succ j => simp [frames, h]
  · rename_i c cs h
    have hframes : s.frames = (s.global :: cs.reverse) ++ [c] := by simp [frames, h]
    have hframes' : ∀ d, s.global :: (d :: cs).reverse = (s.global :: cs.reverse) ++ [d] := by simp
    have hlength : s.depth = (s.global :: cs.reverse).length + 1 := by simp [hdepth, h]
    simp only [frames] at hframes ⊢
    rw [hframes, hframes', hlength]
    rcases Nat.lt_trichotomy j (s.global :: cs.reverse).length with hj | hj | hj
    · rw [List.getElem?_append_left hj, List.getElem?_append_left hj, if_neg (by omega)]
    · simp [hj]
    · rw [if_neg (by omega), List.getElem?_eq_none (by rw [List.length_append]; exact hj),
        List.getElem?_eq_none (by rw [List.length_append]; exact hj)]

/-- A name is bound in the current frame, or in the global one if that has it already. -/
lemma getElem?_assign (s : Store) (name : String) (v : Value) :
    ∃ i, (i + 1 = s.depth ∨ i = 0 ∧ s.binds 0 name = true) ∧ ∀ j,
      (s.assign name v).frames[j]? =
        if j = i then (s.frames[j]?).map (Frame.bind name v) else s.frames[j]? := by
  have hdepth := s.depth_eq
  have hcurrent : ∃ i, i + 1 = s.depth ∧ ∀ j, (s.updateCurrent (Frame.bind name v)).frames[j]? =
      if j = i then (s.frames[j]?).map (Frame.bind name v) else s.frames[j]? := by
    refine ⟨s.depth - 1, by omega, fun j => ?_⟩
    rw [getElem?_updateCurrent]
    congr 1
    exact propext ⟨by omega, by omega⟩
  unfold assign
  split
  · obtain ⟨i, hi, h⟩ := hcurrent
    exact ⟨i, .inl hi, h⟩
  · split
    · rename_i hglobal
      refine ⟨0, .inr ⟨rfl, hglobal⟩, fun j => ?_⟩
      cases j with
      | zero => rfl
      | succ j => rfl
    · obtain ⟨i, hi, h⟩ := hcurrent
      exact ⟨i, .inl hi, h⟩

lemma binds_eq_of_vars? {s t : Store} {i : Nat} (h : t.vars? i = s.vars? i) (name : String) :
    t.binds i name = s.binds i name := by
  rw [binds, binds, h]

lemma vars?_of_frames_take {s t : Store} {i k : Nat} (h : t.frames = s.frames.take k)
    (hi : i < k) : t.vars? i = s.vars? i := by
  simp [vars?, h, hi]

lemma vars?_push {s : Store} {i : Nat} (hi : i < s.depth) (label : String)
    (vars : Bindings Value) : (s.push label vars).vars? i = s.vars? i := by
  rw [vars?, frames_push, List.getElem?_append_left (by simpa using hi), vars?]

/-! ### What stays of the frames -/

/-- The store `t` has what `s` had below position `top`: the names of the global frame, and the
variables of the frames above that. -/
structure Spares (top : Nat) (s t : Store) : Prop where
  locals : ∀ i, 0 < i → i < top → t.vars? i = s.vars? i
  globals : 0 < top → ∀ name, t.binds 0 name = s.binds 0 name

namespace Spares

variable {top : Nat} {s t u : Store}

lemma refl (top : Nat) (s : Store) : Spares top s s :=
  ⟨fun _ _ _ => rfl, fun _ _ => rfl⟩

lemma trans (h : Spares top s t) (h' : Spares top t u) : Spares top s u := by
  refine ⟨fun i hpos hi => ?_, fun hpos name => ?_⟩
  · rw [h'.locals i hpos hi, h.locals i hpos hi]
  · rw [h'.globals hpos, h.globals hpos]

lemma of_vars? (h : ∀ i, i < top → t.vars? i = s.vars? i) : Spares top s t :=
  ⟨fun i _ hi => h i hi, fun hpos name => binds_eq_of_vars? (h 0 hpos) name⟩

/-- A name that is bound from a call spares the frames below that of the call. -/
lemma assign (h : top < s.depth) (name : String) (v : Value) :
    Spares top s (s.assign name v) := by
  obtain ⟨i, hi, hframes⟩ := s.getElem?_assign name v
  have hother : ∀ j, j ≠ i → (s.assign name v).vars? j = s.vars? j := by
    intro j hj
    simp [vars?, hframes, hj]
  refine ⟨fun j hpos hj => hother j (by omega), fun hpos x => ?_⟩
  rcases hi with hi | ⟨rfl, hname⟩
  · exact binds_eq_of_vars? (hother 0 (by omega)) x
  · -- the global frame has the name already
    have hvars : (s.assign name v).vars? 0 = some (s.global.vars.insert name v) := by
      rw [vars?, hframes]
      rfl
    have hglobal : ∀ y, s.binds 0 y = s.global.vars.contains y := fun _ => rfl
    rw [binds, hvars, hglobal]
    simp only [Option.map_some, Option.getD_some, Bindings.contains_insert]
    by_cases hx : name = x
    · subst hx
      simp [← hglobal, hname]
    · simp [hx]

end Spares

/-- The frame of `s` at a position is there in `t`, with all its names. -/
def Retains (i : Nat) (s t : Store) : Prop :=
  ∀ f, s.frames[i]? = some f → ∃ g, t.frames[i]? = some g ∧ g.id = f.id ∧
    ∀ name, f.vars.contains name = true → g.vars.contains name = true

namespace Retains

variable {i : Nat} {s t u : Store}

lemma trans (h : Retains i s t) (h' : Retains i t u) : Retains i s u := by
  intro f hf
  obtain ⟨g, hg, hid, hnames⟩ := h f hf
  obtain ⟨g', hg', hid', hnames'⟩ := h' g hg
  exact ⟨g', hg', hid'.trans hid, fun name hname => hnames' name (hnames name hname)⟩

lemma of_getElem? (h : t.frames[i]? = s.frames[i]?) : Retains i s t :=
  fun f hf => ⟨f, h.trans hf, rfl, fun _ => id⟩

lemma assign (i : Nat) (s : Store) (name : String) (v : Value) :
    Retains i s (s.assign name v) := by
  obtain ⟨j, -, hframes⟩ := s.getElem?_assign name v
  intro f hf
  by_cases hij : i = j
  · refine ⟨f.bind name v, by rw [hframes, if_pos hij, hf]; rfl, rfl, fun x hx => ?_⟩
    rw [Frame.bind, Bindings.contains_insert, hx, Bool.or_true]
  · exact ⟨f, by simp [hframes, hij, hf], rfl, fun _ => id⟩

end Retains

end Store

/-! ### Who binds names -/

/-- Above an expression that is being evaluated, the tasks of the same call have no use for the
completion of a statement. -/
lemma Fits.ne_completion {d : Due} {L K : List Pending} (hK : Fits .value K)
    (h : Fits d (L ++ K)) (hheight : height (L ++ K) = height K) : d ≠ .completion := by
  induction L generalizing d with
  | nil =>
      cases K with
      | nil =>
          generalize hd : Due.value = d' at hK
          cases hK with
          | nil => simp at hd
      | cons p K =>
          have hp := h.tail.1
          rw [hK.tail.1] at hp
          simp [← hp]
  | cons p L ih =>
      rw [List.cons_append] at h hheight
      have hle := height_le_of_suffix (List.suffix_append L K)
      have hle' := height_le_cons p (L ++ K)
      have hyields := ih h.tail.2 (by omega)
      rw [← h.tail.1]
      cases p with
      | invocation =>
          simp only [height] at hheight
          omega
      | hostCall _ _ _ | reenter _ _ _ => simp [Pending.takes]
      | leave _ => simp [Pending.yields] at hyields
      | _ => simp_all [Pending.yields, Pending.takes]

/-- What is handed to a task that waits for it is a value or the completion of a statement. -/
lemma Control.hands {c : Control} {d : Due} (hresult : c.isResult = true)
    (hdue : c.due? = some d) : (∃ v, c = .value v) ∨ ∃ k, c = .complete k := by
  cases c with
  | value v => exact .inl ⟨v, rfl⟩
  | complete k => exact .inr ⟨k, rfl⟩
  | fail _ | crash _ => simp [due?] at hdue
  | _ => simp [isResult] at hresult

namespace Machine

/-- What a step does to the frames. -/
inductive Reframes (m m' : Machine) : Prop where
  /-- Nothing. -/
  | keep (store : m'.store = m.store)
  /-- A task that completes a statement, or begins another round of a loop, binds a name. -/
  | bind {p : Pending} {rest : List Pending} {name : String} {v : Value}
      (pending : m.pending = p :: rest)
      (pending' : m'.pending = rest ∨ ∃ q, q ≠ p ∧ m'.pending = q :: rest)
      (fits : Fits .completion rest) (depth : m.store.depth = height rest)
      (store : m'.store = m.store.assign name v)
  /-- A frame is added. -/
  | push {label : String} {vars : Bindings Value} (depth : m.store.depth = height m.pending)
      (store : m'.store = m.store.push label vars)
  /-- Frames are taken away, and none of them belongs to a task. -/
  | cut {k : Nat} (below : height m'.pending ≤ k)
      (frames : m'.store.frames = m.store.frames.take k)

variable (m : Machine)

lemma store_eval (n : Node) : (m.eval n).store = m.store := by
  unfold eval readVariable
  repeat' split
  all_goals rfl

lemma store_assign (target value : Node) : (m.assign target value).store = m.store := by
  unfold assign
  split
  all_goals rfl

lemma store_exec (n : Node) : (m.exec n).store = m.store := by
  unfold exec
  split
  case h_2 => exact store_assign m _ _
  all_goals rfl

lemma store_block (b : Block) : (m.block b).store = m.store := by
  cases b <;> rfl

lemma store_choose (branches : List Branch) : (m.choose branches).store = m.store := by
  unfold choose
  split
  all_goals rfl

/-- Handing a value to a task binds a name only if the task is an assignment. -/
lemma store_resume (v : Value) {p : Pending} (hp : ∀ target, p ≠ .assign target) :
    (m.resume v p).store = m.store := by
  cases p with
  | assign target => exact absurd rfl (hp target)
  | element span name =>
      simp only [resume, readElement]
      repeat' split
      all_goals rfl
  | items done rest | args site name done rest => cases rest <;> rfl
  | _ =>
      simp only [resume]
      repeat' split
      all_goals rfl

/-- An assignment binds a name, unless it writes to a list that is there. -/
lemma store_commit (v : Value) (target : Target) :
    ((m.commit v target).store = m.store ∨
      ∃ name w, (m.commit v target).store = m.store.assign name w) ∧
    (m.commit v target).pending = m.pending := by
  cases target with
  | «variable» name => exact ⟨.inr ⟨name, v, rfl⟩, rfl⟩
  | element span name p =>
      have hwrite : ∀ (m' : Machine) (id : ListId), (m'.writeElement span id p v).store = m'.store ∧
          (m'.writeElement span id p v).pending = m'.pending := by
        intro m' id
        unfold writeElement
        dsimp only
        repeat' split
        all_goals exact ⟨rfl, rfl⟩
      have hlist : ((m.listForWriting name).2.store = m.store ∨
          ∃ name' w, (m.listForWriting name).2.store = m.store.assign name' w) ∧
          (m.listForWriting name).2.pending = m.pending := by
        unfold listForWriting
        split
        · exact ⟨.inl rfl, rfl⟩
        · exact ⟨.inr ⟨name, _, rfl⟩, rfl⟩
      simp only [commit]
      split
      · rename_i id m' heq
        rw [heq] at hlist
        rw [(hwrite m' id).1, (hwrite m' id).2]
        exact hlist
      · rename_i heq
        rw [heq] at hlist
        exact hlist

/-- A task that goes on after the completion of a statement binds a name only if it is a loop over
a list that begins another round. -/
lemma store_proceed (cancelled : Bool) (c : Completion) {p : Pending} (hp : p.isPlain = true) :
    (m.proceed cancelled c p).store = m.store ∨
      ∃ var cursor i body v, p = .each var cursor i body ∧
        (m.proceed cancelled c p).store = m.store.assign var v ∧
        (m.proceed cancelled c p).pending = .each var cursor (i + 1) body :: m.pending := by
  cases p with
  | each var cursor i body =>
      cases c with
      | returned v => exact .inl rfl
      | next =>
          simp only [proceed]
          split
          · exact .inl rfl
          · split
            · exact .inl rfl
            · exact .inr ⟨var, cursor, i, body, _, rfl, rfl, rfl⟩
  | sequence rest =>
      refine .inl ?_
      cases c with
      | returned v => rfl
      | next => cases rest <;> rfl
  | times i count body =>
      refine .inl ?_
      cases c with
      | returned v => rfl
      | next =>
          simp only [proceed, iterate]
          repeat' split
          all_goals rfl
  | «until» cond body =>
      refine .inl ?_
      cases c with
      | returned v => rfl
      | next =>
          simp only [proceed, iterate]
          split
          all_goals rfl
  | leave _ | invocation | hostCall _ _ _ | reenter _ _ _ => simp [Pending.isPlain] at hp
  | _ => cases c <;> exact .inl rfl

variable {m} {m' : Machine} {fragile : Bool}

/-- A plain task goes on with the result it has waited for. -/
lemma reframes_task {p : Pending} {rest : List Pending} (hm : Sound m)
    (hpending : m.pending = p :: rest) (hp : p.isPlain = true)
    (hcontrol : m.control.due? = some p.takes)
    (hresult : (∃ v, m' = Machine.resume { m with pending := rest } v p) ∨
      ∃ cancelled c, m' = Machine.proceed { m with pending := rest } cancelled c p) :
    Reframes m m' := by
  obtain ⟨fits, depth⟩ := hm.below hcontrol hpending
  rw [height_cons_of_isPlain hp] at depth
  rcases hresult with ⟨v, rfl⟩ | ⟨cancelled, c, rfl⟩
  · by_cases hassign : ∃ target, p = .assign target
    · obtain ⟨target, rfl⟩ := hassign
      obtain ⟨hstore, hrest⟩ := store_commit { m with pending := rest } v target
      rcases hstore with hstore | ⟨name, w, hstore⟩
      · exact .keep hstore
      · exact .bind hpending (.inl hrest) fits depth hstore
    · exact .keep (store_resume _ v fun target htarget => hassign ⟨target, htarget⟩)
  · rcases store_proceed { m with pending := rest } cancelled c hp with
      hstore | ⟨var, cursor, i, body, v, rfl, hstore, hrest⟩
    · exact .keep hstore
    · refine .bind hpending (.inr ⟨_, ?_, hrest⟩) fits depth hstore
      -- the rounds of a loop are counted
      simp

/-- Apart from what is evaluated and executed, the moves tell what they do to the frames. -/
lemma Move.reframes (h : Move fragile m m') (hm : Sound m)
    (hwork : ∀ d, m.control.work? = some d → Reframes m m')
    (htask : ∀ p rest, m.pending = p :: rest → p.isPlain = true →
      m.control.due? = some p.takes → m.control.isResult = true → Reframes m m') :
    Reframes m m' := by
  cases h with
  | plain control _ => exact hwork _ control
  | task pending hp control result _ => exact htask _ _ pending hp control result
  | request _ _ keeps => exact .keep keeps.store
  | finish _ _ _ keeps => exact .keep keeps.store
  | enter control => exact .push (hm.balanced (d := .value) (by rw [control]; rfl)).2 rfl
  | @exit c rest v control pending =>
      have hdepth := (hm.below (d := .completion) (by rw [control]; rfl) pending).2
      simp only [height] at hdepth
      refine .cut (k := max 1 (m.store.depth - 1)) ?_ (Store.frames_pop _)
      show height rest ≤ _
      omega
  | @hand e e' site depth next rest control pending =>
      obtain ⟨d, fits, -, -⟩ := hm.of_fail control
      rw [pending] at fits
      have hdepth := fits.reenter_depth
      by_cases hlt : depth < m.store.depth
      · refine .cut (k := max 1 depth) ?_ (by simp only [hlt, if_true, Store.frames_truncate])
        show height rest ≤ _
        omega
      · exact .keep (by simp only [hlt, if_false])
  | @collapseHost text name site depth rest control pending =>
      obtain ⟨d, fits, -⟩ := hm.of_crash control
      rw [pending] at fits
      have hdepth := fits.hostCall_depth
      refine .cut (k := max 1 depth) ?_ (Store.frames_truncate _ _)
      show height rest ≤ _
      omega
  | _ => exact .keep rfl

lemma reframes_call {name : String} {args : List Value} {site : Span} (hm : Sound m)
    (hc : m.control = .call name args site) : Reframes m (m.call name args site) := by
  have hdepth := (hm.balanced (d := .value) (by rw [hc]; rfl)).2
  unfold call invoke
  repeat' split
  case isFalse => exact .push hdepth rfl
  all_goals exact .keep rfl

end Machine

/-- Tasks that lie below each of two different tasks on the same tasks lie below these. -/
lemma suffix_of_suffix_cons {p q : Pending} {rest K : List Pending} (hne : p ≠ q)
    (hp : K <:+ p :: rest) (hq : K <:+ q :: rest) : K <:+ rest := by
  rcases List.suffix_cons_iff.mp hp with rfl | h
  · rcases List.suffix_cons_iff.mp hq with heq | h
    · exact absurd (List.cons.inj heq).1 hne
    · exact h
  · exact h

namespace Session

open Machine

variable {s : Session}

/-- What a sound machine does to the frames when it goes on. -/
theorem proceed_reframes (hs : Sound s.machine) : Reframes s.machine s.proceed.machine := by
  refine (proceed_move false hs).reframes hs ?_ ?_
  · intro d hwork
    cases hc : s.machine.control with
    | eval n =>
        simp only [Session.proceed, hc]
        exact .keep (store_eval _ n)
    | exec n =>
        simp only [Session.proceed, hc]
        exact .keep (store_exec _ n)
    | block b =>
        simp only [Session.proceed, hc]
        exact .keep (store_block _ b)
    | choose branches =>
        simp only [Session.proceed, hc]
        exact .keep (store_choose _ branches)
    | call name args site =>
        simp only [Session.proceed, hc]
        exact reframes_call hs hc
    | _ => simp [hc, Control.work?] at hwork
  · intro p rest hp hplain hdue hresult
    refine reframes_task hs hp hplain hdue ?_
    rcases Control.hands hresult hdue with ⟨v, hc⟩ | ⟨c, hc⟩
    · exact .inl ⟨v, by rw [proceed_value hc, withTask_cons hp]⟩
    · exact .inr ⟨s.controller.cancelled, c, by rw [proceed_complete hc, withTask_cons hp]⟩

/-- What a step of a sound machine does to the frames. -/
theorem step_reframes (hs : Sound s.machine) : Reframes s.machine s.step.machine :=
  machine_step (.keep rfl) (proceed_reframes hs) fun _ _ => .keep rfl

lemma happen_reframes (hs : Sound s.machine) (e : Event) :
    Reframes s.machine (s.happen e).machine := by
  by_cases he : e = .step
  · rw [he]
    exact step_reframes hs
  · rcases happen_command s he with h | ⟨site, next, -, h⟩
    · exact .keep (by rw [h])
    · exact .keep (by rw [h]; rfl)

/-! ### What a run leaves of the frames -/

/-- A piece of a run spares the frames below `top`, if these belong to the tasks it stays within,
and no statement of the call in the frame at `top - 1` is executed meanwhile. -/
theorem spares_within {K : List Pending} {top : Nat} {es : List Event} (hs : Sound s.machine)
    (h : Within K s es) (htop : top ≤ height K)
    (hbind : ∀ rest, K <:+ rest → Fits .completion rest → top < height rest) :
    s.machine.store.Spares top (s.after es).machine.store := by
  induction es generalizing s with
  | nil => exact .refl _ _
  | cons e es ih =>
      obtain ⟨hK, hrest⟩ := within_cons.mp h
      refine Store.Spares.trans ?_ (ih (sound_happen hs e) hrest)
      have hK' := hrest.start
      have hheight := height_le_of_suffix hK
      have hheight' := height_le_of_suffix hK'
      cases happen_reframes hs e with
      | keep store =>
          rw [store]
          exact .refl _ _
      | @bind p rest name v pending pending' fits depth store =>
          rw [store]
          refine .assign ?_ name v
          rw [depth]
          refine hbind rest ?_ fits
          -- the task that binds the name is none of those the piece stays within
          rw [pending] at hK
          rcases pending' with hpending | ⟨q, hq, hpending⟩
          · exact hpending ▸ hK'
          · rw [hpending] at hK'
            exact suffix_of_suffix_cons hq.symm hK hK'
      | push depth store =>
          rw [store]
          exact .of_vars? fun i hi => Store.vars?_push (by omega) _ _
      | cut below frames =>
          exact .of_vars? fun i hi => Store.vars?_of_frames_take frames (by omega)

/-- A frame that stays on the stack keeps its names. -/
theorem retains_after {i : Nat} {es : List Event} (hs : Sound s.machine)
    (h : ∀ es', es' <+: es → i < (s.after es').machine.store.depth) :
    s.machine.store.Retains i (s.after es).machine.store := by
  induction es generalizing s with
  | nil => exact .of_getElem? rfl
  | cons e es ih =>
      have hrest : ∀ es', es' <+: es → i < ((s.happen e).after es').machine.store.depth :=
        fun es' hes' => h (e :: es') (List.cons_prefix_cons.mpr ⟨rfl, hes'⟩)
      refine Store.Retains.trans ?_ (ih (sound_happen hs e) hrest)
      have hi := h [] List.nil_prefix
      have hi' := hrest [] List.nil_prefix
      simp only [after_nil] at hi hi'
      cases happen_reframes hs e with
      | keep store => exact .of_getElem? (by rw [store])
      | bind _ _ _ _ store =>
          rw [store]
          exact .assign _ _ _ _
      | push _ store =>
          refine .of_getElem? ?_
          rw [store, Store.frames_push, List.getElem?_append_left (by simpa using hi)]
      | @cut k _ frames =>
          refine .of_getElem? ?_
          rw [← Store.length_frames, frames, List.length_take] at hi'
          rw [frames, List.getElem?_take_of_lt (by omega)]

/-- **Two scopes.**  Take any moment `a` of any run, with any host functions, and let anything
happen until a later moment.

* Let an expression begin to be evaluated or a function be called at `a`, and let the later moment
  be one of that, up to its end, whether it has a value or fails.  Then each frame but the global
  one has the variables it had, and the global frame has the names it had.
* Let a statement begin at `a`, and let the later moment be one of its execution, up to its end.
  Then the frames between the global one and the current one have the variables they had, and if
  these two are not the same, the global frame has the names it had.
* A frame that is on the stack all the while has all the names it had. -/
theorem two_level_scoping {a : Session} (ha : a.Reachable) (es : List Event) :
    ((∃ n, a.machine.control = .eval n) ∨
        (∃ name args site, a.machine.control = .call name args site) →
      Within a.machine.pending a es →
      (∀ i, 0 < i → i < a.machine.store.depth →
        (a.after es).machine.store.vars? i = a.machine.store.vars? i) ∧
      ∀ name, (a.after es).machine.store.binds 0 name = a.machine.store.binds 0 name) ∧
    ((∃ n, a.machine.control = .reach n ∨ a.machine.control = .exec n) →
      Within a.machine.pending a es →
      (∀ i, 0 < i → i + 1 < a.machine.store.depth →
        (a.after es).machine.store.vars? i = a.machine.store.vars? i) ∧
      (1 < a.machine.store.depth →
        ∀ name, (a.after es).machine.store.binds 0 name = a.machine.store.binds 0 name)) ∧
    ∀ i, (∀ es', es' <+: es → i < (a.after es').machine.store.depth) →
      ((a.after es).machine.store.frames[i]?).map Frame.id =
          (a.machine.store.frames[i]?).map Frame.id ∧
        ∀ name, a.machine.store.binds i name = true →
          (a.after es).machine.store.binds i name = true := by
  have hsound := ha.sound
  have hpos := a.machine.store.depth_eq
  refine ⟨fun hbegins hwithin => ?_, fun hbegins hwithin => ?_, fun i hi => ?_⟩
  · have hdue : a.machine.control.due? = some .value ∧ ∀ v, a.machine.control ≠ .value v := by
      rcases hbegins with ⟨n, hc⟩ | ⟨name, args, site, hc⟩
      · simp [hc, Control.due?]
      · simp [hc, Control.due?]
    obtain ⟨hfits, hdepth⟩ := hsound.of_due hdue.1 hdue.2
    -- no statement of the current call is executed while an expression is evaluated
    have hspares := spares_within hsound hwithin (Nat.le_of_eq hdepth) fun rest hrest hrest' => by
      obtain ⟨L, rfl⟩ := hrest
      have hle := height_le_of_suffix (List.suffix_append L a.machine.pending)
      have hne : height (L ++ a.machine.pending) ≠ height a.machine.pending :=
        fun heq => hfits.ne_completion hrest' heq rfl
      omega
    exact ⟨hspares.locals, hspares.globals (by omega)⟩
  · have hdepth : a.machine.store.depth = height a.machine.pending := by
      obtain ⟨n, hc | hc⟩ := hbegins
      · exact (hsound.balanced (d := .completion) (by rw [hc]; rfl)).2
      · exact (hsound.balanced (d := .completion) (by rw [hc]; rfl)).2
    have hspares : a.machine.store.Spares (a.machine.store.depth - 1) (a.after es).machine.store :=
      spares_within hsound hwithin (by omega) fun rest hrest _ => by
        have hle := height_le_of_suffix hrest
        omega
    exact ⟨fun i hi hik => hspares.locals i hi (by omega), fun _ => hspares.globals (by omega)⟩
  · have hretains := retains_after hsound hi
    have hlt := hi [] List.nil_prefix
    obtain ⟨f, hf⟩ : ∃ f, a.machine.store.frames[i]? = some f :=
      ⟨_, List.getElem?_eq_getElem (by simpa using hlt)⟩
    obtain ⟨g, hg, hid, hnames⟩ := hretains f hf
    refine ⟨by simp [hf, hg, hid], fun name hname => ?_⟩
    simp only [Store.binds, Store.vars?, hf, hg, Option.map_some, Option.getD_some] at hname ⊢
    exact hnames name hname

/-- A program with a variable `g` that calls a procedure `p`.  This has a variable `x` and calls
`heedless`, and so the procedure `f`, which assigns to both names and fails. -/
def meddling : Program where
  statements :=
    [.assignment .none (.identifier .none "g") (.literal .none (.bool false)),
     .call .none (some ⟨.none, "p"⟩) []]
  procedures :=
    [some (.of .none (some ⟨.none, "p"⟩) [] (.of .none
      [.assignment .none (.identifier .none "x") (.literal .none (.bool false)),
       .call (.point 3 1) (some ⟨.none, "HEEDLESS"⟩) []])),
     some (.of .none (some ⟨.none, "f"⟩) [] (.of .none
      [.assignment .none (.identifier .none "x") (.literal .none (.bool true)),
       .assignment .none (.identifier .none "g") (.literal .none (.bool true)),
       .return .none (.identifier .none "missing")]))]

/-- The moment at which `p` begins to evaluate the call of `heedless`. -/
def meddlingCall : Session :=
  (begun meddling { plugins := [{ functions := [("HEEDLESS", heedless)] }] }).after
    (List.replicate 26 .step)

/-- When the call is over, the variable of `p` is as it was, and the global one has changed. -/
theorem two_level_scoping_meddling :
    meddlingCall.Reachable ∧
      Within meddlingCall.machine.pending meddlingCall (List.replicate 31 .step) ∧
      meddlingCall.machine.store.vars? 1 = some ⟨[("x", .bool false)]⟩ ∧
      (meddlingCall.after (List.replicate 31 .step)).machine.store.vars? 1 =
        some ⟨[("x", .bool false)]⟩ ∧
      meddlingCall.machine.store.vars? 0 = some ⟨[("g", .bool false)]⟩ ∧
      (meddlingCall.after (List.replicate 31 .step)).machine.store.vars? 0 =
        some ⟨[("g", .bool true)]⟩ ∧
      ∀ name, (meddlingCall.after (List.replicate 31 .step)).machine.store.binds 0 name =
        meddlingCall.machine.store.binds 0 name := by
  have hreachable : meddlingCall.Reachable := ⟨{}, meddling, _, _, _, rfl, rfl⟩
  have hwithin : Within meddlingCall.machine.pending meddlingCall (List.replicate 31 .step) := by
    iterate 31 refine within_cons.mpr ⟨List.suffix_iff_eq_drop.mpr rfl, ?_⟩
    exact within_nil.mpr (List.suffix_iff_eq_drop.mpr rfl)
  obtain ⟨hvars, hnames⟩ :=
    (two_level_scoping hreachable (List.replicate 31 .step)).1 (.inl ⟨_, rfl⟩) hwithin
  exact ⟨hreachable, hwithin, rfl, hvars 1 (by decide) (by decide), rfl, rfl, hnames⟩

end Session

end Pseudocode
