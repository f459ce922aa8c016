/-
# The trail of a run

The trail is a record that is kept beside a run: it lists the statements that have begun and not
completed, the latest first, and tells what has become of each.  A failure ends the statements in
execution from the innermost one outwards until it comes to a host function.  The statements it
has ended stay on the trail: the host function may pass the failure on, and then they have been
ended by a failure that is still on its way up, or it may end without doing so, and then they have
been dropped.  They go when the statement around them completes.

The main result is `Machine.Move.located`: a move keeps the current statement of the machine first
on the trail.
-/
import Pseudocode.Proofs.Moves

namespace Pseudocode

/-- What a failure was when it arose.  Host functions may put it into contexts, and it is given the
frames it was raised in on its way. -/
inductive Origin where
  | fault (kind : FaultKind) (detail : String) (span : Span) (hint : String)
      (cause : Option HostError)
  | stopped
  | host (e : HostError)
deriving DecidableEq

/-- Whether a failure of this origin was raised by the evaluation. -/
def Origin.isOwn : Origin → Bool
  | .host _ => false
  | _ => true

namespace Failure

def origin : Failure → Origin
  | .fault f => .fault f.kind f.detail f.span f.hint f.cause
  | .stopped => .stopped
  | .host e => .host e
  | .wrapped _ inner => inner.origin

@[simp] lemma isOwn_origin (e : Failure) : e.origin.isOwn = e.isOwn := by
  induction e with
  | fault f => rfl
  | stopped => rfl
  | host e => rfl
  | wrapped context inner ih => exact ih

end Failure

/-- What has become of a statement that has begun and not completed. -/
inductive Fate where
  /-- It is in execution. -/
  | active
  /-- It was ended by the failure that is on its way up. -/
  | lost (o : Origin)
  /-- It was ended by a failure that has come to a host function.  The call of the host function is
  told by the number of tasks, itself included, that it has been put on top of. -/
  | held (o : Origin) (call : Nat)
  /-- It was ended by a failure that a host function has not passed on. -/
  | dropped
deriving DecidableEq

namespace Fate

/-- Whether the statement has been ended by a failure. -/
def isOver : Fate → Bool
  | .active => false
  | _ => true

/-- The failure on its way up comes to a host function. -/
def handOver (call : Nat) : Fate → Fate
  | .lost o => .held o call
  | f => f

/-- A host function comes to its end, and may pass on a failure that came to it. -/
def settle (call : Nat) (passed : Option Origin) : Fate → Fate
  | .held o c =>
      if c = call then
        if passed = some o then .lost o else .dropped
      else .held o c
  | f => f

@[simp] lemma isOver_handOver (call : Nat) (f : Fate) : (f.handOver call).isOver = f.isOver := by
  cases f <;> rfl

@[simp] lemma isOver_settle (call : Nat) (passed : Option Origin) (f : Fate) :
    (f.settle call passed).isOver = f.isOver := by
  cases f with
  | held o c =>
      simp only [settle]
      split
      · split
        · rfl
        · rfl
      · rfl
  | _ => rfl

end Fate

/-- A statement that has begun. -/
structure Begun where
  span : Span
  fate : Fate := .active

/-- The statements that have begun and have not completed, the latest first.  Those begun inside a
statement go with it when it completes. -/
abbrev Trail := List Begun

namespace Trail

/-- The latest statement of a trail. -/
def span (T : Trail) : Span := (T.head?.map (·.span)).getD .none

/-- The innermost statement in execution completes. -/
def close : Trail → Trail
  | [] => []
  | x :: T => if x.fate.isOver then close T else T

/-- The innermost statement in execution is ended by a failure. -/
def lose (o : Origin) : Trail → Trail
  | [] => []
  | x :: T => if x.fate.isOver then x :: lose o T else { x with fate := .lost o } :: T

/-- The fates of the statements change. -/
def change (g : Fate → Fate) (T : Trail) : Trail := T.map fun x => { x with fate := g x.fate }

variable {T ended below : Trail} {x : Begun}

lemma close_append (hended : ∀ y ∈ ended, y.fate.isOver = true) (hx : x.fate.isOver = false) :
    close (ended ++ x :: below) = below := by
  induction ended with
  | nil => simp [close, hx]
  | cons y ended ih =>
      obtain ⟨hy, hended⟩ := List.forall_mem_cons.mp hended
      simp only [List.cons_append, close]
      rw [if_pos hy]
      exact ih hended

lemma lose_append (hended : ∀ y ∈ ended, y.fate.isOver = true) (hx : x.fate.isOver = false)
    (o : Origin) :
    lose o (ended ++ x :: below) = ended ++ { x with fate := .lost o } :: below := by
  induction ended with
  | nil => simp [lose, hx]
  | cons y ended ih =>
      obtain ⟨hy, hended⟩ := List.forall_mem_cons.mp hended
      simp only [List.cons_append, lose]
      rw [if_pos hy, ih hended]

lemma mem_of_mem_close (h : x ∈ close T) : x ∈ T := by
  induction T with
  | nil => exact h
  | cons y T ih =>
      simp only [close] at h
      split at h
      · exact List.mem_cons_of_mem _ (ih h)
      · exact List.mem_cons_of_mem _ h

lemma span_append_cons (ended below : Trail) (x y : Begun) (h : y.span = x.span) :
    span (ended ++ y :: below) = span (ended ++ x :: below) := by
  cases ended with
  | nil => simp [span, h]
  | cons z ended => rfl

lemma span_change (g : Fate → Fate) (T : Trail) : span (change g T) = span T := by
  cases T <;> rfl

lemma forall_mem_change {g : Fate → Fate} {P : Fate → Prop} (h : ∀ y ∈ T, P (g y.fate)) :
    ∀ y ∈ change g T, P y.fate := by
  intro y hy
  obtain ⟨z, hz, rfl⟩ := List.mem_map.mp hy
  exact h z hz

end Trail

/-- The statements on the trail which are in execution are those that the tasks will leave, and
each task goes back to the statement that was the latest one when its own began. -/
def Tracks : Trail → List Pending → Prop
  | T, [] => ∀ x ∈ T, x.fate.isOver = true
  | T, .leave outer :: K => ∃ ended x below, T = ended ++ x :: below ∧
      (∀ y ∈ ended, y.fate.isOver = true) ∧ x.fate.isOver = false ∧ outer = Trail.span below ∧
      Tracks below K
  | T, _ :: K => Tracks T K

namespace Tracks

variable {T L : Trail} {K : List Pending} {p : Pending}

lemma cons_iff (hp : ∀ outer, p ≠ .leave outer) : Tracks T (p :: K) ↔ Tracks T K := by
  cases p with
  | leave outer => exact absurd rfl (hp outer)
  | _ => rfl

lemma cons_iff_of_isPlain (hp : p.isPlain = true) : Tracks T (p :: K) ↔ Tracks T K := by
  refine cons_iff fun outer houter => ?_
  simp [houter, Pending.isPlain] at hp

/-- Statements that are over may lie on the trail. -/
lemma append (h : Tracks T K) (hL : ∀ y ∈ L, y.fate.isOver = true) : Tracks (L ++ T) K := by
  induction K with
  | nil =>
      intro x hx
      rcases List.mem_append.mp hx with hx | hx
      · exact hL x hx
      · exact h x hx
  | cons p K ih =>
      cases p with
      | leave outer =>
          obtain ⟨ended, x, below, rfl, hended, hx, houter, hbelow⟩ := h
          refine ⟨L ++ ended, x, below, (List.append_assoc _ _ _).symm, ?_, hx, houter, hbelow⟩
          intro y hy
          rcases List.mem_append.mp hy with hy | hy
          · exact hL y hy
          · exact hended y hy
      | _ => exact ih h

/-- It does not matter what has become of the statements that are over. -/
lemma change {g : Fate → Fate} (hg : ∀ f, (g f).isOver = f.isOver) (h : Tracks T K) :
    Tracks (Trail.change g T) K := by
  induction K generalizing T with
  | nil =>
      exact Trail.forall_mem_change (P := (·.isOver = true)) fun y hy => (hg y.fate).trans (h y hy)
  | cons p K ih =>
      cases p with
      | leave outer =>
          obtain ⟨ended, x, below, rfl, hended, hx, houter, hbelow⟩ := h
          refine ⟨Trail.change g ended, _, Trail.change g below, List.map_append, ?_,
            (hg x.fate).trans hx, ?_, ih hbelow⟩
          · exact Trail.forall_mem_change (P := (·.isOver = true))
              fun y hy => (hg y.fate).trans (hended y hy)
          · rw [houter, Trail.span_change]
      | _ => exact ih h

/-- When a statement completes, the trail is as it was when it began. -/
lemma close {outer : Span} (h : Tracks T (.leave outer :: K)) :
    Tracks (Trail.close T) K ∧ outer = Trail.span (Trail.close T) := by
  obtain ⟨ended, x, below, rfl, hended, hx, houter, hbelow⟩ := h
  rw [Trail.close_append hended hx]
  exact ⟨hbelow, houter⟩

/-- When a statement is ended by a failure, it stays on the trail. -/
lemma lose {outer : Span} (h : Tracks T (.leave outer :: K)) (o : Origin) :
    Tracks (Trail.lose o T) K ∧ Trail.span (Trail.lose o T) = Trail.span T ∧
      (∃ x ∈ Trail.lose o T, x.fate = .lost o) ∧
      ∀ x ∈ Trail.lose o T, x.fate = .lost o ∨ x ∈ T := by
  obtain ⟨ended, x, below, rfl, hended, hx, -, hbelow⟩ := h
  rw [Trail.lose_append hended hx]
  refine ⟨?_, Trail.span_append_cons _ _ _ _ rfl,
    ⟨_, List.mem_append_right _ List.mem_cons_self, rfl⟩, ?_⟩
  · rw [List.append_cons]
    refine hbelow.append fun y hy => ?_
    rcases List.mem_append.mp hy with hy | hy
    · exact hended y hy
    · rw [List.mem_singleton.mp hy]
      rfl
  · intro y hy
    rcases List.mem_append.mp hy with hy | hy
    · exact .inr (List.mem_append_left _ hy)
    · rcases List.mem_cons.mp hy with rfl | hy
      · exact .inl rfl
      · exact .inr (List.mem_append_right _ (List.mem_cons_of_mem _ hy))

end Tracks

/-- The name and the call of the host function that a task leaves, if it is one of those. -/
def Pending.host? : Pending → Option (String × Span)
  | .hostCall name site _ => some (name, site)
  | _ => none

/-- The call of a host function is under way which has been put on top of so many tasks, itself
included. -/
def HostAt (K : List Pending) (call : Nat) : Prop :=
  ∃ p rest, p :: rest <:+ K ∧ p.host?.isSome = true ∧ (p :: rest).length = call

namespace HostAt

variable {p : Pending} {K : List Pending} {call : Nat}

lemma push (h : HostAt K call) : HostAt (p :: K) call := by
  obtain ⟨q, rest, hsuffix, hq, hcall⟩ := h
  exact ⟨q, rest, hsuffix.trans (List.suffix_cons p K), hq, hcall⟩

lemma pop (h : HostAt (p :: K) call) :
    HostAt K call ∨ p.host?.isSome = true ∧ K.length + 1 = call := by
  obtain ⟨q, rest, hsuffix, hq, hcall⟩ := h
  rcases List.suffix_cons_iff.mp hsuffix with heq | hsuffix
  · obtain ⟨rfl, rfl⟩ := List.cons.inj heq
    exact .inr ⟨hq, hcall⟩
  · exact .inl ⟨q, rest, hsuffix, hq, hcall⟩

lemma pop_of_host?_eq_none (hp : p.host? = none) (h : HostAt (p :: K) call) : HostAt K call := by
  refine h.pop.resolve_right ?_
  rintro ⟨hsome, -⟩
  simp [hp] at hsome

end HostAt

lemma Pending.host?_of_isPlain {p : Pending} (hp : p.isPlain = true) : p.host? = none := by
  cases p <;> first | rfl | simp [isPlain] at hp

namespace Machine

/-- The failure that a breakdown becomes: that of the innermost host function, or else that of the
run as a whole. -/
def breakdown (m : Machine) (text : String) : Failure :=
  match m.pending.findSome? Pending.host? with
  | some (name, site) =>
      .fault { kind := .hostFunction, detail := name ++ ": " ++ text, span := site }
  | none =>
      .fault
        { kind := .invalidOperation, detail := "internal error: " ++ text, span := m.current }

/-- The failure on its way up, if there is one. -/
def inFlight? (m : Machine) : Option Failure :=
  match m.control with
  | .fail e => some e
  | .crash text => some (m.breakdown text)
  | _ => none

/-- The trail after a step of the machine. -/
def observe (m : Machine) (T : Trail) : Trail :=
  match m.control, m.pending with
  | .reach n, _ => { span := n.span } :: T
  | .complete _, .leave _ :: _ => Trail.close T
  | .fail e, .leave _ :: _ => Trail.lose e.origin T
  | .crash text, .leave _ :: _ => Trail.lose (m.breakdown text).origin T
  | .fail _, .reenter _ _ _ :: rest => Trail.change (Fate.handOver rest.length) T
  | .value _, .hostCall _ _ _ :: rest => Trail.change (Fate.settle (rest.length + 1) none) T
  | .fail e, .hostCall _ _ _ :: rest =>
      Trail.change (Fate.settle (rest.length + 1) (some e.origin)) T
  | .crash _, .hostCall _ _ _ :: rest => Trail.change (Fate.settle (rest.length + 1) none) T
  | _, _ => T

/-- What the fate of a statement tells about the machine. -/
def Accords (m : Machine) : Fate → Prop
  | .active => True
  | .lost o => o.isOwn = true ∧ ∃ e, m.inFlight? = some e ∧ e.origin = o
  | .held o call => o.isOwn = true ∧ HostAt m.pending call
  | .dropped => True

/-- The current statement is the first one of the trail.  The statements in execution are on it,
and what it tells about the others is true.  An error of the host's own is inside the call of its
host function. -/
structure Located (m : Machine) (T : Trail) : Prop where
  current : m.current = Trail.span T
  tracks : Tracks T m.pending
  fates : ∀ x ∈ T, m.Accords x.fate
  own : ∀ e, m.control = .fail e → e.isOwn = true ∨ Fits .action m.pending

/-- A failure of the evaluation that is on its way up stays so. -/
def Carries (m m' : Machine) : Prop :=
  ∀ e, m.inFlight? = some e → e.isOwn = true → ∃ e', m'.inFlight? = some e' ∧ e'.origin = e.origin

variable {fragile : Bool} {m m' : Machine} {T : Trail}

lemma inFlight?_of_due {d : Due} (h : m.control.due? = some d) : m.inFlight? = none := by
  unfold inFlight?
  split
  · rename_i e hc
    simp [hc, Control.due?] at h
  · rename_i text hc
    simp [hc, Control.due?] at h
  · rfl

lemma carries_of_due {d : Due} (h : m.control.due? = some d) : Carries m m' := by
  intro e he
  simp [inFlight?_of_due h] at he

lemma Accords.mono {f : Fate} (h : m.Accords f) (hcarries : Carries m m')
    (hcalls : ∀ call, HostAt m.pending call → HostAt m'.pending call) : m'.Accords f := by
  cases f with
  | active => trivial
  | lost o =>
      obtain ⟨hown, e, he, rfl⟩ := h
      exact ⟨hown, hcarries e he (by simpa using hown)⟩
  | held o call => exact ⟨h.1, hcalls call h.2⟩
  | dropped => trivial

/-- When a host function comes to its end, the statements ended by a failure that had come to it
are lost again, if it passes that failure on, or dropped. -/
lemma Accords.settle {f : Fate} {p : Pending} {rest : List Pending} (h : m.Accords f)
    (hpending : m.pending = p :: rest) (hpending' : m'.pending = rest) {passed : Option Origin}
    (hcarries : Carries m m') (hpassed : ∀ o, passed = some o → o.isOwn = true →
      ∃ e, m'.inFlight? = some e ∧ e.origin = o) :
    m'.Accords (f.settle (rest.length + 1) passed) := by
  cases f with
  | active => trivial
  | lost o =>
      obtain ⟨hown, e, he, rfl⟩ := h
      exact ⟨hown, hcarries e he (by simpa using hown)⟩
  | held o call =>
      obtain ⟨hown, hcall⟩ := h
      simp only [Fate.settle]
      split
      · split
        · rename_i heq
          exact ⟨hown, hpassed o heq hown⟩
        · trivial
      · rename_i hne
        rw [hpending] at hcall
        rw [← hpending'] at hcall hne
        exact ⟨hown, hcall.pop.resolve_right fun heq => hne heq.2.symm⟩
  | dropped => trivial

/-- When a failure comes to a host function, the statements it has ended are held. -/
lemma Accords.handOver {f : Fate} (h : m.Accords f) {site : Span} {depth : Nat}
    {next : Except Failure Value → Action Value} {rest : List Pending}
    (hpending : m.pending = .reenter site depth next :: rest) (hpending' : m'.pending = rest)
    (hhost : HostAt rest rest.length) : m'.Accords (f.handOver rest.length) := by
  cases f with
  | active => trivial
  | lost o => exact ⟨h.1, by rwa [hpending']⟩
  | held o call =>
      obtain ⟨hown, hcall⟩ := h
      rw [hpending] at hcall
      exact ⟨hown, by rw [hpending']; exact hcall.pop_of_host?_eq_none rfl⟩
  | dropped => trivial

/-- What goes on without a change of the trail. -/
lemma Located.mono (h : Located m T) (hcarries : Carries m m')
    (hcalls : ∀ call, HostAt m.pending call → HostAt m'.pending call)
    (hcurrent : m'.current = m.current) (htracks : Tracks T m'.pending)
    (hown : ∀ e, m'.control = .fail e → e.isOwn = true ∨ Fits .action m'.pending) :
    Located m' T :=
  ⟨hcurrent.trans h.current, htracks, fun x hx => (h.fates x hx).mono hcarries hcalls, hown⟩

lemma Plain.own_of_fail {d : Due} (h : Plain d m m') {e : Failure} (he : m'.control = .fail e) :
    e.isOwn = true := by
  cases h.shape with
  | fails control own _ =>
      rw [control, Control.fail.injEq] at he
      exact he ▸ own
  | goes control _ => simp [he, Control.plain?, Control.due?] at control
  | awaits _ _ control _ => simp [he, Control.plain?, Control.due?] at control

lemma Plain.tracks {d : Due} (h : Plain d m m') (ht : Tracks T m.pending) :
    Tracks T m'.pending := by
  cases h.shape with
  | fails _ _ pending => rwa [pending]
  | goes _ pending => rwa [pending]
  | awaits plain _ _ pending =>
      rw [pending]
      exact (Tracks.cons_iff_of_isPlain plain).mpr ht

lemma Plain.hostAt {d : Due} (h : Plain d m m') {call : Nat} (hcall : HostAt m.pending call) :
    HostAt m'.pending call := by
  cases h.shape with
  | fails _ _ pending => rwa [pending]
  | goes _ pending => rwa [pending]
  | awaits _ _ _ pending =>
      rw [pending]
      exact hcall.push

/-- The trail stays as it is if no statement begins and nothing is handed to a task. -/
lemma observe_of_not_result (hreach : ∀ n, m.control ≠ .reach n)
    (hresult : m.control.isResult = false) : m.observe T = T := by
  unfold observe
  cases hc : m.control with
  | reach n => exact absurd hc (hreach n)
  | value v | complete c | fail e | crash text => simp [hc, Control.isResult] at hresult
  | _ => rfl

lemma observe_of_work {d : Due} (h : m.control.work? = some d) : m.observe T = T := by
  cases hc : m.control with
  | reach n | value v | complete c | fail e | crash text => simp [hc, Control.work?] at h
  | _ => exact observe_of_not_result (by simp [hc]) (by rw [hc]; rfl)

/-- The trail stays as it is if no statement begins and the task on top, if there is one, is a
piece of work inside a statement. -/
lemma observe_eq_self (hreach : ∀ n, m.control ≠ .reach n)
    (htop : ∀ p rest, m.pending = p :: rest → p.isPlain = true) : m.observe T = T := by
  unfold observe
  split
  · rename_i hc
    exact absurd hc (hreach _)
  all_goals first | rfl | (rename_i heq; cases htop _ _ heq)

lemma observe_of_action (h : m.control.due? = some .action) : m.observe T = T := by
  cases hc : m.control with
  | reach n | value v | complete c | fail e | crash text => simp [hc, Control.due?] at h
  | _ => exact observe_of_not_result (by simp [hc]) (by rw [hc]; rfl)

/-- A breakdown that passes a task is the same afterwards. -/
lemma breakdown_pop {p : Pending} {rest : List Pending} {c : Control}
    (hpending : m.pending = p :: rest) (hp : p.host? = none) (text : String) :
    breakdown { m with pending := rest, control := c } text = m.breakdown text := by
  simp [breakdown, hpending, hp]

lemma isOwn_breakdown (m : Machine) (text : String) : (m.breakdown text).isOwn = true := by
  unfold breakdown
  split
  · rfl
  · rfl

lemma isOwn_hostFailure (name : String) (site : Span) (e : Failure) :
    (hostFailure name site e).isOwn = true := by
  unfold hostFailure
  split
  · assumption
  · rfl

lemma isOwn_of_passes {n : Node} {e : Failure} {c : Control} (h : passes n c)
    (hc : c = .fail e) : e.isOwn = true := by
  rw [hc] at h
  exact h

/-- A statement that begins is put on the trail. -/
lemma Located.begin (h : Located m T) {n : Node} (hm : m.control = .reach n)
    (hcurrent : m'.current = n.span) (hpending : m'.pending = .leave m.current :: m.pending)
    (hown : ∀ e, m'.control = .fail e → e.isOwn = true) : Located m' (m.observe T) := by
  have hobserve : m.observe T = { span := n.span } :: T := by simp only [observe, hm]
  rw [hobserve]
  refine ⟨hcurrent, ?_, ?_, fun e he => .inl (hown e he)⟩
  · rw [hpending]
    exact ⟨[], _, T, rfl, by simp, rfl, h.current, h.tracks⟩
  · refine List.forall_mem_cons.mpr ⟨trivial, fun x hx => (h.fates x hx).mono ?_ ?_⟩
    · exact carries_of_due (d := .completion) (by rw [hm]; rfl)
    · intro call hcall
      rw [hpending]
      exact hcall.push

/-- A failure ends the statement that is to be left next. -/
lemma Located.lose (h : Located m T) {outer : Span} {rest : List Pending} {f : Failure}
    (hpending : m.pending = .leave outer :: rest) (hf : m.inFlight? = some f)
    (hf' : m'.inFlight? = some f) (hown : f.isOwn = true) (hcurrent : m'.current = m.current)
    (hpending' : m'.pending = rest) (hown' : ∀ e, m'.control = .fail e → e.isOwn = true) :
    Located m' (Trail.lose f.origin T) := by
  have htracks := h.tracks
  rw [hpending] at htracks
  obtain ⟨htracks', hspan, -, hmem⟩ := htracks.lose f.origin
  refine ⟨?_, by rwa [hpending'], ?_, fun e he => .inl (hown' e he)⟩
  · rw [hcurrent, h.current, hspan]
  · intro x hx
    rcases hmem x hx with hlost | hx
    · rw [hlost]
      exact ⟨by simpa using hown, f, hf', rfl⟩
    · refine (h.fates x hx).mono ?_ ?_
      · intro e he _
        rw [hf, Option.some.injEq] at he
        exact ⟨f, hf', by rw [he]⟩
      · intro call hcall
        rw [hpending] at hcall
        rw [hpending']
        exact hcall.pop_of_host?_eq_none rfl

/-- A failure passes a task, which may be the end of a statement. -/
lemma Located.pass (h : Located m T) {f : Failure} {p : Pending} {rest : List Pending}
    (hpending : m.pending = p :: rest) (hp : p.host? = none) (hf : m.inFlight? = some f)
    (hf' : m'.inFlight? = some f) (hown : f.isOwn = true) (hcurrent : m'.current = m.current)
    (hpending' : m'.pending = rest) (hown' : ∀ e, m'.control = .fail e → e.isOwn = true)
    (hend : ∀ outer, p = .leave outer → m.observe T = Trail.lose f.origin T)
    (hother : (∀ outer, p ≠ .leave outer) → m.observe T = T) : Located m' (m.observe T) := by
  by_cases hleave : ∃ outer, p = .leave outer
  · obtain ⟨outer, rfl⟩ := hleave
    rw [hend outer rfl]
    exact h.lose hpending hf hf' hown hcurrent hpending' hown'
  · have hne : ∀ outer, p ≠ .leave outer := fun outer houter => hleave ⟨outer, houter⟩
    have htracks := h.tracks
    rw [hpending, Tracks.cons_iff hne] at htracks
    rw [hother hne]
    refine h.mono ?_ ?_ hcurrent (by rwa [hpending']) fun e he => .inl (hown' e he)
    · intro e he _
      rw [hf, Option.some.injEq] at he
      exact ⟨f, hf', by rw [he]⟩
    · intro call hcall
      rw [hpending] at hcall
      rw [hpending']
      exact hcall.pop_of_host?_eq_none hp

/-- A host function comes to its end. -/
lemma Located.settle (h : Located m T) {name : String} {site : Span} {depth : Nat}
    {rest : List Pending} (hpending : m.pending = .hostCall name site depth :: rest)
    (hpending' : m'.pending = rest) {passed : Option Origin} (hcarries : Carries m m')
    (hpassed : ∀ o, passed = some o → o.isOwn = true → ∃ e, m'.inFlight? = some e ∧ e.origin = o)
    (hcurrent : m'.current = m.current) (hown : ∀ e, m'.control = .fail e → e.isOwn = true) :
    Located m' (Trail.change (Fate.settle (rest.length + 1) passed) T) := by
  have htracks := h.tracks
  rw [hpending, Tracks.cons_iff (by simp), ← hpending'] at htracks
  refine ⟨?_, htracks.change (Fate.isOver_settle _ _), ?_, fun e he => .inl (hown e he)⟩
  · rw [hcurrent, h.current, Trail.span_change]
  · exact Trail.forall_mem_change fun x hx =>
      (h.fates x hx).settle hpending hpending' hcarries hpassed

/-- A failure on its way up keeps the current statement first on the trail. -/
lemma located_unwind (hl : Located m T) {e : Failure} {p : Pending} {rest : List Pending}
    (control : m.control = .fail e) (pending : m.pending = p :: rest) (ht : p.takes ≠ .action)
    (hy : p.yields ≠ .action) :
    Located { m with pending := rest, control := .fail e } (m.observe T) := by
  have hflight : m.inFlight? = some e := by simp [inFlight?, control]
  have hhost : p.host? = none := by
    cases p with
    | hostCall _ _ _ => simp [Pending.takes] at ht
    | _ => rfl
  -- an error of the host's own has only the call of its host function above it
  have hown : e.isOwn = true := by
    rcases hl.own e control with hown | hfits
    · exact hown
    · rw [pending] at hfits
      exact absurd hfits.tail.1 ht
  refine hl.pass pending hhost hflight rfl hown rfl rfl ?_ ?_ ?_
  · rintro e' ⟨⟩
    exact hown
  · rintro outer rfl
    simp [observe, control, pending]
  · intro hne
    cases p with
    | leave outer => exact absurd rfl (hne outer)
    | reenter _ _ _ => simp [Pending.yields] at hy
    | hostCall _ _ _ => simp [Pending.takes] at ht
    | _ => simp [observe, control, pending]

/-- So does a breakdown. -/
lemma located_collapse (hl : Located m T) {text : String} {p : Pending} {rest : List Pending}
    (control : m.control = .crash text) (pending : m.pending = p :: rest)
    (ht : p.takes ≠ .action) :
    Located { m with pending := rest, control := .crash text } (m.observe T) := by
  have hhost : p.host? = none := by
    cases p with
    | hostCall _ _ _ => simp [Pending.takes] at ht
    | _ => rfl
  have hflight : m.inFlight? = some (m.breakdown text) := by simp [inFlight?, control]
  have hflight' : inFlight? { m with pending := rest, control := .crash text } =
      some (m.breakdown text) := by
    simp only [inFlight?, Option.some.injEq]
    exact breakdown_pop pending hhost text
  refine hl.pass pending hhost hflight hflight' (isOwn_breakdown m text) rfl rfl ?_ ?_ ?_
  · rintro e' ⟨⟩
  · rintro outer rfl
    simp [observe, control, pending]
  · intro hne
    cases p with
    | leave outer => exact absurd rfl (hne outer)
    | hostCall _ _ _ => simp [Pending.takes] at ht
    | _ => simp [observe, control, pending]

/-- A move keeps the current statement first on the trail. -/
theorem Move.located (h : Move fragile m m') (hm : Sound m) (hl : Located m T)
    (hrun : m'.control.settled? = none) : Located m' (m.observe T) := by
  have htail : ∀ {p : Pending} {rest : List Pending}, m.pending = p :: rest →
      (∀ outer, p ≠ .leave outer) → Tracks T rest := by
    intro p rest hp hne
    have htracks := hl.tracks
    rw [hp] at htracks
    exact (Tracks.cons_iff hne).mp htracks
  have hpop : ∀ {p : Pending} {rest : List Pending}, m.pending = p :: rest → p.host? = none →
      ∀ call, HostAt m.pending call → HostAt rest call := by
    intro p rest hp hnone call hcall
    rw [hp] at hcall
    exact hcall.pop_of_host?_eq_none hnone
  cases h with
  | stay control =>
      have hobserve : m.observe T = T := by
        cases hc : m.control with
        | reach n | value v | complete c | fail e | crash text =>
            simp [hc, Control.rests] at control
        | _ => exact observe_of_not_result (by simp [hc]) (by rw [hc]; rfl)
      rwa [hobserve]
  | plain control h =>
      rw [observe_of_work control]
      have hdue := (Control.due?_of_work? control).1
      exact hl.mono (carries_of_due hdue) (fun call => h.hostAt) h.current (h.tracks hl.tracks)
        fun e he => .inl (h.own_of_fail he)
  | task pending hp control result h =>
      have hobserve : m.observe T = T := by
        refine observe_eq_self (fun n hn => by simp [hn, Control.isResult] at result) ?_
        intro q K hq
        rw [pending, List.cons.injEq] at hq
        exact hq.1 ▸ hp
      rw [hobserve]
      have hrest := htail pending fun outer houter => by simp [houter, Pending.isPlain] at hp
      have hcalls := hpop pending (Pending.host?_of_isPlain hp)
      exact hl.mono (carries_of_due control) (fun call hcall => h.hostAt (hcalls call hcall))
        h.current (h.tracks hrest) fun e he => .inl (h.own_of_fail he)
  | reach control hc => exact hl.begin control rfl rfl fun e he => isOwn_of_passes hc he
  | breakdown control _ =>
      have hobserve : m.observe T = T := by simp only [observe, control]
      rw [hobserve]
      exact hl.mono (carries_of_due (d := .completion) (by rw [control]; rfl)) (fun _ => id) rfl
        hl.tracks (by rintro e ⟨⟩)
  | pass control hc =>
      have hobserve : m.observe T = T := by simp only [observe, control]
      rw [hobserve]
      exact hl.mono (carries_of_due (d := .completion) (by rw [control]; rfl)) (fun _ => id) rfl
        hl.tracks fun e he => .inl (isOwn_of_passes hc he)
  | leave control pending =>
      have hobserve : m.observe T = Trail.close T := by simp only [observe, control, pending]
      have htracks := hl.tracks
      rw [pending] at htracks
      rw [hobserve]
      refine ⟨htracks.close.2, htracks.close.1, fun x hx => ?_, by rintro e ⟨⟩⟩
      exact (hl.fates x (Trail.mem_of_mem_close hx)).mono
        (carries_of_due (d := .completion) (by rw [control]; rfl)) (hpop pending rfl)
  | enter control =>
      rw [observe_of_work (d := .value) (by rw [control]; rfl)]
      exact hl.mono (carries_of_due (d := .value) (by rw [control]; rfl)) (fun _ => HostAt.push)
        rfl hl.tracks (by rintro e ⟨⟩)
  | exit control pending =>
      have hobserve : m.observe T = T := by simp only [observe, control, pending]
      rw [hobserve]
      exact hl.mono (carries_of_due (d := .completion) (by rw [control]; rfl)) (hpop pending rfl)
        rfl (htail pending (by simp)) (by rintro e ⟨⟩)
  | enterHost control _ =>
      rw [observe_of_work (d := .value) (by rw [control]; rfl)]
      exact hl.mono (carries_of_due (d := .value) (by rw [control]; rfl)) (fun _ => HostAt.push)
        rfl hl.tracks (by rintro e ⟨⟩)
  | outcome control _ =>
      have hdue : m.control.due? = some .action := by rw [control]; rfl
      rw [observe_of_action hdue]
      -- nowhere else does an error of the host's own come up
      refine hl.mono (carries_of_due hdue) (fun _ => id) rfl hl.tracks fun e _ => .inr ?_
      exact (hm.of_due hdue (by simp [control])).1
  | request control control' keeps =>
      rw [observe_of_action control]
      refine hl.mono (carries_of_due control) ?_ keeps.current ?_ fun e he => ?_
      · rw [keeps.pending]
        exact fun _ => id
      · rw [keeps.pending]
        exact hl.tracks
      · simp [he, Control.due?] at control'
  | reenter control =>
      have hdue : m.control.due? = some .action := by rw [control]; rfl
      rw [observe_of_action hdue]
      exact hl.mono (carries_of_due hdue) (fun _ => HostAt.push) rfl hl.tracks (by rintro e ⟨⟩)
  | answer control pending =>
      have hobserve : m.observe T = T := by simp only [observe, control, pending]
      rw [hobserve]
      exact hl.mono (carries_of_due (d := .value) (by rw [control]; rfl)) (hpop pending rfl) rfl
        (htail pending (by simp)) (by rintro e ⟨⟩)
  | @exitHost v name site depth rest control pending =>
      have hobserve : m.observe T =
          Trail.change (Fate.settle (rest.length + 1) none) T := by
        simp only [observe, control, pending]
      rw [hobserve]
      exact hl.settle pending rfl (carries_of_due (d := .value) (by rw [control]; rfl))
        (by simp) rfl (by rintro e ⟨⟩)
  | unwind control pending ht hy => exact located_unwind hl control pending ht hy
  | @unwindHost e name site depth rest control pending =>
      have hobserve : m.observe T =
          Trail.change (Fate.settle (rest.length + 1) (some e.origin)) T := by
        simp only [observe, control, pending]
      -- a failure that came to the host function is passed on as it is
      have hpassed : e.isOwn = true → (hostFailure name site e).origin = e.origin := by
        intro hown
        simp [hostFailure, hown]
      rw [hobserve]
      refine hl.settle pending rfl ?_ ?_ rfl ?_
      · intro e' he' hown
        simp only [inFlight?, control, Option.some.injEq] at he'
        subst he'
        exact ⟨_, rfl, hpassed hown⟩
      · rintro o ⟨⟩ hown
        exact ⟨_, rfl, hpassed (by simpa using hown)⟩
      · rintro e' ⟨⟩
        exact isOwn_hostFailure name site e
  | @hand e e' site depth next rest control pending =>
      have hobserve : m.observe T = Trail.change (Fate.handOver rest.length) T := by
        simp only [observe, control, pending]
      have hhost : HostAt rest rest.length := by
        obtain ⟨d, fits, -, -⟩ := hm.of_fail control
        rw [pending] at fits
        obtain ⟨name, site', below, rfl, -⟩ := fits.tail.2.exists_hostCall
        exact ⟨_, below, List.suffix_rfl, rfl, rfl⟩
      rw [hobserve]
      refine ⟨?_, (htail pending (by simp)).change (Fate.isOver_handOver _), ?_, by rintro e ⟨⟩⟩
      · rw [Trail.span_change]
        exact hl.current
      · exact Trail.forall_mem_change fun x hx => (hl.fates x hx).handOver pending rfl hhost
  | collapse control pending ht => exact located_collapse hl control pending ht
  | @collapseHost text name site depth rest control pending =>
      have hobserve : m.observe T =
          Trail.change (Fate.settle (rest.length + 1) none) T := by
        simp only [observe, control, pending]
      have hbreakdown : m.breakdown text = .fault
          { kind := .hostFunction, detail := name ++ ": " ++ text, span := site } := by
        unfold Machine.breakdown
        rw [pending]
        rfl
      rw [hobserve]
      refine hl.settle pending rfl ?_ (by simp) rfl ?_
      · intro e he _
        simp only [inFlight?, control, Option.some.injEq, hbreakdown] at he
        exact ⟨_, rfl, by rw [← he]⟩
      · rintro e ⟨⟩
        rfl
  | finish _ _ control' _ => simp [control', Control.settled?] at hrun
  | close _ => simp [Machine.goto, Control.settled?] at hrun

end Machine

end Pseudocode
