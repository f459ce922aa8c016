/-
# What a run can get at

A run gets at lists through the values that it has: those of its variables, those that lists hold,
and those that are on their way between its tasks and host functions.  If at some moment all of them
are within a region from which no list outside can be reached, and the host functions are honest,
then the run stays within this region, however it goes on.  It changes lists of the region only, and
the lists that it makes belong to the region from then on.

The main results are

* `Session.In.happen`: a step and every command leave the session within the region;
* `Session.In.after`: so does every schedule.
-/
import Pseudocode.Proofs.Regions

namespace Pseudocode

variable {R : Region}

/-! ### A run within a region -/

/-- What is being done concerns lists of the region only. -/
def Control.In (R : Region) : Control → Prop
  | .value v | .complete (.returned v) | .ending (.completed v) | .ended (.completed v) => v.In R
  | .call _ args _ => ∀ v ∈ args, v.In R
  | .host _ a | .held _ a => a.In R
  | .fail e | .ending (.failed e _) | .ended (.failed e _) => e.In R
  | _ => True

/-- What remains to be done concerns lists of the region only. -/
def Pending.In (R : Region) : Pending → Prop
  | .binaryApply _ _ v | .relationApply _ _ v => v.In R
  | .items done _ | .args _ _ done _ => ∀ v ∈ done, v.In R
  | .each _ cursor _ _ => 0 < cursor.length → R.banks cursor.bank
  | .reenter _ _ next =>
      (∀ v : Value, v.In R → (next (.ok v)).In R) ∧ ∀ e : Failure, e.In R → (next (.error e)).In R
  | _ => True

lemma Value.listId?_of_operate? {h : Heap} {op : Kind} {v w r : Value}
    (hr : operate? h op v w = some r) : r.listId? = none := by
  cases op with
  | add =>
      simp only [operate?] at hr
      split at hr
      · exact Option.some.inj hr ▸ rfl
      · exact Option.some.inj hr ▸ rfl
  | sub | mul | div | mod | and | or => exact Option.some.inj hr ▸ rfl
  | _ => cases hr

lemma Value.listId?_of_ofLiteral {lit : Literal} {v : Value} (h : ofLiteral lit = .ok v) :
    v.listId? = none := by
  cases lit with
  | unsupported k => cases h
  | _ => exact Except.ok.inj h ▸ rfl

/-- What a loop reads is of the region. -/
lemma Cursor.in_of_read? {cursor : Cursor} {h : Heap} {i : Nat} {v : Value} (hc : h.Closed R)
    (hbank : 0 < cursor.length → R.banks cursor.bank) (hv : cursor.read? h i = some v) :
    v.In R := by
  unfold read? at hv
  split at hv
  · rename_i hlt
    rw [← Option.some.inj hv, Array.getD_eq_getD_getElem?]
    -- past the cells of its bank a loop reads nothing
    cases hcell : (h.cells cursor.bank)[i]? with
    | none => exact Value.in_of_listId?_eq_none rfl
    | some w => exact hc.holds _ (hbank (by omega)) w (Array.mem_of_getElem? hcell)
  · cases hv

namespace Machine

variable {m m' m'' : Machine} {v : Value} {c : Control} {p : Pending}

/-- Everything that the run can get at is within the region. -/
structure In (R : Region) (m : Machine) : Prop where
  heap : m.heap.Closed R
  store : m.store.In R
  control : m.control.In R
  pending : ∀ p ∈ m.pending, p.In R
  functions : m.functions.All Function.Honest
  failed : ∀ x, m.failedStack = some x → x.In R

/-- The run stays within the region, and has changed lists of the region only. -/
structure Remains (R : Region) (m m' : Machine) : Prop where
  within : m'.In R
  changes : Heap.ChangesIn R m.heap m'.heap

lemma In.remains (h : m'.In R) (hheap : m'.heap = m.heap) : Remains R m m' where
  within := h
  changes := by rw [hheap]

lemma In.goto (h : m.In R) (hc : c.In R) : (m.goto c).In R := { h with control := hc }

lemma In.await (h : m.In R) (hp : p.In R) (hc : c.In R) : (m.await p c).In R :=
  { h with control := hc, pending := List.forall_mem_cons.mpr ⟨hp, h.pending⟩ }

lemma In.goes (h : m.In R) (hc : c.In R) : Remains R m (m.goto c) := (h.goto hc).remains rfl

lemma In.awaits (h : m.In R) (hp : p.In R) (hc : c.In R) : Remains R m (m.await p c) :=
  (h.await hp hc).remains rfl

lemma In.raises (h : m.In R) (kind : FaultKind) (detail : String) (span : Span) :
    Remains R m (m.raise kind detail span) :=
  h.goes (Failure.in_of_stack?_eq_none rfl)

lemma In.snapshot (h : m.In R) : m.snapshot.In R := ⟨h.store, h.heap⟩

lemma In.readVariable (h : m.In R) (span : Span) (name : String) :
    Remains R m (m.readVariable span name) := by
  unfold Machine.readVariable
  split
  · rename_i hv
    exact h.goes (h.store.resolve? hv)
  · exact h.goes (Failure.in_of_stack?_eq_none rfl)

lemma In.makeList (h : m.In R) {done : List Value} (hdone : ∀ v ∈ done, v.In R)
    (ha : R.Admits m.heap (m.makeList done).heap) : Remains R m (m.makeList done) := by
  have hchange : Heap.ChangeIn R m.heap (m.makeList done).heap :=
    .alloc fun v hv => hdone v (by simpa using hv)
  refine ⟨{ h with heap := hchange.closed ha h.heap, control := ?_ }, .single hchange⟩
  exact Value.in_list (ha.lists _ (Nat.le_refl _) (by simp [Machine.makeList, Heap.alloc]))

lemma In.eval (h : m.In R) (n : Node) (ha : R.Admits m.heap (m.eval n).heap) :
    Remains R m (m.eval n) := by
  cases n with
  | missing => exact h.raises _ _ _
  | literal span lit =>
      simp only [Machine.eval]
      split
      · rename_i hv
        exact h.goes (Value.in_of_listId?_eq_none (Value.listId?_of_ofLiteral hv))
      · exact h.raises _ _ _
  | group span inner =>
      cases inner with
      | missing => exact h.raises _ _ _
      | _ => exact h.goes trivial
  | binary span op left right => exact h.awaits trivial trivial
  | negate span operand | not span operand => exact h.awaits trivial trivial
  | relation span op left right => exact h.awaits trivial trivial
  | identifier span name => exact h.readVariable span name
  | element span list index =>
      cases list with
      | none => exact h.raises _ _ _
      | some list => exact h.awaits trivial trivial
  | list span items =>
      cases items with
      | nil => exact h.makeList (List.forall_mem_nil _) ha
      | cons item rest => exact h.awaits (List.forall_mem_nil _) trivial
  | call span callee args =>
      cases callee with
      | none => exact h.raises _ _ _
      | some callee =>
          cases args with
          | nil => exact h.goes (List.forall_mem_nil _)
          | cons arg rest => exact h.awaits (List.forall_mem_nil _) trivial
  | _ => exact h.raises _ _ _

lemma In.readElement (h : m.In R) (span : Span) (name : String) (index : Value) :
    Remains R m (m.readElement span name index) := by
  unfold Machine.readElement
  split
  · exact h.raises _ _ _
  · split
    · exact h.raises _ _ _
    · rename_i id hname
      have hid : R.lists id := h.store.resolve? hname id rfl
      split
      · rename_i v hv
        split at hv
        · exact h.goes (h.heap.get? hid hv)
        · cases hv
      · exact h.raises _ _ _
    · exact h.raises _ _ _

lemma In.writeElement (h : m.In R) (span : Span) {id : ListId} (hid : R.lists id) (p : Int)
    (hv : v.In R) (ha : R.Admits m.heap (m.writeElement span id p v).heap) :
    Remains R m (m.writeElement span id p v) := by
  have hwrite : ∀ {g : Heap}, R.Admits m.heap g → Heap.ChangeIn R m.heap g →
      Remains R m { m with heap := g, control := .complete .next } := fun ha hchange =>
    ⟨{ h with heap := hchange.closed ha h.heap, control := trivial }, .single hchange⟩
  unfold Machine.writeElement at ha ⊢
  dsimp only at ha ⊢
  split
  · rename_i hp
    rw [if_pos hp] at ha
    exact hwrite ha (.set hid _ hv)
  · rename_i hp
    rw [if_neg hp] at ha
    split
    · rename_i hlast
      rw [if_pos hlast] at ha
      exact hwrite ha (.push hid hv)
    · exact h.raises _ _ _

/-- The list that a name is bound to is of the region, and so is a new one. -/
lemma In.listForWriting (h : m.In R) (name : String)
    (ha : R.Admits m.heap (m.listForWriting name).2.heap) :
    (m.listForWriting name).1.In R ∧ Remains R m (m.listForWriting name).2 := by
  unfold Machine.listForWriting at ha ⊢
  split
  · rename_i v hv
    exact ⟨h.store.resolve? hv, h.remains rfl⟩
  · rename_i hname
    simp only [hname] at ha
    have hchange : Heap.ChangeIn R m.heap (m.heap.alloc #[]).2 := .alloc (by simp)
    have hid : Value.In R (.list ⟨m.heap.lists.size⟩) :=
      Value.in_list (ha.lists _ (Nat.le_refl _) (by simp [Heap.alloc]))
    exact ⟨hid, { h with heap := hchange.closed ha h.heap, store := h.store.assign name hid },
      .single hchange⟩

lemma In.commit (h : m.In R) (hv : v.In R) (t : Target)
    (ha : R.Admits m.heap (m.commit v t).heap) : Remains R m (m.commit v t) := by
  cases t with
  | «variable» name =>
      exact ⟨{ h with store := h.store.assign name hv, control := trivial }, .refl⟩
  | element span name p =>
      -- what is written to the list comes after it has been made, if it has
      have hopening := (m.changes_listForWriting name).longer
      have hwriting : Heap.Longer (m.listForWriting name).2.heap
          (m.commit v (.element span name p)).heap := by
        simp only [Machine.commit]
        split
        · rename_i id m' heq
          rw [heq]
          exact (m'.changes_writeElement span id p v).longer
        · rename_i heq
          rw [heq]
          exact ⟨Nat.le_refl _, Nat.le_refl _⟩
      obtain ⟨hlist, hremains⟩ := h.listForWriting name (ha.left hwriting)
      replace ha := ha.right hopening
      simp only [Machine.commit] at ha ⊢
      split
      · rename_i id m' heq
        rw [heq] at ha hlist hremains
        have hwrites := hremains.within.writeElement span (hlist id rfl) p hv ha
        exact ⟨hwrites.within, hremains.changes.trans hwrites.changes⟩
      · rename_i heq
        rw [heq] at hremains
        exact ⟨(hremains.within.raises _ _ _).within, hremains.changes⟩

lemma In.assign (h : m.In R) (target value : Node) : Remains R m (m.assign target value) := by
  cases target with
  | identifier span name => exact h.awaits trivial trivial
  | element span list index =>
      cases list with
      | none => exact h.raises _ _ _
      | some list => exact h.awaits trivial trivial
  | _ => exact h.raises _ _ _

lemma In.invoke (h : m.In R) (name : String) (params : List String) (body : Block)
    {args : List Value} (hargs : ∀ v ∈ args, v.In R) (site : Span) :
    Remains R m (m.invoke name params body args site) := by
  have hvars : ∀ e ∈ ((Bindings.empty : Bindings Value).insertAll (params.zip args)).entries,
      e.2.In R :=
    Bindings.forall_mem_insertAll (P := Value.In R) (by simp [Bindings.empty]) fun e he =>
      hargs e.2 (List.of_mem_zip he).2
  unfold Machine.invoke
  split
  · exact h.raises _ _ _
  · refine In.remains { h with store := h.store.push name hvars, control := trivial, pending := ?_ }
      rfl
    exact List.forall_mem_cons.mpr ⟨trivial, h.pending⟩

lemma In.call (h : m.In R) (name : String) {args : List Value} (hargs : ∀ v ∈ args, v.In R)
    (site : Span) : Remains R m (m.call name args site) := by
  unfold Machine.call
  split
  · exact h.goes (Failure.in_of_stack?_eq_none rfl)
  · rename_i f hf
    have hhonest : f.Honest := h.functions.get hf
    split
    · exact h.raises _ _ _
    · cases f with
      | host arity body => exact h.awaits trivial (hhonest R args hargs)
      | declared params body => exact h.invoke name params body hargs site

lemma In.exec (h : m.In R) (n : Node) : Remains R m (m.exec n) := by
  cases n with
  | pass span => exact h.goes trivial
  | assignment span target value => exact h.assign target value
  | block b => exact h.goes trivial
  | repeatTimes span count body => exact h.awaits trivial trivial
  | repeatUntil span cond body => exact h.awaits trivial trivial
  | ifElse span branches => exact h.goes trivial
  | forEach span var source body =>
      cases var with
      | none => exact h.raises _ _ _
      | some var => exact h.awaits trivial trivial
  | «return» span value =>
      cases value with
      | missing => exact h.goes (Value.in_of_listId?_eq_none rfl)
      | _ => exact h.awaits trivial trivial
  | procedure p => exact h.raises _ _ _
  | missing => exact h.raises _ _ _
  | _ => exact h.awaits trivial trivial

lemma In.block (h : m.In R) (b : Block) : Remains R m (m.block b) := by
  cases b with
  | missing => exact h.raises _ _ _
  | of span statements => exact h.awaits trivial trivial

lemma In.choose (h : m.In R) (branches : List Branch) : Remains R m (m.choose branches) := by
  unfold Machine.choose
  split
  · exact h.goes trivial
  · exact h.goes trivial
  · exact h.awaits trivial trivial

/-- The cells that a loop is to read are those of its list. -/
lemma In.eachSource (h : m.In R) (hv : v.In R) (span : Span) (var : String) (body : Block) :
    Remains R m (m.resume v (.eachSource span var body)) := by
  cases v with
  | list id =>
      refine h.awaits (fun hlength => ?_) trivial
      by_cases hlt : id.index < m.heap.lists.size
      · exact h.heap.stored id hlt (hv id rfl)
      · -- a list that is not known is empty, so that the loop is not to read anything
        simp [Cursor.start, Heap.object_of_size_le (Nat.le_of_not_lt hlt)] at hlength
  | _ => exact h.raises _ _ _

lemma In.resume (h : m.In R) (hv : v.In R) (hp : p.In R)
    (ha : R.Admits m.heap (m.resume v p).heap) : Remains R m (m.resume v p) := by
  cases p with
  | binaryRight _ _ _ | relationRight _ _ _ => exact h.awaits hv trivial
  | binaryApply span op left =>
      simp only [Machine.resume]
      split
      · rename_i hr
        exact h.goes (Value.in_of_listId?_eq_none (Value.listId?_of_operate? hr))
      · exact h.raises _ _ _
  | relationApply span op left =>
      simp only [Machine.resume]
      split
      · exact h.goes (Value.in_of_listId?_eq_none rfl)
      · exact h.raises _ _ _
  | negate | not => exact h.goes (Value.in_of_listId?_eq_none rfl)
  | element span name => exact h.readElement span name v
  | items done rest =>
      have hdone : ∀ w ∈ v :: done, w.In R := List.forall_mem_cons.mpr ⟨hv, hp⟩
      cases rest with
      | nil => exact h.makeList hdone ha
      | cons item rest => exact h.awaits hdone trivial
  | args site name done rest =>
      have hdone : ∀ w ∈ v :: done, w.In R := List.forall_mem_cons.mpr ⟨hv, hp⟩
      cases rest with
      | nil => exact h.goes fun w hw => hdone w (List.mem_reverse.mp hw)
      | cons arg rest => exact h.awaits hdone trivial
  | targetIndex span name value =>
      simp only [Machine.resume]
      split
      · exact h.raises _ _ _
      · exact h.awaits trivial trivial
  | assign target => exact h.commit hv target ha
  | discard => exact h.goes trivial
  | returned => exact h.goes hv
  | timesCount span body =>
      simp only [Machine.resume]
      split
      · exact h.raises _ _ _
      · exact h.awaits trivial trivial
  | untilTest cond body =>
      simp only [Machine.resume]
      split
      · exact h.goes trivial
      · exact h.awaits trivial trivial
  | arm body rest =>
      simp only [Machine.resume]
      split
      · exact h.goes trivial
      · exact h.goes trivial
  | eachSource span var body => exact h.eachSource hv span var body
  | reenter site depth next => exact h.goes (hp.1 v hv)
  | _ => exact h.goes hv

lemma In.iterate (h : m.In R) (cancelled : Bool) (hp : p.In R) (hc : c.In R) :
    Remains R m (m.iterate cancelled p c) := by
  unfold Machine.iterate
  split
  · exact h.goes (Failure.in_of_stack?_eq_none rfl)
  · exact h.awaits hp hc

/-- A completed statement is followed by the next one, or by the next round of a loop. -/
lemma In.proceed_next (h : m.In R) (cancelled : Bool) (hp : p.In R) (hleave : ∀ o, p ≠ .leave o)
    (hinvocation : p ≠ .invocation) : Remains R m (m.proceed cancelled .next p) := by
  cases p with
  | leave outer => exact absurd rfl (hleave outer)
  | invocation => exact absurd rfl hinvocation
  | sequence rest =>
      cases rest with
      | nil => exact h.goes trivial
      | cons n rest => exact h.awaits trivial trivial
  | times i count body =>
      simp only [Machine.proceed]
      split
      · exact h.iterate cancelled trivial trivial
      · exact h.goes trivial
  | «until» cond body => exact h.iterate cancelled trivial trivial
  | each var cursor i body =>
      cases hv : cursor.read? m.heap i with
      | none =>
          simp only [Machine.proceed, hv]
          exact h.goes trivial
      | some v =>
          simp only [Machine.proceed, hv]
          have hin : v.In R := Cursor.in_of_read? h.heap hp hv
          split
          · exact h.goes (Failure.in_of_stack?_eq_none rfl)
          · refine In.remains { h with
              store := h.store.assign var hin, control := trivial, pending := ?_ } rfl
            exact List.forall_mem_cons.mpr ⟨hp, h.pending⟩
  | _ => exact h.goes trivial

lemma In.proceed (h : m.In R) (cancelled : Bool) {k : Completion} (hk : Control.In R (.complete k))
    (hp : p.In R) : Remains R m (m.proceed cancelled k p) := by
  cases p with
  | leave outer => exact In.remains { h with control := hk } rfl
  | invocation =>
      refine In.remains { h with store := h.store.pop, control := ?_ } rfl
      cases k with
      | next => exact Value.in_of_listId?_eq_none rfl
      | returned v => exact hk
  | _ =>
      cases k with
      | returned v => exact h.goes hk
      | next => exact h.proceed_next cancelled hp (by simp) (by simp)

lemma in_hostFailure {e : Failure} (he : e.In R) (name : String) (site : Span) :
    (hostFailure name site e).In R := by
  unfold hostFailure
  split
  · exact he
  · exact Failure.in_of_stack?_eq_none rfl

lemma In.unwind (h : m.In R) {e : Failure} (he : e.In R) (hp : p.In R) :
    Remains R m (m.unwind e p) := by
  unfold Machine.unwind
  split
  · exact h.goes (in_hostFailure he _ _)
  · split
    · refine In.remains { h with store := h.store.truncate _, control := ?_ } rfl
      exact hp.2 _ (he.withStack h.snapshot)
    · exact h.goes (hp.2 e he)
  · exact h.remains rfl

lemma In.collapse (h : m.In R) (text : String) (p : Pending) :
    Remains R m (m.collapse text p) := by
  unfold Machine.collapse
  split
  · exact In.remains { h with
      store := h.store.truncate _, control := Failure.in_of_stack?_eq_none rfl } rfl
  · exact h.remains rfl

end Machine

namespace Controller

lemma error_requestStop (c : Controller) : c.requestStop.error = c.error := by
  unfold requestStop
  split
  · rfl
  · rfl

lemma error_of_resume? {c c' : Controller} {stepping : Bool} (h : c.resume? stepping = some c') :
    c'.error = c.error := by
  rw [resume?_eq h]

end Controller

namespace Session

variable {s t : Session} {c : Control}

/-- Everything that the session can get at is within the region. -/
structure In (R : Region) (s : Session) : Prop where
  machine : s.machine.In R
  error : ∀ e, s.controller.error = some e → e.In R

/-- The session stays within the region, and has changed lists of the region only. -/
structure Remains (R : Region) (s t : Session) : Prop where
  within : t.In R
  changes : Heap.ChangesIn R s.machine.heap t.machine.heap

lemma In.remains (h : t.In R) (hheap : t.machine.heap = s.machine.heap) : Remains R s t where
  within := h
  changes := by rw [hheap]

lemma In.goto (h : s.In R) (hc : c.In R) : (s.goto c).In R := ⟨h.machine.goto hc, h.error⟩

lemma In.goes (h : s.In R) (hc : c.In R) : Remains R s (s.goto c) := (h.goto hc).remains rfl

lemma In.withMachine (h : s.In R) {m : Machine} (hm : m.In R) : In R { s with machine := m } :=
  ⟨hm, h.error⟩

/-- What the evaluator does leaves the session within the region. -/
lemma In.evaluates (h : s.In R) {m : Machine} (hm : Machine.Remains R s.machine m) :
    Remains R s { s with machine := m } :=
  ⟨h.withMachine hm.within, hm.changes⟩

lemma In.reach (h : s.In R) (n : Node) : (s.reach n).In R := by
  have hpending : ∀ p ∈ Pending.leave s.machine.current :: s.machine.pending, p.In R :=
    List.forall_mem_cons.mpr ⟨trivial, h.machine.pending⟩
  have harrived : ∀ steps, (s.arrived n steps).In R := fun _ =>
    h.withMachine { h.machine with pending := hpending }
  have hfails : ∀ {e : Failure}, e.stack? = none → Control.In R (.fail e) :=
    Failure.in_of_stack?_eq_none
  have harrival := s.arrival n
  generalize s.reach n = t at harrival ⊢
  cases harrival with
  | missing absent => exact (harrived _).goto (hfails rfl)
  | excess present exceeded => exact (harrived _).goto (hfails rfl)
  | told counted cancelled => exact (harrived _).goto (hfails rfl)
  | admitted counted cancelled => exact (harrived _).goto trivial

/-- A statement at its boundary concerns the controls, but not what they show of a failure. -/
lemma In.pass (h : s.In R) (n : Node) (p : Standing) : (s.pass n p).In R := by
  have hstopped : Control.In R (.fail .stopped) := Failure.in_of_stack?_eq_none rfl
  cases p with
  | admitted =>
      have hheeding := s.heeding n
      show (s.heed n).In R
      generalize s.heed n = t at hheeding ⊢
      cases hheeding with
      | begun token speed controller =>
          subst controller
          exact ⟨h.machine.goto trivial, h.error⟩
      | slowed stepping speed controller =>
          subst controller
          exact ⟨h.machine.goto trivial, h.error⟩
      | pauses stepping token phase controller =>
          subst controller
          exact ⟨h.machine.goto trivial, h.error⟩
  | throttled =>
      refine h.goto ?_
      split
      · exact hstopped
      · trivial
  | delayed =>
      refine h.goto ?_
      split
      · exact hstopped
      · trivial
  | paused =>
      have hwaking := s.waking n
      show (s.wake n).In R
      generalize s.wake n = t at hwaking ⊢
      cases hwaking with
      | polls wait =>
          refine ⟨h.machine, fun e he => h.error e ?_⟩
          rwa [Controller.poll_eq] at he
      | waits wait => exact h
      | begun wait => exact ⟨h.machine.goto trivial, h.error⟩
      | told wait => exact ⟨h.machine.goto hstopped, h.error⟩

lemma In.snapshot? (h : s.In R) {x : Snapshot} (hx : s.snapshot? = some x) : x.In R := by
  unfold Session.snapshot? at hx
  split at hx
  · split at hx
    · rename_i stack _ hstack
      rw [← Option.some.inj hx]
      exact h.machine.failed stack hstack
    · rw [← Option.some.inj hx]
      exact h.machine.snapshot
  · cases hx

lemma In.perform (h : s.In R) (site : Span) {q : Request} {next : q.Answer → Action Value}
    (hq : q.In R) (hnext : ∀ answer, q.AnswerIn R answer → (next answer).In R)
    (ha : R.Admits s.machine.heap (s.perform site q next).machine.heap) :
    Remains R s (s.perform site q next) := by
  have hchanges : ∀ {g : Heap} {c : Control}, R.Admits s.machine.heap g →
      Heap.ChangeIn R s.machine.heap g → c.In R →
      Remains R s { s with machine := { s.machine with heap := g, control := c } } :=
    fun ha hchange hc => h.evaluates
      ⟨{ h.machine with heap := hchange.closed ha h.machine.heap, control := hc }, .single hchange⟩
  cases q with
  | call name args =>
      refine h.evaluates (h.machine.awaits ⟨fun v hv => hnext (.ok v) hv, fun e he => ?_⟩ hq)
      exact hnext (.error e) he
  | heap => exact h.goes (hnext _ h.machine.heap)
  | make items =>
      refine hchanges ha (.alloc fun v hv => hq v (by simpa using hv)) (hnext _ ?_)
      exact ha.lists _ (Nat.le_refl _) (by
        simp [Session.perform, Session.answer, Session.goto, Machine.goto, Heap.alloc])
  | push id v => exact hchanges ha (.push hq.1 hq.2) (hnext () trivial)
  | insert id i v => exact hchanges ha (.insert hq.1 i hq.2) (hnext () trivial)
  | erase id i => exact hchanges ha (.erase hq i) (hnext () trivial)
  | status => exact h.goes (hnext _ h.error)
  | snapshot => exact h.goes (hnext _ fun x hx => h.snapshot? hx)
  | resume stepping =>
      simp only [Session.perform]
      split
      · rename_i k hk
        exact In.remains ⟨h.machine.goto (hnext _ trivial), fun e he =>
          h.error e (Controller.error_of_resume? hk ▸ he)⟩ rfl
      · exact h.goes (hnext _ trivial)
  | stop =>
      exact In.remains ⟨h.machine.goto (hnext () trivial), fun e he =>
        h.error e (s.controller.error_requestStop ▸ he)⟩ rfl
  | display _ | draw _ | consult =>
      exact In.remains ⟨{ h.machine with control := hnext _ trivial }, h.error⟩ rfl
  | _ => exact In.remains ⟨h.machine.goto (hnext _ trivial), h.error⟩ rfl

lemma In.act (h : s.In R) (site : Span) {a : Action Value} (hin : a.In R)
    (ha : R.Admits s.machine.heap (s.act site a).machine.heap) : Remains R s (s.act site a) := by
  cases hin with
  | pure hv => exact h.goes hv
  | fail he => exact h.goes he
  | crash text => exact h.goes trivial
  | ask hq hnext => exact h.perform site hq hnext ha

/-- It is shown how the run ended. -/
lemma In.finish (h : s.In R) {o : Outcome} (ho : Control.In R (.ending o)) : (s.finish o).In R := by
  cases o with
  | failed e' span =>
      exact ⟨h.machine.goto (c := .ended (.failed e' span)) ho,
        fun e he => Option.some.inj he ▸ ho⟩
  | completed v =>
      exact ⟨h.machine.goto (c := .ended (.completed v)) ho, fun e he => by cases he⟩
  | stopped => exact ⟨h.machine.goto (c := .ended .stopped) trivial, fun e he => by cases he⟩

lemma In.finishCompleted (h : s.In R) {k : Completion} (hk : Control.In R (.complete k)) :
    (s.finishCompleted k).In R := by
  cases k with
  | returned v => exact h.goto (c := .ending (.completed v)) hk
  | next =>
      simp only [Session.finishCompleted]
      split
      · exact h.goto (c := .ending .stopped) trivial
      · exact h.goto (c := .ending (.completed .nothing)) (Value.in_of_listId?_eq_none rfl)

lemma In.finishFailed (h : s.In R) {e : Failure} (he : e.In R) : (s.finishFailed e).In R := by
  unfold Session.finishFailed
  split
  · exact h.goto (c := .ending .stopped) trivial
  · have hfailed : Machine.In R { s.machine with failedStack := e.fault?.bind (·.stack) } :=
      { h.machine with failed := he }
    exact (h.withMachine hfailed).goto (c := .ending (.failed e s.machine.current)) he

lemma In.finishCrashed (h : s.In R) (text : String) : (s.finishCrashed text).In R :=
  h.goto (Failure.in_of_stack?_eq_none rfl : Failure.In R (.fault _))

/-- A task, or the end of the run, leaves the session within the region. -/
lemma In.withTask (h : s.In R) {next : Machine → Pending → Machine} {last : Session → Session}
    (hnext : ∀ m p, m.In R → p.In R → R.Admits m.heap (next m p).heap →
      Machine.Remains R m (next m p))
    (hlast : (last s).In R) (hheap : (last s).machine.heap = s.machine.heap)
    (ha : R.Admits s.machine.heap (s.withTask next last).machine.heap) :
    Remains R s (s.withTask next last) := by
  cases hpending : s.machine.pending with
  | nil =>
      rw [withTask_nil hpending]
      exact hlast.remains hheap
  | cons p rest =>
      have htasks := h.machine.pending
      rw [hpending] at htasks
      obtain ⟨hp, hrest⟩ := List.forall_mem_cons.mp htasks
      have hm : Machine.In R { s.machine with pending := rest } :=
        { h.machine with pending := hrest }
      rw [withTask_cons hpending] at ha ⊢
      have hremains := hnext _ p hm hp ha
      exact h.evaluates ⟨hremains.within, hremains.changes⟩

/-- A run that goes on leaves the session within the region, if that has what is new. -/
theorem In.proceed (h : s.In R) (ha : R.Admits s.machine.heap s.proceed.machine.heap) :
    Remains R s s.proceed := by
  -- lists are made by expressions, by tasks that take a value, and by host functions only
  have hcontrol := h.machine.control
  unfold Session.proceed at ha ⊢
  cases hc : s.machine.control with
  | idle | ended o | held site next => exact h.remains rfl
  | boundary p n => exact (h.pass n p).remains (s.heap_pass n p)
  | ending o =>
      rw [hc] at hcontrol
      exact (h.finish hcontrol).remains rfl
  | reach n => exact (h.reach n).remains (s.heap_reach n)
  | host site a =>
      simp only [hc] at ha hcontrol
      exact h.act site hcontrol ha
  | eval n =>
      simp only [hc] at ha
      exact h.evaluates (h.machine.eval n ha)
  | exec n => exact h.evaluates (h.machine.exec n)
  | block b => exact h.evaluates (h.machine.block b)
  | choose branches => exact h.evaluates (h.machine.choose branches)
  | call name args site =>
      rw [hc] at hcontrol
      exact h.evaluates (h.machine.call name hcontrol site)
  | value v =>
      simp only [hc] at ha hcontrol
      exact h.withTask (fun m p hm hp ha => hm.resume hcontrol hp ha) (h.finishCompleted trivial)
        (s.heap_finishCompleted .next) ha
  | complete k =>
      simp only [hc] at ha
      rw [hc] at hcontrol
      exact h.withTask (fun m p hm hp _ => hm.proceed _ hcontrol hp) (h.finishCompleted hcontrol)
        (s.heap_finishCompleted k) ha
  | fail e =>
      simp only [hc] at ha hcontrol
      exact h.withTask (fun m p hm hp _ => hm.unwind hcontrol hp) (h.finishFailed hcontrol)
        (s.heap_finishFailed e) ha
  | crash text =>
      simp only [hc] at ha
      exact h.withTask (fun m p hm _ _ => hm.collapse text p) (h.finishCrashed text) rfl ha

/-- So does a step; a report concerns the controls only. -/
lemma In.step (h : s.In R) (ha : R.Admits s.machine.heap s.step.machine.heap) :
    Remains R s s.step := by
  revert ha
  refine step_cases (P := fun t => R.Admits s.machine.heap t.machine.heap → Remains R s t) ?_ ?_ ?_
  · exact fun _ _ _ => In.remains ⟨h.machine, h.error⟩ rfl
  · exact fun _ _ _ => In.remains ⟨h.machine.goto trivial, h.error⟩ rfl
  · exact fun _ => h.proceed

lemma error_happen (s : Session) {e : Event} (he : e ≠ .step) :
    (s.happen e).controller.error = s.controller.error := by
  cases e with
  | step => exact absurd rfl he
  | stop =>
      simp only [happen, askStop]
      split
      · exact s.controller.error_requestStop
      · rfl
  | report =>
      simp only [happen, reportCall]
      split
      · rfl
      · rfl
  | resume stepping =>
      rw [happen_resume]
      cases hk : s.controller.resume? stepping with
      | none => rfl
      | some k => exact Controller.error_of_resume? hk
  | cancel =>
      simp only [happen, cancel]
      split
      · rfl
      · rfl
  | setSpeed n => rfl
  | favour eager => rfl
  | release =>
      rcases happen_release s with heq | ⟨site, next, -, heq⟩
      · rw [heq]
      · rw [heq]
        rfl

/-- Commands leave the session within the region as well. -/
theorem In.happen (h : s.In R) (e : Event)
    (ha : R.Admits s.machine.heap (s.happen e).machine.heap) : Remains R s (s.happen e) := by
  by_cases he : e = .step
  · subst he
    exact h.step ha
  · rcases happen_command s he with heq | ⟨site, next, hheld, heq⟩
    · have hkept : ∀ e', (s.happen e).controller.error = some e' → e'.In R := fun e' he' =>
        h.error e' (by rwa [s.error_happen he] at he')
      rw [heq]
      exact In.remains ⟨h.machine, hkept⟩ rfl
    · have hcontrol := h.machine.control
      rw [hheld] at hcontrol
      rw [heq]
      exact h.goes hcontrol

/-- **A run stays within a region.**  If all that a session can get at is within a region, then
this is so after every schedule, if the region has the lists and banks that were made meanwhile, and
no list outside the region has been changed. -/
theorem In.after (h : s.In R) (es : List Event)
    (ha : R.Admits s.machine.heap (s.after es).machine.heap) : Remains R s (s.after es) := by
  induction es generalizing s with
  | nil => exact h.remains rfl
  | cons e es ih =>
      have hfirst := (s.changes_happen e).longer
      have hrest := ((s.happen e).changes_after es).longer
      have hremains := h.happen e (ha.left hrest)
      have hlater := ih hremains.within (ha.right hfirst)
      exact ⟨hlater.within, hremains.changes.trans hlater.changes⟩

end Session

end Pseudocode
