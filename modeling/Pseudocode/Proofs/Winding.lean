/-
# Winding up

Once a run has been told to end, no statement that reaches its boundary is let past it any more, and
no loop goes round again.  What has been begun is still carried on: expressions are evaluated to their
end, and host functions go on as they like, whether they hear of the failure or not.

The tasks that are pending are receptive if the run comes to its end whatever is handed to them.
This is the case for no tasks at all, and a task on top of receptive ones is receptive, since what
it goes on to do is bounded by the tree of the program.  What host functions do is bounded by
themselves, but for the host functions they call: these may call others, and so on without end.

The main results are

* `Machine.winds_eval`: the evaluation of every expression comes to an end;
* `Machine.winds`: so does every run whose host functions do.
-/
import Pseudocode.Proofs.Conduct
import Pseudocode.Proofs.Effort
import Pseudocode.Proofs.Stopping

namespace Pseudocode

namespace Machine

variable {P : Machine → Prop} {r : Registry} {m m' : Machine}

/-- The run neither waits to be released nor pauses. -/
structure Moves (m : Machine) : Prop where
  released : ∀ site next, m.control ≠ .held site next
  awake : ∀ n, m.control ≠ .boundary .paused n

lemma moves_of_isResult (h : m.control.isResult = true) : Moves m :=
  ⟨fun site next hheld => by simp [hheld, Control.isResult] at h,
    fun n hpaused => by simp [hpaused, Control.isResult] at h⟩

/-- However it goes on, a run that has been told to end comes to a machine with the property. -/
inductive Winds (P : Machine → Prop) : Machine → Prop where
  | here {m : Machine} (h : P m) : Winds P m
  | released {m : Machine} {site : Span} {next : Action Value}
      (control : m.control = .held site next) (h : Winds P (m.goto (.host site next))) : Winds P m
  /-- A run that pauses may go on with a token or with word to end, or break down. -/
  | paused {m : Machine} {n : Node} (control : m.control = .boundary .paused n)
      (begun : Winds P (m.goto (.exec n))) (told : Winds P (m.goto (.fail .stopped)))
      (falters : Winds P (m.goto (.crash "hook failed"))) : Winds P m
  | proceed {m : Machine} (moves : m.Moves)
      (h : ∀ s : Session, s.machine = m → s.controller.cancelled = true →
        Winds P s.proceed.machine) : Winds P m

/-- The run comes to a machine with the property whatever is handed to the tasks. -/
def Receptive (P : Machine → Prop) (r : Registry) (K : List Pending) : Prop :=
  ∀ m : Machine, m.functions = r → m.pending = K → m.control.isResult = true → Winds P m

/-- The machine `m'` hands something to the tasks that are pending in `m`. -/
structure Hands (m m' : Machine) : Prop where
  functions : m'.functions = m.functions
  pending : m'.pending = m.pending
  result : m'.control.isResult = true

/-! ### Tasks that hand on what they are handed -/

lemma hands_raise (m : Machine) (kind : FaultKind) (detail : String) (span : Span) :
    Hands m (m.raise kind detail span) := ⟨rfl, rfl, rfl⟩

lemma hands_give (m : Machine) (v : Value) : Hands m (m.give v) := ⟨rfl, rfl, rfl⟩

lemma hands_finish (m : Machine) (c : Completion) : Hands m (m.finish c) := ⟨rfl, rfl, rfl⟩

lemma hands_readVariable (m : Machine) (span : Span) (name : String) :
    Hands m (m.readVariable span name) := by
  unfold readVariable
  split
  · exact hands_give m _
  · exact ⟨rfl, rfl, rfl⟩

lemma hands_readElement (m : Machine) (span : Span) (name : String) (index : Value) :
    Hands m (m.readElement span name index) := by
  unfold readElement
  split
  · exact hands_raise m _ _ _
  · split
    · exact hands_raise m _ _ _
    · split
      · exact hands_give m _
      · exact hands_raise m _ _ _
    · exact hands_raise m _ _ _

lemma hands_writeElement (m : Machine) (span : Span) (id : ListId) (p : Int) (v : Value) :
    Hands m (m.writeElement span id p v) := by
  unfold writeElement
  dsimp only
  split
  · exact ⟨rfl, rfl, rfl⟩
  · split
    · exact ⟨rfl, rfl, rfl⟩
    · exact hands_raise m _ _ _

lemma hands_commit (m : Machine) (v : Value) (target : Target) : Hands m (m.commit v target) := by
  cases target with
  | «variable» name => exact ⟨rfl, rfl, rfl⟩
  | element span name p =>
      obtain ⟨-, -, -, hfunctions, hpending⟩ := listForWriting_keeps m name
      have htrans : ∀ m' : Machine, Hands (m.listForWriting name).2 m' → Hands m m' :=
        fun m' h => ⟨h.functions.trans hfunctions, h.pending.trans hpending, h.result⟩
      unfold commit
      dsimp only
      split
      · rename_i heq
        rw [heq] at htrans
        exact htrans _ (hands_writeElement _ _ _ _ _)
      · rename_i heq
        rw [heq] at htrans
        exact htrans _ (hands_raise _ _ _ _)

/-- Whether a task has nothing left to do but to hand something on, once the run has been told to
end.  A loop is such a task, since it does not go round again. -/
def forwards : Pending → Bool
  | .binaryRight _ _ _ | .relationRight _ _ _ | .items _ (_ :: _) | .args _ _ _ _
  | .targetIndex _ _ _ | .timesCount _ _ | .untilTest _ _ | .arm _ _ | .eachSource _ _ _
  | .sequence (_ :: _) | .reenter _ _ _ => false
  | _ => true

lemma yields_of_forwards {p : Pending} (h : forwards p = true) : p.yields ≠ .action := by
  cases p with
  | reenter _ _ _ => simp [forwards] at h
  | _ => simp [Pending.yields]

lemma hands_resume (m : Machine) (v : Value) {p : Pending} (h : forwards p = true) :
    Hands m (m.resume v p) := by
  cases p with
  | binaryApply span op left =>
      simp only [resume]
      split
      · exact hands_give m _
      · exact hands_raise m _ _ _
  | relationApply span op left =>
      simp only [resume]
      split
      · exact hands_give m _
      · exact hands_raise m _ _ _
  | element span name => exact hands_readElement m _ _ _
  | items done rest =>
      cases rest with
      | nil => exact ⟨rfl, rfl, rfl⟩
      | cons item rest => simp [forwards] at h
  | assign target => exact hands_commit m v target
  | binaryRight _ _ _ | relationRight _ _ _ | args _ _ _ _ | targetIndex _ _ _ | timesCount _ _
  | untilTest _ _ | arm _ _ | eachSource _ _ _ | reenter _ _ _ => simp [forwards] at h
  | _ => exact ⟨rfl, rfl, rfl⟩

/-- A task that waits for a value hands on the completion of a statement. -/
lemma hands_proceed_of_takes (m : Machine) (cancelled : Bool) (c : Completion) {p : Pending}
    (h : p.takes ≠ .completion) : Hands m (m.proceed cancelled c p) := by
  cases p with
  | times _ _ _ | «until» _ _ | each _ _ _ _ | sequence _ | leave _ | invocation =>
      simp [Pending.takes] at h
  | _ =>
      cases c with
      | next => exact ⟨rfl, rfl, rfl⟩
      | returned v => exact ⟨rfl, rfl, rfl⟩

lemma hands_proceed (m : Machine) (c : Completion) {p : Pending} (h : forwards p = true) :
    Hands m (m.proceed true c p) := by
  cases p with
  | leave outer => exact ⟨rfl, rfl, rfl⟩
  | invocation => exact ⟨rfl, rfl, rfl⟩
  | sequence rest =>
      cases c with
      | returned v => exact ⟨rfl, rfl, rfl⟩
      | next =>
          cases rest with
          | nil => exact ⟨rfl, rfl, rfl⟩
          | cons n rest => simp [forwards] at h
  | times i count body =>
      cases c with
      | returned v => exact ⟨rfl, rfl, rfl⟩
      | next =>
          simp only [proceed]
          split
          · exact ⟨rfl, rfl, rfl⟩
          · exact ⟨rfl, rfl, rfl⟩
  | «until» cond body =>
      cases c with
      | returned v => exact ⟨rfl, rfl, rfl⟩
      | next => exact ⟨rfl, rfl, rfl⟩
  | each var cursor i body =>
      cases c with
      | returned v => exact ⟨rfl, rfl, rfl⟩
      | next =>
          simp only [proceed]
          split
          · exact ⟨rfl, rfl, rfl⟩
          · exact ⟨rfl, rfl, rfl⟩
  | _ => exact hands_proceed_of_takes m true c (by simp [Pending.takes])

/-- A failure passes every task but a host function that waits for the result of a call. -/
lemma hands_unwind {e : Failure} (hc : m.control = .fail e) {p : Pending}
    (hp : p.yields ≠ .action) : Hands m (m.unwind e p) := by
  cases p with
  | reenter _ _ _ => simp [Pending.yields] at hp
  | hostCall _ _ _ => exact ⟨rfl, rfl, rfl⟩
  | _ => exact ⟨rfl, rfl, by simp [unwind, hc, Control.isResult]⟩

lemma hands_collapse {text : String} (hc : m.control = .crash text) (p : Pending) :
    Hands m (m.collapse text p) := by
  cases p with
  | hostCall _ _ _ => exact ⟨rfl, rfl, rfl⟩
  | _ => exact ⟨rfl, rfl, by simp [collapse, hc, Control.isResult]⟩

/-! ### Receptive tasks -/

lemma Receptive.winds (hK : Receptive P r m.pending) (hr : m.functions = r) (h : Hands m m') :
    Winds P m' := hK m' (h.functions.trans hr) h.pending h.result

/-- What the machine does by itself does not depend on the session. -/
lemma winds_of_proceed (m' : Machine) (moves : Moves m)
    (hproceed : ∀ s : Session, s.machine = m → s.proceed.machine = m') (h : Winds P m') :
    Winds P m := by
  refine .proceed moves fun s hs _ => ?_
  rw [hproceed s hs]
  exact h

/-- A run whose outcome is settled shows it. -/
lemma winds_ending (hended : ∀ m o, m.control = .ended o → P m) {o : Outcome}
    (hc : m.control = .ending o) : Winds P m := by
  refine winds_of_proceed (m.goto (.ended o)) ⟨by simp [hc], by simp [hc]⟩ (fun s hs => ?_)
    (.here (hended _ o rfl))
  subst hs
  simp only [Session.proceed, hc]
  rfl

/-- A result that finds no task ends the run. -/
lemma receptive_nil (hended : ∀ m o, m.control = .ended o → P m) : Receptive P r [] := by
  intro m _ hp hresult
  refine .proceed (moves_of_isResult hresult) fun s hs _ => ?_
  subst hs
  obtain ⟨o, -, -, ho⟩ := Session.settles_of_nil hresult hp
  exact winds_ending hended ho

/-- A task on top of receptive ones is receptive if the run comes to its end whatever the task
does with a value, with the completion of a statement or with a failure. -/
lemma receptive_cons_of {p : Pending} {K : List Pending} (hK : Receptive P r K)
    (hvalue : ∀ (m : Machine) (v : Value), m.functions = r → m.pending = K →
      Winds P (m.resume v p))
    (hcomplete : ∀ (m : Machine) (c : Completion), m.functions = r → m.pending = K →
      Winds P (m.proceed true c p))
    (hfail : ∀ (m : Machine) (e : Failure), m.functions = r → m.pending = K →
      m.control = .fail e → Winds P (m.unwind e p)) : Receptive P r (p :: K) := by
  intro m hr hp hresult
  refine .proceed (moves_of_isResult hresult) fun s hs hcancelled => ?_
  subst hs
  cases hc : s.machine.control with
  | value v =>
      rw [Session.proceed_value hc, Session.withTask_cons hp]
      exact hvalue _ v hr rfl
  | complete c =>
      rw [Session.proceed_complete hc, Session.withTask_cons hp, hcancelled]
      exact hcomplete _ c hr rfl
  | fail e =>
      rw [Session.proceed_fail hc, Session.withTask_cons hp]
      exact hfail _ e hr rfl hc
  | crash text =>
      rw [Session.proceed_crash hc, Session.withTask_cons hp]
      have hands := hands_collapse (m := { s.machine with pending := K }) hc p
      exact hK _ (hands.functions.trans hr) hands.pending hands.result
  | _ => simp [hc, Control.isResult] at hresult

/-- A failure only matters to host functions. -/
lemma receptive_cons {p : Pending} {K : List Pending} (hp : p.yields ≠ .action)
    (hK : Receptive P r K)
    (hvalue : ∀ (m : Machine) (v : Value), m.functions = r → Receptive P r m.pending →
      Winds P (m.resume v p))
    (hcomplete : ∀ (m : Machine) (c : Completion), m.functions = r → Receptive P r m.pending →
      Winds P (m.proceed true c p)) : Receptive P r (p :: K) := by
  refine receptive_cons_of hK (fun m v hr hK' => hvalue m v hr (hK' ▸ hK))
    (fun m c hr hK' => hcomplete m c hr (hK' ▸ hK)) fun m e hr hK' hc => ?_
  exact Receptive.winds (hK' ▸ hK) hr (hands_unwind hc hp)

lemma receptive_of_forwards {p : Pending} {K : List Pending} (hp : forwards p = true)
    (hK : Receptive P r K) : Receptive P r (p :: K) :=
  receptive_cons (yields_of_forwards hp) hK (fun m v hr hK' => hK'.winds hr (hands_resume m v hp))
    fun m c hr hK' => hK'.winds hr (hands_proceed m c hp)

/-- A task that waits for a value is receptive if the run comes to its end whatever the task does
with the value. -/
lemma receptive_of_value {p : Pending} {K : List Pending} (ht : p.takes = .value)
    (hp : p.yields ≠ .action) (hK : Receptive P r K)
    (hvalue : ∀ (m : Machine) (v : Value), m.functions = r → Receptive P r m.pending →
      Winds P (m.resume v p)) : Receptive P r (p :: K) :=
  receptive_cons hp hK hvalue fun m c hr hK' =>
    hK'.winds hr (hands_proceed_of_takes m true c (by simp [ht]))

/-! ### Statements -/

/-- A statement that reaches its boundary does not pass it any more. -/
lemma winds_reach {n : Node} (hr : m.functions = r) (hK : Receptive P r m.pending)
    (hc : m.control = .reach n) : Winds P m := by
  refine .proceed ⟨by simp [hc], by simp [hc]⟩ fun s hs hcancelled => ?_
  subst hs
  have hfails : ∀ m' : Machine, m'.functions = s.machine.functions →
      m'.pending = .leave s.machine.current :: s.machine.pending →
      m'.control.isResult = true → Winds P m' := fun m' hfunctions hpending hresult =>
    receptive_of_forwards (p := .leave _) rfl hK m' (hfunctions.trans hr) hpending hresult
  have h := Session.arrival_proceed hc
  generalize s.proceed = t at h ⊢
  cases h with
  | admitted counted untold => simp [hcancelled] at untold
  | _ => exact hfails _ rfl rfl rfl

lemma receptive_sequence {K : List Pending} (hK : Receptive P r K) (rest : List Node) :
    Receptive P r (.sequence rest :: K) := by
  induction rest generalizing K with
  | nil => exact receptive_of_forwards rfl hK
  | cons n rest ih =>
      refine receptive_cons (by simp [Pending.yields]) hK
        (fun m v hr hK' => hK'.winds hr (hands_give m v)) fun m c hr hK' => ?_
      cases c with
      | returned v => exact hK'.winds hr (hands_finish m _)
      | next =>
          -- the next statement fails at its boundary, and the failure finds the shorter sequence
          exact winds_reach (m := m.await (.sequence rest) (.reach n)) hr (ih hK') rfl

lemma winds_block {b : Block} (hr : m.functions = r) (hK : Receptive P r m.pending)
    (hc : m.control = .block b) : Winds P m := by
  refine winds_of_proceed (m.block b) ⟨by simp [hc], by simp [hc]⟩
    (fun s hs => by simp only [Session.proceed, hs, hc]) ?_
  cases b with
  | missing => exact hK.winds hr (hands_raise m _ _ _)
  | of span statements => exact receptive_sequence hK statements _ hr rfl rfl

/-! ### Calls -/

/-- The call of a function comes to its end, if its body does in case it is one of the host. -/
lemma winds_call {name : String} {args : List Value} {site : Span} (hr : m.functions = r)
    (hK : Receptive P r m.pending) (hc : m.control = .call name args site)
    (hhost : ∀ arity f, Bindings.get? r name = some (.host arity f) → ∀ m' : Machine,
      m'.functions = r → m'.pending = .hostCall name site m.store.depth :: m.pending →
      m'.control = .host site (f args) → Winds P m') : Winds P m := by
  refine winds_of_proceed (m.call name args site) ⟨by simp [hc], by simp [hc]⟩
    (fun s hs => by simp only [Session.proceed, hs, hc]) ?_
  unfold call
  split
  · exact hK.winds hr ⟨rfl, rfl, rfl⟩
  · rename_i f hf
    split
    · exact hK.winds hr (hands_raise m _ _ _)
    · split
      · unfold invoke
        split
        · exact hK.winds hr (hands_raise m _ _ _)
        · -- however deep procedures call one another, no statement of the body begins
          exact winds_block hr (receptive_of_forwards (p := .invocation) rfl hK) rfl
      · exact hhost _ _ (hr ▸ hf) _ hr rfl rfl

/-- What a host function does comes to its end on top of receptive tasks. -/
def Acts (P : Machine → Prop) (r : Registry) (a : Action Value) : Prop :=
  ∀ (m : Machine) (site : Span), m.functions = r → Receptive P r m.pending →
    m.control = .host site a → Winds P m

/-- A host function that waits for the result of a call is receptive if it goes on to an end. -/
lemma receptive_reenter {site : Span} {depth : Nat} {next : Except Failure Value → Action Value}
    {K : List Pending} (hK : Receptive P r K)
    (hnext : ∀ answer (m : Machine), m.functions = r → m.pending = K →
      m.control = .host site (next answer) → Winds P m) :
    Receptive P r (.reenter site depth next :: K) := by
  refine receptive_cons_of hK (fun m v hr hp => hnext (.ok v) _ hr hp rfl) (fun m c hr hp => ?_)
    fun m e hr hp hc => ?_
  · exact Receptive.winds (hp ▸ hK) hr
      (hands_proceed_of_takes m true c (by simp [Pending.takes]))
  · simp only [unwind]
    split
    · exact hnext _ _ hr hp rfl
    · exact hnext _ _ hr hp rfl

/-- The evaluation of an expression comes to its end on top of receptive tasks. -/
def Evaluates (P : Machine → Prop) (r : Registry) (n : Node) : Prop :=
  ∀ m : Machine, m.functions = r → Receptive P r m.pending → m.control = .eval n → Winds P m

/-- The call of every function comes to its end on top of receptive tasks. -/
def Callable (P : Machine → Prop) (r : Registry) : Prop :=
  ∀ (m : Machine) (name : String) (args : List Value) (site : Span), m.functions = r →
    Receptive P r m.pending → m.control = .call name args site → Winds P m

lemma callable (hhost : ∀ name arity f, Bindings.get? r name = some (.host arity f) →
    ∀ args, Acts P r (f args)) : Callable P r := by
  intro m name args site hr hK hc
  refine winds_call hr hK hc fun arity f hf m' hr' hp' hc' => ?_
  refine hhost name arity f hf args m' site hr' ?_ hc'
  exact hp' ▸ receptive_of_forwards (p := .hostCall _ _ _) rfl hK

variable {K : List Pending}

/-- A task that begins with the evaluation of an expression, and then waits for its value. -/
lemma Evaluates.first {n : Node} {p : Pending} (hn : Evaluates P r n) (hr : m.functions = r)
    (hp : Receptive P r (p :: m.pending)) : Winds P (m.await p (.eval n)) := hn _ hr hp rfl

lemma receptive_binaryRight {span : Span} {op : Kind} {right : Node} (hn : Evaluates P r right)
    (hK : Receptive P r K) : Receptive P r (.binaryRight span op right :: K) :=
  receptive_of_value rfl (by simp [Pending.yields]) hK fun _ _ hr hK' =>
    hn.first hr (receptive_of_forwards rfl hK')

lemma receptive_relationRight {span : Span} {op : String} {right : Node}
    (hn : Evaluates P r right) (hK : Receptive P r K) :
    Receptive P r (.relationRight span op right :: K) :=
  receptive_of_value rfl (by simp [Pending.yields]) hK fun _ _ hr hK' =>
    hn.first hr (receptive_of_forwards rfl hK')

lemma receptive_targetIndex {span : Span} {name : String} {value : Node}
    (hn : Evaluates P r value) (hK : Receptive P r K) :
    Receptive P r (.targetIndex span name value :: K) := by
  refine receptive_of_value rfl (by simp [Pending.yields]) hK fun m v hr hK' => ?_
  simp only [resume]
  split
  · exact hK'.winds hr (hands_raise m _ _ _)
  · exact hn.first hr (receptive_of_forwards rfl hK')

lemma receptive_items {rest : List Node} (hrest : ∀ n ∈ rest, Evaluates P r n)
    (hK : Receptive P r K) (done : List Value) : Receptive P r (.items done rest :: K) := by
  induction rest generalizing done K with
  | nil => exact receptive_of_forwards rfl hK
  | cons n rest ih =>
      obtain ⟨hn, hrest⟩ := List.forall_mem_cons.mp hrest
      exact receptive_of_value rfl (by simp [Pending.yields]) hK fun _ _ hr hK' =>
        hn.first hr (ih hrest hK' _)

lemma receptive_args (hcall : Callable P r) {site : Span} {name : String} {rest : List Node}
    (hrest : ∀ n ∈ rest, Evaluates P r n) (hK : Receptive P r K) (done : List Value) :
    Receptive P r (.args site name done rest :: K) := by
  induction rest generalizing done K with
  | nil =>
      exact receptive_of_value rfl (by simp [Pending.yields]) hK fun _ _ hr hK' =>
        hcall _ _ _ _ hr hK' rfl
  | cons n rest ih =>
      obtain ⟨hn, hrest⟩ := List.forall_mem_cons.mp hrest
      exact receptive_of_value rfl (by simp [Pending.yields]) hK fun _ _ hr hK' =>
        hn.first hr (ih hrest hK' _)

lemma Node.cost_le_costs {n : Node} {l : List Node} (h : n ∈ l) : n.cost ≤ Node.costs l := by
  induction l with
  | nil => simp at h
  | cons n' l ih =>
      simp only [Node.costs]
      rcases List.mem_cons.mp h with rfl | h
      · omega
      · have := ih h
        omega

/-- The evaluation of every expression comes to its end, if every call does. -/
theorem winds_eval (hcall : Callable P r) (n : Node) : Evaluates P r n := by
  induction hcost : n.cost using Nat.strong_induction_on generalizing n with
  | h k ih =>
      subst hcost
      intro m hr hK hc
      refine winds_of_proceed (m.eval n) ⟨by simp [hc], by simp [hc]⟩
        (fun s hs => by simp only [Session.proceed, hs, hc]) ?_
      -- the parts of an expression cost less than the whole
      have hpart : ∀ n' : Node, n'.cost < n.cost → Evaluates P r n' := fun n' h => ih _ h n' rfl
      have hitems : ∀ l : List Node, Node.costs l < n.cost → ∀ n' ∈ l, Evaluates P r n' :=
        fun l hl n' hn' => hpart n' (Nat.lt_of_le_of_lt (Node.cost_le_costs hn') hl)
      have hlast : ∀ {n' : Node} {p : Pending}, n'.cost < n.cost → forwards p = true →
          Winds P (m.await p (.eval n')) := fun hn' hp =>
        (hpart _ hn').first hr (receptive_of_forwards hp hK)
      clear hc
      unfold eval
      split
      · exact hK.winds hr (hands_raise m _ _ _)
      · split
        · exact hK.winds hr (hands_give m _)
        · exact hK.winds hr (hands_raise m _ _ _)
      · exact hK.winds hr (hands_raise m _ _ _)
      · exact hpart _ (by simp [Node.cost]) _ hr hK rfl
      · rename_i left right
        have hright : Evaluates P r right := hpart right (by simp only [Node.cost]; omega)
        exact (hpart left (by simp only [Node.cost]; omega)).first hr
          (receptive_binaryRight hright hK)
      · exact hlast (by simp [Node.cost]) rfl
      · exact hlast (by simp [Node.cost]) rfl
      · rename_i left right
        have hright : Evaluates P r right := hpart right (by simp only [Node.cost]; omega)
        exact (hpart left (by simp only [Node.cost]; omega)).first hr
          (receptive_relationRight hright hK)
      · exact hK.winds hr (hands_readVariable m _ _)
      · exact hK.winds hr (hands_raise m _ _ _)
      · exact hlast (by simp [Node.cost]) rfl
      · exact hK.winds hr ⟨rfl, rfl, rfl⟩
      · rename_i item rest
        have hrest := hitems rest (by simp only [Node.cost, Node.costs]; omega)
        exact (hpart item (by simp only [Node.cost, Node.costs]; omega)).first hr
          (receptive_items hrest hK _)
      · exact hK.winds hr (hands_raise m _ _ _)
      · exact hcall _ _ _ _ hr hK rfl
      · rename_i arg rest
        have hrest := hitems rest (by simp only [Node.cost, Node.costs]; omega)
        exact (hpart arg (by simp only [Node.cost, Node.costs]; omega)).first hr
          (receptive_args hcall hrest hK _)
      · exact hK.winds hr (hands_raise m _ _ _)

/-! ### Whole machines -/

/-- A conditional comes to its end. -/
lemma winds_choose (hcall : Callable P r) {branches : List Branch} (hr : m.functions = r)
    (hK : Receptive P r m.pending) (hc : m.control = .choose branches) : Winds P m := by
  induction branches generalizing m with
  | nil =>
      refine winds_of_proceed (m.choose []) ⟨by simp [hc], by simp [hc]⟩
        (fun s hs => by simp only [Session.proceed, hs, hc]) ?_
      exact hK.winds hr (hands_finish m _)
  | cons branch rest ih =>
      obtain ⟨cond, body⟩ := branch
      refine winds_of_proceed (m.choose (.of cond body :: rest)) ⟨by simp [hc], by simp [hc]⟩
        (fun s hs => by simp only [Session.proceed, hs, hc]) ?_
      have harm : Receptive P r (.arm body rest :: m.pending) := by
        refine receptive_of_value rfl (by simp [Pending.yields]) hK fun m v hr hK' => ?_
        simp only [resume]
        split
        · exact winds_block (m := m.goto (.block body)) hr hK' rfl
        · exact ih (m := m.goto (.choose rest)) hr hK' rfl
      unfold choose
      split
      · exact hK.winds hr (hands_finish m _)
      · exact winds_block (m := m.goto (.block _)) hr hK rfl
      · rename_i heq
        obtain ⟨⟨rfl, rfl⟩, rfl⟩ := by simpa using heq
        exact (winds_eval hcall _).first hr harm

/-- A task on top of receptive ones is receptive. -/
lemma receptive_push (hcall : Callable P r) {p : Pending}
    (hp : p.Abides (Acts P r)) (hK : Receptive P r K) : Receptive P r (p :: K) := by
  have heval := fun n => winds_eval hcall n
  cases p with
  | binaryRight span op right => exact receptive_binaryRight (heval right) hK
  | relationRight span op right => exact receptive_relationRight (heval right) hK
  | items done rest => exact receptive_items (fun n _ => heval n) hK done
  | args site name done rest => exact receptive_args hcall (fun n _ => heval n) hK done
  | targetIndex span name value => exact receptive_targetIndex (heval value) hK
  | timesCount span body =>
      refine receptive_of_value rfl (by simp [Pending.yields]) hK fun m v hr hK' => ?_
      simp only [resume]
      split
      · exact hK'.winds hr (hands_raise m _ _ _)
      · exact receptive_of_forwards (p := .times _ _ _) rfl hK' _ hr rfl rfl
  | untilTest cond body =>
      refine receptive_of_value rfl (by simp [Pending.yields]) hK fun m v hr hK' => ?_
      simp only [resume]
      split
      · exact hK'.winds hr (hands_finish m _)
      · exact winds_block (m := m.await (.until cond body) (.block body)) hr
          (receptive_of_forwards rfl hK') rfl
  | arm body rest =>
      refine receptive_of_value rfl (by simp [Pending.yields]) hK fun m v hr hK' => ?_
      simp only [resume]
      split
      · exact winds_block (m := m.goto (.block body)) hr hK' rfl
      · exact winds_choose hcall (m := m.goto (.choose rest)) hr hK' rfl
  | eachSource span var body =>
      refine receptive_of_value rfl (by simp [Pending.yields]) hK fun m v hr hK' => ?_
      simp only [resume]
      split
      · exact receptive_of_forwards (p := .each _ _ _ _) rfl hK' _ hr rfl rfl
      · exact hK'.winds hr (hands_raise m _ _ _)
  | sequence rest => exact receptive_sequence hK rest
  | reenter site depth next =>
      refine receptive_reenter hK fun answer m hr hp' hc => ?_
      exact hp answer m site hr (hp' ▸ hK) hc
  | _ => exact receptive_of_forwards rfl hK

lemma receptive_of_abides (hended : ∀ m o, m.control = .ended o → P m) (hcall : Callable P r)
    {K : List Pending} (hK : ∀ p ∈ K, p.Abides (Acts P r)) : Receptive P r K := by
  induction K with
  | nil => exact receptive_nil hended
  | cons p K ih =>
      obtain ⟨hp, hK⟩ := List.forall_mem_cons.mp hK
      exact receptive_push hcall hp (ih hK)

/-- The execution of a statement that has passed its boundary comes to its end. -/
lemma winds_exec (hcall : Callable P r) {n : Node} (hr : m.functions = r)
    (hK : Receptive P r m.pending) (hc : m.control = .exec n) : Winds P m := by
  refine winds_of_proceed (m.exec n) ⟨by simp [hc], by simp [hc]⟩
    (fun s hs => by simp only [Session.proceed, hs, hc]) ?_
  have hfirst : ∀ {p : Pending} (n' : Node), p.Abides (Acts P r) →
      Winds P (m.await p (.eval n')) := fun n' hp =>
    (winds_eval hcall n').first hr (receptive_push hcall hp hK)
  clear hc
  unfold exec
  split
  · exact hK.winds hr (hands_finish m _)
  · unfold assign
    split
    · exact hfirst _ trivial
    · exact hK.winds hr (hands_raise m _ _ _)
    · exact hfirst _ trivial
    · exact hK.winds hr (hands_raise m _ _ _)
  · exact winds_block (m := m.goto (.block _)) hr hK rfl
  · exact hfirst _ trivial
  · exact receptive_of_forwards (p := .until _ _) rfl hK _ hr rfl rfl
  · exact winds_choose hcall (m := m.goto (.choose _)) hr hK rfl
  · exact hK.winds hr (hands_raise m _ _ _)
  · exact hfirst _ trivial
  · exact hK.winds hr (hands_finish m _)
  · exact hfirst _ trivial
  · exact hK.winds hr (hands_raise m _ _ _)
  · exact hK.winds hr (hands_raise m _ _ _)
  · exact hfirst _ trivial

/-- A statement that stands at its boundary is executed or fails. -/
lemma winds_boundary (hcall : Callable P r) {p : Standing} {n : Node} (hr : m.functions = r)
    (hK : Receptive P r m.pending) (hc : m.control = .boundary p n) : Winds P m := by
  have hexec : ∀ m' : Machine, m' = m.goto (.exec n) → Winds P m' := by
    rintro _ rfl
    exact winds_exec hcall (m := m.goto (.exec n)) hr hK rfl
  have hfail : ∀ m' : Machine, m' = m.goto (.fail .stopped) → Winds P m' := by
    rintro _ rfl
    exact hK.winds hr ⟨rfl, rfl, rfl⟩
  have hpaused : ∀ m' : Machine, m' = m.goto (.boundary .paused n) → Winds P m' := by
    rintro _ rfl
    exact .paused rfl (hexec _ rfl) (hfail _ rfl) (hK.winds hr ⟨rfl, rfl, rfl⟩)
  have hthrottled : ∀ m' : Machine, m' = m.goto (.boundary .throttled n) → Winds P m' := by
    rintro _ rfl
    refine .proceed ⟨by rintro _ _ ⟨⟩, by rintro _ ⟨⟩⟩ fun s hs hcancelled => hfail _ ?_
    rw [Session.proceed_throttled (n := n) (by rw [hs]; rfl), if_pos hcancelled, Session.goto, hs]
    rfl
  cases p with
  | admitted =>
      refine .proceed ⟨by simp [hc], by simp [hc]⟩ fun s hs _ => ?_
      subst hs
      have h := Session.heeding_proceed hc
      generalize s.proceed = t at h ⊢
      cases h with
      | begun _ _ _ => exact hexec _ rfl
      | slowed _ _ _ => exact hthrottled _ rfl
      | pauses _ _ _ _ => exact hpaused _ rfl
  | throttled => exact hthrottled m (by rw [← hc]; rfl)
  | delayed =>
      refine .proceed ⟨by simp [hc], by simp [hc]⟩ fun s hs _ => ?_
      subst hs
      rw [Session.proceed_delayed hc]
      split
      · exact hfail _ rfl
      · exact hexec _ rfl
  | paused => exact hpaused m (by rw [← hc]; rfl)

/-- A run comes to its end if everything does that host functions do. -/
theorem winds (hended : ∀ m o, m.control = .ended o → P m) (hm : Abides (Acts P m.functions) m)
    (hidle : m.control ≠ .idle) (hheld : ∀ site next, m.control = .held site next →
      Acts P m.functions next) : Winds P m := by
  have hcall : Callable P m.functions := callable fun _ _ _ hf => hm.functions.get hf
  have hK := receptive_of_abides hended hcall hm.pending
  have hcontrol := hm.control
  cases hc : m.control with
  | idle => exact absurd hc hidle
  | ended o => exact .here (hended m o hc)
  | eval n => exact winds_eval hcall n m rfl hK hc
  | reach n => exact winds_reach rfl hK hc
  | boundary p n => exact winds_boundary hcall rfl hK hc
  | ending o => exact winds_ending hended hc
  | exec n => exact winds_exec hcall rfl hK hc
  | block b => exact winds_block rfl hK hc
  | choose branches => exact winds_choose hcall rfl hK hc
  | call name args site => exact hcall m name args site rfl hK hc
  | host site a =>
      rw [hc] at hcontrol
      exact hcontrol m site rfl hK hc
  | held site next => exact .released hc (hheld site next hc _ site rfl hK rfl)
  | value v => exact hK m rfl rfl (by rw [hc]; rfl)
  | complete c => exact hK m rfl rfl (by rw [hc]; rfl)
  | fail e => exact hK m rfl rfl (by rw [hc]; rfl)
  | crash text => exact hK m rfl rfl (by rw [hc]; rfl)

end Machine

end Pseudocode
