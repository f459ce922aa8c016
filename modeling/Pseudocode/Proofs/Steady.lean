/-
# Machines above other lists

The machine of a run that has other lists below its own does what it would do without them: its
frames hold the values that lie higher, its tasks keep them, and the branches it takes are the same,
since nothing that a branch depends on changes when lists move up.

A host function is handed values and may look at all lists.  It is steady if it does the same with
lists that have moved up: it makes the same requests, moved up, and has the same outcome, moved up.
The builtin functions are steady.

The main results are

* `Builtins.steady_plugin`: the builtin functions are steady;
* `Machine.resume_above`, `Machine.proceed_above`, `Machine.call_above`: what a machine does above
  other lists is what it does without them, moved up.
-/
import Pseudocode.Proofs.Custody
import Pseudocode.Proofs.Leaf
import Pseudocode.Proofs.Overlay

namespace Pseudocode

/-! ### Frames above other lists -/

namespace Bindings

variable {α β : Type} (f : α → β)

/-- The same names, with something else bound to them. -/
def map (b : Bindings α) : Bindings β := ⟨b.entries.map (Prod.map id f)⟩

lemma find?_map (name : String) (l : List (String × α)) :
    find? name (l.map (Prod.map id f)) = (find? name l).map f := by
  induction l with
  | nil => rfl
  | cons e l ih =>
      simp only [List.map_cons, Prod.map, id, find?, ih]
      split
      · rfl
      · rfl

lemma place_map (name : String) (v : α) (l : List (String × α)) :
    place name (f v) (l.map (Prod.map id f)) = (place name v l).map (Prod.map id f) := by
  induction l with
  | nil => rfl
  | cons e l ih =>
      simp only [List.map_cons, Prod.map, id, place]
      split
      · rfl
      · split
        · rfl
        · simp only [List.map_cons, Prod.map, id, ← ih]

variable (b : Bindings α)

@[simp] lemma get?_map (name : String) : (b.map f).get? name = (b.get? name).map f :=
  find?_map f name b.entries

@[simp] lemma contains_map (name : String) : (b.map f).contains name = b.contains name := by
  simp [contains]

lemma insert_map (name : String) (v : α) : (b.map f).insert name (f v) = (b.insert name v).map f :=
  congrArg mk (place_map f name v b.entries)

@[simp] lemma names_map : (b.map f).names = b.names := by
  simp [names, map]

lemma insertAll_map (l : List (String × α)) :
    (b.map f).insertAll (l.map (Prod.map id f)) = (b.insertAll l).map f := by
  induction l generalizing b with
  | nil => rfl
  | cons e l ih =>
      obtain ⟨name, v⟩ := e
      simp only [insertAll, List.map_cons, List.foldl_cons, Prod.map, id, insert_map]
      exact ih (b.insert name v)

end Bindings

/-- A frame above the lists of a heap. -/
def Frame.above (h : Heap) (f : Frame) : Frame := { f with vars := f.vars.map (·.above h) }

namespace Store

/-- The frames above the lists of a heap. -/
def above (h : Heap) (s : Store) : Store :=
  { s with
    global := s.global.above h
    calls := s.calls.map (·.above h)
    depth_eq := by rw [List.length_map, s.depth_eq] }

variable (h : Heap) (s : Store)

@[simp] lemma depth_above : (s.above h).depth = s.depth := rfl

@[simp] lemma global_above : (s.above h).global = s.global.above h := rfl

@[simp] lemma current_above : (s.above h).current = s.current.above h := by
  simp only [current, above]
  cases s.calls with
  | nil => rfl
  | cons f fs => rfl

@[simp] lemma resolve?_above (name : String) :
    (s.above h).resolve? name = (s.resolve? name).map (·.above h) := by
  simp only [resolve?, current_above, global_above, Frame.above, Bindings.get?_map]
  cases s.current.vars.get? name with
  | none => rfl
  | some v => rfl

lemma updateCurrent_above {f f' : Frame → Frame} (hf : ∀ x, f' (x.above h) = (f x).above h) :
    (s.above h).updateCurrent f' = (s.updateCurrent f).above h := by
  obtain ⟨global, calls, depth, depth_eq, nextSerial⟩ := s
  cases calls with
  | nil =>
      show Store.mk (f' (global.above h)) [] depth _ nextSerial =
        Store.mk ((f global).above h) [] depth _ nextSerial
      simp only [hf]
  | cons c cs =>
      show Store.mk (global.above h) (f' (c.above h) :: cs.map (·.above h)) depth _ nextSerial =
        Store.mk (global.above h) ((f c).above h :: cs.map (·.above h)) depth _ nextSerial
      simp only [hf]

lemma assign_above (name : String) (v : Value) :
    (s.above h).assign name (v.above h) = (s.assign name v).above h := by
  have hbind : ∀ x : Frame, { x.above h with vars := (x.above h).vars.insert name (v.above h) } =
      Frame.above h { x with vars := x.vars.insert name v } := by
    intro x
    simp only [Frame.above, Bindings.insert_map]
  simp only [assign, current_above, global_above, Frame.above, Bindings.contains_map]
  split
  · exact updateCurrent_above h s hbind
  · split
    · simp only [above, Frame.above, Bindings.insert_map]
    · exact updateCurrent_above h s hbind

lemma bindGlobal_above (name : String) (v : Value) :
    (s.above h).bindGlobal name (v.above h) = (s.bindGlobal name v).above h := by
  simp only [bindGlobal, above, Frame.above, Bindings.insert_map]

lemma push_above (label : String) (vars : Bindings Value) :
    (s.above h).push label (vars.map (·.above h)) = (s.push label vars).above h := rfl

lemma pop_above : (s.above h).pop = (s.pop).above h := by
  obtain ⟨global, calls, depth, depth_eq, nextSerial⟩ := s
  cases calls with
  | nil => rfl
  | cons c cs => rfl

lemma truncate_above (depth : Nat) : (s.above h).truncate depth = (s.truncate depth).above h := by
  simp only [truncate, above, List.map_drop, List.length_drop, List.length_map]

@[simp] lemma visible_above : (s.above h).visible = s.visible := by
  simp only [visible, current_above, global_above, Frame.above]
  show (Bindings.insertAll _ (s.current.vars.entries.map (Prod.map id (·.above h)))).names = _
  rw [Bindings.insertAll_map, Bindings.names_map]

end Store

/-! ### Machines above other lists -/

/-- The completion of a statement above the lists of a heap. -/
def Completion.above (h : Heap) : Completion → Completion
  | .next => .next
  | .returned v => .returned (v.above h)

/-- The end of a run above the lists of a heap. -/
def Outcome.above (h : Heap) : Outcome → Outcome
  | .completed v => .completed (v.above h)
  | o => o

/-- What is being done above the lists of a heap, unless a host function acts. -/
def Control.above (h : Heap) : Control → Control
  | .value v => .value (v.above h)
  | .complete c => .complete (c.above h)
  | .call name args site => .call name (args.map (·.above h)) site
  | .ending o => .ending (o.above h)
  | .ended o => .ended (o.above h)
  | c => c

/-- A task above the lists of a heap, unless it answers a host function. -/
def Pending.above (h : Heap) : Pending → Pending
  | .binaryApply span op left => .binaryApply span op (left.above h)
  | .relationApply span op left => .relationApply span op (left.above h)
  | .items done rest => .items (done.map (·.above h)) rest
  | .args site name done rest => .args site name (done.map (·.above h)) rest
  | .each var cursor index body => .each var (cursor.above h) index body
  | p => p

namespace Machine

/-- The machine above the lists of a heap.  No failure has taken frames along. -/
def above (h : Heap) (m : Machine) : Machine :=
  { m with
    control := m.control.above h
    pending := m.pending.map (·.above h)
    store := m.store.above h
    heap := m.heap.above h
    failedStack := none }

variable (h : Heap) (m : Machine)

@[simp] lemma store_above : (m.above h).store = m.store.above h := rfl

@[simp] lemma heap_above : (m.above h).heap = m.heap.above h := rfl

@[simp] lemma functions_above : (m.above h).functions = m.functions := rfl

lemma readVariable_above (span : Span) (name : String) :
    (m.above h).readVariable span name = (m.readVariable span name).above h := by
  simp only [readVariable, store_above, Store.resolve?_above, Store.visible_above]
  cases m.store.resolve? name with
  | none => rfl
  | some v => rfl

lemma makeList_above (done : List Value) :
    (m.above h).makeList (done.map (·.above h)) = (m.makeList done).above h := by
  simp only [makeList, heap_above, ← List.map_reverse, ← List.map_toArray, Heap.alloc_above]
  rfl

/-- A constant holds no list. -/
lemma above_ofLiteral {lit : Literal} {v : Value} (hv : Value.ofLiteral lit = .ok v) :
    v.above h = v := by
  cases lit with
  | unsupported k => simp [Value.ofLiteral] at hv
  | _ =>
      simp only [Value.ofLiteral, Except.ok.injEq] at hv
      rw [← hv]
      rfl

lemma eval_above (n : Node) : (m.above h).eval n = (m.eval n).above h := by
  unfold eval
  split
  · rfl
  · split
    · -- a constant stays as it is when a value is moved up
      rename_i v hv
      have hgive : (m.above h).give (v.above h) = (m.give v).above h := rfl
      rwa [above_ofLiteral h hv] at hgive
    · rfl
  · rfl
  · rfl
  · rfl
  · rfl
  · rfl
  · rfl
  · exact readVariable_above h m _ _
  · rfl
  · rfl
  · exact makeList_above h m []
  · rfl
  · rfl
  · rfl
  · rfl
  · rfl

lemma badIndex_above (span : Span) (name : String) (v : Value) :
    (m.above h).badIndex span name (v.above h) = (m.badIndex span name v).above h := by
  simp only [badIndex, heap_above, Heap.display_above]
  rfl

lemma badPosition_above (span : Span) (id : ListId) (p : Int) :
    (m.above h).badPosition span (id.above h) p = (m.badPosition span id p).above h := by
  simp only [badPosition, heap_above, Heap.length_above]
  rfl

lemma readElement_above (span : Span) (name : String) (index : Value) :
    (m.above h).readElement span name (index.above h) =
      (m.readElement span name index).above h := by
  unfold readElement
  have hposition : position? (index.above h) = position? index := by simp [position?]
  rw [hposition]
  split
  · exact badIndex_above h m span name index
  · rename_i p hp
    rw [store_above, Store.resolve?_above]
    cases hv : m.store.resolve? name with
    | none => rfl
    | some v =>
        cases v with
        | list id =>
            have hget : (if 1 ≤ p then (m.above h).heap.get? (id.above h) (p - 1).toNat else none) =
                (if 1 ≤ p then m.heap.get? id (p - 1).toNat else none).map (·.above h) := by
              split
              · exact Heap.get?_above h m.heap id _
              · rfl
            simp only [Option.map_some, Value.above_list, hget]
            split
            · rename_i w hw
              obtain ⟨w, hw', rfl⟩ := Option.map_eq_some_iff.mp hw
              rw [hw']
              rfl
            · rename_i hw
              rw [Option.map_eq_none_iff.mp hw]
              exact badPosition_above h m span id p
        | _ => rfl

lemma writeElement_above (span : Span) (id : ListId) (p : Int) (v : Value) :
    (m.above h).writeElement span (id.above h) p (v.above h) =
      (m.writeElement span id p v).above h := by
  simp only [writeElement, heap_above, Heap.length_above, Heap.set_above, Heap.push_above]
  split
  · rfl
  · split
    · rfl
    · exact badPosition_above h m span id p

lemma listForWriting_above (name : String) :
    (m.above h).listForWriting name =
      ((m.listForWriting name).1.above h, (m.listForWriting name).2.above h) := by
  simp only [listForWriting, store_above, Store.resolve?_above, heap_above]
  cases m.store.resolve? name with
  | some v => rfl
  | none =>
      -- the variable gets a new list, whose identity has moved up with the others
      have halloc := Heap.alloc_above h m.heap #[]
      have hassign := Store.assign_above h m.store name (.list (m.heap.alloc #[]).1)
      rw [Array.map_empty] at halloc
      rw [Value.above_list] at hassign
      simp only [Option.map_none, halloc, hassign]
      rfl

lemma commit_above (v : Value) (target : Target) :
    (m.above h).commit (v.above h) target = (m.commit v target).above h := by
  cases target with
  | «variable» name =>
      simp only [commit, store_above, Store.assign_above]
      rfl
  | element span name p =>
      simp only [commit, listForWriting_above]
      obtain ⟨w, m'⟩ := m.listForWriting name
      cases w with
      | list id => exact writeElement_above h m' span id p v
      | _ => rfl

lemma assign_above (target value : Node) :
    (m.above h).assign target value = (m.assign target value).above h := by
  unfold assign
  split
  · rfl
  · rfl
  · rfl
  · rfl

lemma exec_above (n : Node) : (m.above h).exec n = (m.exec n).above h := by
  unfold exec
  split
  · rfl
  · exact assign_above h m _ _
  · rfl
  · rfl
  · rfl
  · rfl
  · rfl
  · rfl
  · rfl
  · rfl
  · rfl
  · rfl
  · rfl

lemma block_above (b : Block) : (m.above h).block b = (m.block b).above h := by
  cases b with
  | missing => rfl
  | of span statements => rfl

lemma choose_above (branches : List Branch) :
    (m.above h).choose branches = (m.choose branches).above h := by
  unfold choose
  split
  · rfl
  · rfl
  · rfl

/-- A task above other lists goes on with a value as it does without them, unless it is one that
answers a host function. -/
lemma resume_above (v : Value) {p : Pending} (hp : p.yields ≠ .action) :
    (m.above h).resume (v.above h) (p.above h) = (m.resume v p).above h := by
  cases p with
  | binaryApply span op left =>
      simp only [Pending.above, resume, heap_above, Value.operate?_above]
      cases Value.operate? m.heap op left v with
      | none => rfl
      | some r => rfl
  | relationApply span op left =>
      simp only [Pending.above, resume, Value.relate_above]
      split
      · rfl
      · rfl
  | negate | not =>
      simp only [Pending.above, resume, Value.asNumber_above, Value.truthy_above]
      rfl
  | element span name => exact readElement_above h m span name v
  | items done rest =>
      cases rest with
      | nil => exact makeList_above h m (v :: done)
      | cons item rest => rfl
  | args site name done rest =>
      cases rest with
      | nil =>
          have hargs : (v.above h :: done.map (·.above h)).reverse =
              (v :: done).reverse.map (·.above h) := by
            rw [List.map_reverse, List.map_cons]
          simp only [Pending.above, resume, hargs]
          rfl
      | cons arg rest => rfl
  | targetIndex span name value =>
      have hposition : position? (v.above h) = position? v := by simp [position?]
      simp only [Pending.above, resume, hposition]
      split
      · exact badIndex_above h m span name v
      · rfl
  | assign target => exact commit_above h m v target
  | timesCount span body =>
      simp only [Pending.above, resume, Value.asNumber_above]
      split
      · rfl
      · rfl
  | untilTest cond body | arm body rest =>
      simp only [Pending.above, resume, Value.truthy_above]
      split
      · rfl
      · rfl
  | eachSource span var body =>
      cases v with
      | list id =>
          simp only [Pending.above, Value.above_list, resume, heap_above, Cursor.start_above]
          rfl
      | _ => rfl
  | reenter site depth next => exact absurd rfl hp
  | _ => rfl

lemma iterate_above (cancelled : Bool) {p p' : Pending} {c : Control} (hp : p' = p.above h)
    (hc : c.above h = c) :
    (m.above h).iterate cancelled p' c = (m.iterate cancelled p c).above h := by
  unfold iterate
  split
  · rfl
  · simp only [await, above, List.map_cons, hp, hc]

/-- A task above other lists goes on after a statement as it does without them. -/
lemma proceed_above (cancelled : Bool) (c : Completion) (p : Pending) :
    (m.above h).proceed cancelled (c.above h) (p.above h) = (m.proceed cancelled c p).above h := by
  cases p with
  | leave outer => rfl
  | invocation =>
      simp only [Pending.above, proceed, store_above, Store.pop_above]
      cases c with
      | next => rfl
      | returned v => rfl
  | sequence rest =>
      cases c with
      | returned v => rfl
      | next =>
          cases rest with
          | nil => rfl
          | cons n rest => rfl
  | times i count body =>
      cases c with
      | returned v => rfl
      | next =>
          simp only [Pending.above, Completion.above, proceed]
          split
          · exact iterate_above h m cancelled rfl rfl
          · rfl
  | «until» cond body =>
      cases c with
      | returned v => rfl
      | next => exact iterate_above h m cancelled rfl rfl
  | each var cursor i body =>
      cases c with
      | returned v => rfl
      | next =>
          simp only [Pending.above, Completion.above, proceed, heap_above, Cursor.read?_above]
          cases cursor.read? m.heap i with
          | none => rfl
          | some v =>
              simp only [Option.map_some]
              split
              · rfl
              · simp only [store_above, Store.assign_above]
                rfl
  | _ =>
      cases c with
      | returned v => rfl
      | next => rfl

/-- A failure passes a task above other lists as it does without them. -/
lemma unwind_above (e : Failure) {p : Pending} (hp : p.yields ≠ .action) :
    (m.above h).unwind e (p.above h) = (m.unwind e p).above h := by
  cases p with
  | reenter site depth next => exact absurd rfl hp
  | _ => rfl

lemma collapse_above (text : String) (p : Pending) :
    (m.above h).collapse text (p.above h) = (m.collapse text p).above h := by
  cases p with
  | hostCall name site depth =>
      simp only [Pending.above, collapse, store_above, Store.truncate_above]
      rfl
  | _ => rfl

end Machine

/-! ### Host functions above other lists -/

/-- Whether a request and its answers have nothing to do with lists. -/
def Request.isListless : Request → Bool
  | .write _ | .display _ | .prompt _ | .draw _ | .site | .output => true
  | _ => false

/-- The second of two host functions does above the lists of a heap what the first one does without
them. -/
inductive Action.Above (h : Heap) : Action Value → Action Value → Prop where
  | pure (v : Value) : Above h (.pure v) (.pure (v.above h))
  | fail {e : Failure} (he : e.stack? = none) : Above h (.fail e) (.fail e)
  | crash (text : String) : Above h (.crash text) (.crash text)
  | heap {next next' : Heap → Action Value} (hnext : ∀ g, Above h (next g) (next' (g.above h))) :
      Above h (.ask .heap next) (.ask .heap next')
  | push {id : ListId} {v : Value} {next next' : Unit → Action Value}
      (hnext : Above h (next ()) (next' ())) :
      Above h (.ask (.push id v) next) (.ask (.push (id.above h) (v.above h)) next')
  | insert {id : ListId} {i : Nat} {v : Value} {next next' : Unit → Action Value}
      (hnext : Above h (next ()) (next' ())) :
      Above h (.ask (.insert id i v) next) (.ask (.insert (id.above h) i (v.above h)) next')
  | erase {id : ListId} {i : Nat} {next next' : Unit → Action Value}
      (hnext : Above h (next ()) (next' ())) :
      Above h (.ask (.erase id i) next) (.ask (.erase (id.above h) i) next')
  | listless {q : Request} {next next' : q.Answer → Action Value} (hq : q.isListless = true)
      (hnext : ∀ answer, Above h (next answer) (next' answer)) :
      Above h (.ask q next) (.ask q next')

/-- A function of the host does the same with lists that have moved up. -/
def Native.Steady (f : Native) : Prop :=
  ∀ (h : Heap) (args : List Value), (f args).Above h (f (args.map (·.above h)))

/-- The functions of a plugin are steady. -/
def Plugin.Steady (p : Plugin) : Prop := ∀ f ∈ p.functions, Native.Steady f.2

/-- A function is a procedure of the program, or a steady one of the host. -/
def Function.Steady : Function → Prop
  | .host _ f => Native.Steady f
  | .declared _ _ => True

namespace Builtins

variable {h : Heap}

lemma above_fault (kind : FaultKind) (detail : String) :
    (Action.fault kind detail : Action Value).Above h (Action.fault kind detail) :=
  .listless rfl fun _ => .fail rfl

lemma above_withList (name what : String) (args : List Value)
    {next : ListId → List Value → Action Value}
    (hnext : ∀ id rest, (next id rest).Above h (next (id.above h) (rest.map (·.above h)))) :
    (withList name what args next).Above h (withList name what (args.map (·.above h)) next) := by
  cases args with
  | nil => exact above_fault _ _
  | cons v rest =>
      cases v with
      | list id => exact hnext id rest
      | _ => exact above_fault _ _

lemma steady_display : Native.Steady display := by
  intro h args
  refine .heap fun g => ?_
  have htexts : (args.map (·.above h)).map (g.above h).display = args.map g.display := by
    rw [List.map_map]
    exact List.map_congr_left fun v _ => Heap.display_above h g v
  rw [htexts]
  refine .listless rfl fun e => ?_
  cases e with
  | none => exact .pure _
  | some e => exact .fail rfl

lemma steady_input : Native.Steady input := by
  intro h args
  refine .heap fun g => ?_
  have hprompt : (args.map (·.above h)).head?.map (g.above h).display =
      args.head?.map g.display := by
    cases args with
    | nil => rfl
    | cons v args => exact congrArg some (Heap.display_above h g v)
  rw [hprompt]
  refine .listless rfl fun line => ?_
  cases line with
  | ok line =>
      have hvalue : (inputValue line).above h = inputValue line := by
        unfold inputValue
        repeat' split
        all_goals rfl
      have hpure := Action.Above.pure (h := h) (inputValue line)
      rwa [hvalue] at hpure
  | error e => exact .fail rfl

lemma steady_random : Native.Steady random := by
  intro h args
  match args with
  | [a, b] =>
      simp only [List.map_cons, List.map_nil, random, Value.asNumber_above]
      split
      · exact .fail rfl
      · exact .listless rfl fun k => .pure _
  | [] => exact above_fault _ _
  | [a] => exact above_fault _ _
  | a :: b :: c :: rest =>
      simp only [List.map_cons, random, List.length_cons, List.length_map]
      exact above_fault _ _

lemma steady_length : Native.Steady length := by
  intro h args
  refine above_withList _ _ args fun id rest => .heap fun g => ?_
  rw [Heap.length_above]
  exact .pure _

lemma steady_append : Native.Steady append := by
  intro h args
  refine above_withList _ _ args fun id rest => ?_
  cases rest with
  | nil => exact .fail rfl
  | cons v rest => exact .push (.pure _)

lemma above_badPosition (name : String) (g : Heap) (id : ListId) (v : Value) :
    (badPosition name g id v).Above h (badPosition name (g.above h) (id.above h) (v.above h)) := by
  simp only [badPosition, Heap.display_above, Heap.length_above]
  exact above_fault _ _

lemma steady_insert : Native.Steady insert := by
  intro h args
  refine above_withList _ _ args fun id rest => ?_
  cases rest with
  | nil => exact .fail rfl
  | cons p rest =>
      refine .heap fun g => ?_
      simp only [Heap.length_above, Value.position?_above]
      cases p.position? (g.length id + 1) with
      | none => exact above_badPosition _ g id p
      | some i =>
          cases rest with
          | nil => exact .fail rfl
          | cons v rest => exact .insert (.pure _)

lemma steady_remove : Native.Steady remove := by
  intro h args
  refine above_withList _ _ args fun id rest => ?_
  cases rest with
  | nil => exact .fail rfl
  | cons p rest =>
      refine .heap fun g => ?_
      simp only [Heap.length_above, Value.position?_above]
      cases p.position? (g.length id) with
      | none => exact above_badPosition _ g id p
      | some i => exact .erase (.pure _)

/-- The builtin functions are steady. -/
theorem steady_plugin : plugin.Steady := by
  intro f hf
  simp only [plugin, List.mem_cons, List.not_mem_nil, or_false] at hf
  rcases hf with rfl | rfl | rfl | rfl | rfl | rfl | rfl
  · exact steady_display
  · exact steady_input
  · exact steady_random
  · exact steady_length
  · exact steady_append
  · exact steady_insert
  · exact steady_remove

end Builtins

/-! ### Calls above other lists -/

/-- Whether a host function acts, or waits to be released. -/
def Control.isActing : Control → Bool
  | .host _ _ | .held _ _ => true
  | _ => false

/-- The second control does above the lists of a heap what the first one does without them.  No
failure has taken frames along. -/
inductive Control.Above (h : Heap) : Control → Control → Prop where
  | acting {site : Span} {a a' : Action Value} (ha : a.Above h a') :
      Above h (.host site a) (.host site a')
  | calm {c : Control} (hacting : c.isActing = false) (hfresh : c.isFresh = true) :
      Above h c (c.above h)

lemma Control.Above.not_held {h : Heap} {c c' : Control} (hc : c.Above h c') (site : Span)
    (next : Action Value) : c' ≠ .held site next := by
  cases hc with
  | acting ha => simp
  | calm hacting _ =>
      cases c with
      | held _ _ => simp [isActing] at hacting
      | _ => simp [Control.above]

namespace Machine

/-- The second machine does above the lists of a heap what the first one does without them. -/
structure Lifted (h : Heap) (m m' : Machine) : Prop where
  control : m.control.Above h m'.control
  rest : m' = (m.above h).goto m'.control

variable {h : Heap} {m m' : Machine}

lemma invoke_above (name : String) (params : List String) (body : Block) (args : List Value)
    (site : Span) :
    (m.invoke name params body args site).Lifted h
      ((m.above h).invoke name params body (args.map (·.above h)) site) := by
  by_cases hdeep : 0 < m.maxDepth ∧ m.maxDepth < m.store.depth
  · have hdeep' : 0 < (m.above h).maxDepth ∧ (m.above h).maxDepth < (m.above h).store.depth := hdeep
    rw [invoke, invoke, if_pos hdeep, if_pos hdeep']
    exact ⟨.calm rfl rfl, rfl⟩
  · have hdeep' : ¬(0 < (m.above h).maxDepth ∧ (m.above h).maxDepth < (m.above h).store.depth) :=
      hdeep
    have hvars : (Bindings.empty : Bindings Value).insertAll (params.zip (args.map (·.above h))) =
        ((Bindings.empty : Bindings Value).insertAll (params.zip args)).map (·.above h) := by
      rw [List.zip_map_right, ← Bindings.insertAll_map]
      rfl
    rw [invoke, invoke, if_neg hdeep, if_neg hdeep', hvars]
    exact ⟨.calm rfl rfl, rfl⟩

/-- A function called above other lists does what it does without them. -/
lemma call_above (hf : m.functions.All Function.Steady) (name : String) (args : List Value)
    (site : Span) :
    (m.call name args site).Lifted h ((m.above h).call name (args.map (·.above h)) site) := by
  unfold call
  rw [functions_above]
  cases hget : Bindings.get? m.functions name with
  | none => exact ⟨.calm rfl rfl, rfl⟩
  | some f =>
      by_cases harity : 0 ≤ f.arity ∧ f.arity ≠ args.length
      · simp only [List.length_map, if_pos harity]
        exact ⟨.calm rfl rfl, rfl⟩
      · simp only [List.length_map, if_neg harity]
        cases f with
        | host arity body => exact ⟨.acting (hf.get hget h args), rfl⟩
        | declared params body => exact invoke_above name params body args site

end Machine

end Pseudocode
