/-
# Positions mean the same everywhere

A program can get at an element of a list in four ways: it reads the element or assigns to it, or it
calls the functions that remove an element and insert one.  Positions are counted from one, and any
value may be given for one.  The first two take the integer that the value reads as and see whether
the list has such a position; the other two compare the number with the length first, and take the
integer then.

As long as the number is one of those that 64 bits can count, this makes no difference.  Reading and
removing go for the same element, whenever there is one; assigning and inserting put the value at
the same place; and where there is no such position, all four fail in the same way.

The main results are

* `Value.ReadsAs.position?`, `Value.readsAs_of_position?`: both ways to take a value for a position;
* `Session.gives_of_readsAs`: what the four come to at a position of the list;
* `Session.misses_of_not_readsAs`: what they come to at a value that is none;
* `Session.positions_agree`: what has been said above.
-/
import Pseudocode.Proofs.Assignments
import Pseudocode.Proofs.Sequences
import Pseudocode.Proofs.Snapshots

namespace Pseudocode

/-! ### What a number reads as -/

/-- The magnitude of the number is below `2 ^ 63`, or it has none. -/
def Number.Moderate : Number → Prop
  | .finite _ m e _ => m * 2 ^ e.toNat < 2 ^ 63 * 2 ^ (-e).toNat
  | _ => True

namespace Value

variable {v : Value} {j k : Nat} {p : Int}

lemma ReadsAs.unique (hj : v.ReadsAs j) (hk : v.ReadsAs k) : j = k := by
  obtain ⟨m, e, _, hnumber, hj⟩ := hj
  obtain ⟨m', e', _, hnumber', hk⟩ := hk
  cases hnumber.symm.trans hnumber'
  exact Nat.eq_of_mul_eq_mul_right (Nat.two_pow_pos _) (hj.symm.trans hk)

/-- An integer that 64 bits can count is the position that it reads as. -/
lemma ReadsAs.position? (h : v.ReadsAs k) (hv : v.asNumber.Moderate) :
    Machine.position? v = some (k : Int) := by
  obtain ⟨m, e, _, hnumber, hvalue⟩ := h
  have hpos : 0 < 2 ^ (-e).toNat := Nat.two_pow_pos _
  have hpart : Number.integerPart m e = k := by
    rw [Number.integerPart, Nat.shiftLeft_eq, Nat.shiftRight_eq_div_pow, hvalue,
      Nat.mul_div_cancel _ hpos]
  have hintegral : Number.isIntegral m e = true := by
    rw [Number.isIntegral, hpart, beq_iff_eq, Nat.shiftLeft_eq, Nat.shiftLeft_eq, hvalue]
  have hsmall : k < 2 ^ 63 := by
    rw [hnumber, Number.Moderate, hvalue] at hv
    exact Nat.lt_of_mul_lt_mul_right hv
  have hfits : Number.fitsInt64 (k : Int) = true := by
    simp [Number.fitsInt64, Number.minInt64, Number.maxInt64]
    omega
  simp only [Machine.position?, hnumber, Number.isInteger, hintegral, if_true, Number.toInt64,
    Number.truncate?, Number.signed, hpart, Bool.false_eq_true, if_false, hfits]

/-- A position that is at least one is the integer that the value reads as. -/
lemma readsAs_of_position? (h : Machine.position? v = some p) (hp : 1 ≤ p) :
    v.ReadsAs p.toNat := by
  unfold Machine.position? at h
  cases hnumber : v.asNumber with
  | nan => simp [hnumber, Number.isInteger] at h
  | infinity negative => simp [hnumber, Number.isInteger] at h
  | finite negative m e hcanonical =>
      simp only [hnumber, Number.isInteger, Number.toInt64, Number.truncate?] at h
      split at h
      · rename_i hintegral
        obtain rfl := Option.some.inj h
        split at hp
        · rename_i hfits
          rw [if_pos hfits]
          cases negative with
          | true => simp [Number.signed] at hp; omega
          | false =>
              refine ⟨m, e, hcanonical, hnumber, ?_⟩
              simp only [Number.isIntegral, beq_iff_eq, Nat.shiftLeft_eq] at hintegral
              simpa [Number.signed] using hintegral.symm
        · simp [Number.minInt64] at hp
      · cases h

end Value

namespace Session

open Machine

/-! ### Until something is over -/

/-- The session with other pending tasks, at another point, and with nothing to report. -/
def poised (s : Session) (K : List Pending) (c : Control) : Session :=
  { s with
    controller := { s.controller with reporting := false }
    machine := { s.machine with pending := K, control := c } }

/-- What begins in `a` above the tasks `K`, which are left alone, is over for the first time
in `b`. -/
inductive ComesTo (K : List Pending) : Session → Session → Prop where
  | now {a : Session} (h : Resolved K a) : ComesTo K a a
  | step {a b : Session} (kept : K <:+ a.machine.pending) (h : ¬ Resolved K a)
      (rest : ComesTo K a.step b) : ComesTo K a b

variable {K : List Pending} {a b c s t : Session} {p : Pending}

/-- It comes to one thing only. -/
lemma ComesTo.unique (h : ComesTo K a b) (h' : ComesTo K a c) : b = c := by
  induction h with
  | now h =>
      cases h' with
      | now _ => rfl
      | step _ hnot _ => exact absurd h hnot
  | step _ hnot _ ih =>
      cases h' with
      | now h => exact absurd h hnot
      | step _ _ rest => exact ih rest

lemma ComesTo.resolved (h : ComesTo K a b) : Resolved K b := by
  induction h with
  | now h => exact h
  | step _ _ _ ih => exact ih

/-- What is done for a task, and then what is done with the result. -/
lemma ComesTo.bind (h : ComesTo (p :: K) a b) (h' : ComesTo K b c) : ComesTo K a c := by
  induction h with
  | now _ => exact h'
  | @step a b kept _ _ ih =>
      refine .step ((List.suffix_cons p K).trans kept) (not_resolved (.inl ?_)) (ih h')
      exact Nat.lt_of_lt_of_le (Nat.lt_succ_self _) kept.length_le

/-- A step that is taken with something other than a result in hand. -/
lemma ComesTo.goes {d : Control} (hd : d.isResult = false)
    (h : ComesTo K (s.poised K d).step b) : ComesTo K (s.poised K d) b :=
  .step List.suffix_rfl (not_resolved (.inr hd)) h

/-- The expression comes to the value, and does nothing else. -/
def Yields (s : Session) (n : Node) (v : Value) : Prop :=
  ∀ K, ComesTo K (s.poised K (.eval n)) (s.poised K (.value v))

lemma yields_literal {span : Span} {l : Literal} {v : Value} (h : Value.ofLiteral l = .ok v) :
    s.Yields (.literal span l) v := by
  intro K
  have hstep : (s.poised K (.eval (.literal span l))).step = s.poised K (.value v) := by
    simp only [Session.step, Session.proceed, poised, eval, h]
    rfl
  refine .goes rfl ?_
  rw [hstep]
  exact .now ⟨rfl, rfl⟩

lemma yields_identifier {span : Span} {name : String} {v : Value}
    (h : s.machine.store.resolve? name = some v) : s.Yields (.identifier span name) v := by
  intro K
  have hstep : (s.poised K (.eval (.identifier span name))).step = s.poised K (.value v) := by
    simp only [Session.step, Session.proceed, poised, eval, readVariable, h]
    rfl
  refine .goes rfl ?_
  rw [hstep]
  exact .now ⟨rfl, rfl⟩

/-- A task that waits for the value of an expression goes on with it. -/
lemma Yields.resume {n : Node} {v : Value} (h : s.Yields n v)
    (hp : ComesTo K { s.poised K (.value v) with
      machine := (s.poised K (.value v)).machine.resume v p } b) :
    ComesTo K (s.poised (p :: K) (.eval n)) b :=
  (h (p :: K)).bind (.step (List.suffix_cons p K) (not_resolved (.inl (Nat.lt_succ_self _))) hp)

/-! ### The four ways to an element -/

/-- What can be done with the element of a list at a position. -/
inductive Access where
  | read
  | remove
  | write
  | insert

/-- The parts of a program that gets at an element: the name of the list, the index, and the value
that is to be stored. -/
structure Passage where
  span : Span
  list : Ident
  index : Node
  value : Node

/-- How a program does it. -/
def Access.begin (r : Passage) : Access → Control
  | read => .eval (.element r.span (some r.list) r.index)
  | remove => .eval (.call r.span (some ⟨r.span, "REMOVE"⟩)
      [.identifier r.list.span r.list.name, r.index])
  | write => .exec (.assignment r.span (.element r.span (some r.list) r.index) r.value)
  | insert => .eval (.call r.span (some ⟨r.span, "INSERT"⟩)
      [.identifier r.list.span r.list.name, r.index, r.value])

/-- The last position, in a list of `n` elements. -/
def Access.last (n : Nat) : Access → Nat
  | read | remove => n
  | write | insert => n + 1

/-- The result at the position after the elements `front`, and the elements of the list then. -/
def Access.outcome (v : Value) (front rest : List Value) : Access → Control × List Value
  | read => (.value (rest.headD .nothing), front ++ rest)
  | remove => (.value .nothing, front ++ rest.tail)
  | write => (.complete .next, front ++ v :: rest.tail)
  | insert => (.value .nothing, front ++ v :: rest)

/-- In the session the name is that of the list, index and value are what they are said to be, and
the functions that remove and insert have their names. -/
structure Means (s : Session) (r : Passage) (id : ListId) (i v : Value) : Prop where
  tidy : s.machine.heap.Tidy
  known : id.index < s.machine.heap.lists.size
  list : s.machine.store.resolve? r.list.name = some (.list id)
  index : s.Yields r.index i
  value : s.Yields r.value v
  remove : Bindings.get? s.machine.functions "REMOVE" = some (.host (-1) Builtins.remove)
  insert : Bindings.get? s.machine.functions "INSERT" = some (.host (-1) Builtins.insert)

variable {r : Passage} {id : ListId} {i v : Value} {n : Nat}

/-- It comes to the result; the list has the elements then, and nothing else has changed. -/
def Gives (s : Session) (r : Passage) (id : ListId) (K : List Pending) (a : Access)
    (o : Control × List Value) : Prop :=
  ∃ h : Heap, h.contents id = o.2 ∧ (∀ j, j ≠ id → h.contents j = s.machine.heap.contents j) ∧
    ComesTo K (s.poised K (a.begin r)) ((s.withHeap h).poised K o.1)

/-- It fails for the position, and nothing has changed. -/
def Misses (s : Session) (r : Passage) (K : List Pending) (a : Access) : Prop :=
  ∃ f : Fault, f.kind = .indexOutOfRange ∧
    ComesTo K (s.poised K (a.begin r)) (s.poised K (.fail (.fault f)))

/-- It comes to a result that is no failure. -/
def Succeeds (s : Session) (r : Passage) (K : List Pending) (a : Access) : Prop :=
  ∃ b, ComesTo K (s.poised K (a.begin r)) b ∧ b.machine.control.isBroken = false

lemma gives_of_replaced {a : Access} {o : Control × List Value} {h : Heap}
    (hid : id.index < s.machine.heap.lists.size) (hr : s.machine.heap.Replaced id o.2 h)
    (hb : ComesTo K (s.poised K (a.begin r)) ((s.withHeap h).poised K o.1)) :
    Gives s r id K a o :=
  ⟨h, hr.own hid, fun _ hj => hr.contents_ne hj, hb⟩

lemma misses_of_raise {a : Access} {d : Control} {m : Machine} {detail : String} {span : Span}
    (hm : m = (s.poised K d).machine.raise .indexOutOfRange detail span)
    (hb : ∀ b, ComesTo K { s.poised K d with machine := m } b → ComesTo K (s.poised K (a.begin r)) b) :
    Misses s r K a := by
  subst hm
  exact ⟨_, rfl, hb _ (.now ⟨rfl, rfl⟩)⟩

/-! ### What they do before they look at the list -/

lemma goes_read (h : Means s r id i v)
    (hb : ComesTo K { s.poised K (.value i) with machine :=
      ((s.poised K (.value i)).machine.readElement r.span r.list.name i) } b) :
    ComesTo K (s.poised K (Access.begin r .read)) b :=
  .goes rfl (h.index.resume hb)

lemma goes_write {p : Int} (h : Means s r id i v) (hp : position? i = some p)
    (hb : ComesTo K { s.poised K (.value v) with machine :=
      ((s.poised K (.value v)).machine.writeElement r.span id p v) } b) :
    ComesTo K (s.poised K (Access.begin r .write)) b := by
  have hcommit : (s.poised K (.value v)).machine.commit v (.element r.span r.list.name p) =
      (s.poised K (.value v)).machine.writeElement r.span id p v := commit_bound h.list
  refine .goes rfl (h.index.resume ?_)
  simp only [resume, hp]
  refine h.value.resume ?_
  rw [resume, hcommit]
  exact hb

/-- A call of a host function that takes any number of arguments goes on with what the function
does, and passes on its result and its faults. -/
lemma comesTo_call {name : String} {f : Native} {args : List Value} {site : Span}
    (hf : Bindings.get? s.machine.functions name = some (.host (-1) f)) {d : Control}
    (hd : (∃ w, d = .value w) ∨ ∃ e, d = .fail (.fault e))
    (hb : ComesTo (.hostCall name site s.machine.store.depth :: K)
      (s.poised (.hostCall name site s.machine.store.depth :: K) (.host site (f args)))
      (t.poised (.hostCall name site s.machine.store.depth :: K) d)) :
    ComesTo K (s.poised K (.call name args site)) (t.poised K d) := by
  have hstep : (s.poised K (.call name args site)).step =
      s.poised (.hostCall name site s.machine.store.depth :: K) (.host site (f args)) := by
    simp only [Session.step, Session.proceed, poised, call, hf]
    rfl
  refine .goes rfl ?_
  rw [hstep]
  refine hb.bind (.step (List.suffix_cons _ _) (not_resolved (.inl (Nat.lt_succ_self _))) ?_)
  rcases hd with ⟨w, rfl⟩ | ⟨e, rfl⟩
  · exact .now ⟨rfl, rfl⟩
  · exact .now ⟨rfl, rfl⟩

lemma goes_remove (h : Means s r id i v)
    (hb : ComesTo K (s.poised K (.call "REMOVE" [.list id, i] r.span)) b) :
    ComesTo K (s.poised K (Access.begin r .remove)) b :=
  .goes rfl ((yields_identifier h.list).resume (h.index.resume hb))

lemma goes_insert (h : Means s r id i v)
    (hb : ComesTo K (s.poised K (.call "INSERT" [.list id, i, v] r.span)) b) :
    ComesTo K (s.poised K (Access.begin r .insert)) b :=
  .goes rfl ((yields_identifier h.list).resume (h.index.resume (h.value.resume hb)))

/-- A host function that asks for the lists goes on with them. -/
lemma comesTo_heap {site : Span} {next : Heap → Action Value}
    (hb : ComesTo K (s.poised K (.host site (next s.machine.heap))) b) :
    ComesTo K (s.poised K (.host site (.ask .heap next))) b :=
  .goes rfl hb

/-- A host function that changes the lists and is through then has done just that. -/
lemma comesTo_change {site : Span} {q : Request} {next : q.Answer → Action Value} {h : Heap}
    (hq : (s.poised K (.host site (.ask q next))).step =
      (s.withHeap h).poised K (.host site (.pure .nothing))) :
    ComesTo K (s.poised K (.host site (.ask q next))) ((s.withHeap h).poised K (.value .nothing)) := by
  refine .goes rfl ?_
  rw [hq]
  exact .goes rfl (.now ⟨rfl, rfl⟩)

/-! ### At a position of the list -/

section Gives

variable {front rest : List Value}

lemma gives_read {w : Value} (h : Means s r id i v)
    (hcontents : s.machine.heap.contents id = front ++ w :: rest)
    (hp : Machine.position? i = some ((front.length + 1 : Nat) : Int)) :
    Gives s r id K .read (Access.outcome v front (w :: rest) .read) := by
  have hget : s.machine.heap.get? id (((front.length + 1 : Nat) : Int) - 1).toNat = some w := by
    simp [Heap.get?_eq, hcontents]
  have hback : (s.poised K (.value i)).machine.ReadsBack w
      (.element r.span r.list.name (front.length + 1 : Nat)) :=
    readsBack_element h.list (by omega) hget
  have hread : (s.poised K (.value i)).machine.readElement r.span r.list.name i =
      (s.poised K (.value w)).machine := hback r.span i hp
  refine ⟨s.machine.heap, hcontents, fun _ _ => rfl, goes_read h ?_⟩
  rw [hread]
  exact .now ⟨rfl, rfl⟩

lemma gives_remove {w : Value} (h : Means s r id i v)
    (hcontents : s.machine.heap.contents id = front ++ w :: rest)
    (hp : i.position? (s.machine.heap.length id) = some front.length) :
    Gives s r id K .remove (Access.outcome v front (w :: rest) .remove) := by
  have herase := Heap.replaced_erase h.tidy id (Value.position?_eq_some_iff.mp hp).1
  rw [hcontents, List.eraseIdx_append_of_length_le (Nat.le_refl _), Nat.sub_self] at herase
  refine gives_of_replaced h.known herase (goes_remove h (comesTo_call h.remove (.inl ⟨_, rfl⟩) ?_))
  refine comesTo_heap ?_
  simp only [hp]
  exact comesTo_change rfl

lemma gives_write (h : Means s r id i v) (hcontents : s.machine.heap.contents id = front ++ rest)
    (hp : Machine.position? i = some ((front.length + 1 : Nat) : Int)) :
    Gives s r id K .write (Access.outcome v front rest .write) := by
  have hlength : s.machine.heap.length id = front.length + rest.length := by
    rw [← h.tidy.length_contents, hcontents, List.length_append]
  have hindex : (((front.length + 1 : Nat) : Int) - 1).toNat = front.length := by omega
  cases rest with
  | nil =>
      have hpush := Heap.replaced_push h.tidy id v
      rw [hcontents, List.append_nil] at hpush
      refine gives_of_replaced h.known hpush (goes_write h hp ?_)
      unfold writeElement
      simp only [poised, hlength, List.length_nil]
      rw [if_neg (by omega), if_pos (by omega)]
      exact .now ⟨rfl, rfl⟩
  | cons w rest =>
      have hset := Heap.replaced_set h.tidy id front.length v
      rw [hcontents, List.set_append_right _ _ (Nat.le_refl _), Nat.sub_self,
        List.set_cons_zero] at hset
      refine gives_of_replaced h.known hset (goes_write h hp ?_)
      unfold writeElement
      simp only [poised, hlength, List.length_cons, hindex]
      rw [if_pos (by omega)]
      exact .now ⟨rfl, rfl⟩

lemma gives_insert (h : Means s r id i v) (hcontents : s.machine.heap.contents id = front ++ rest)
    (hp : i.position? (s.machine.heap.length id + 1) = some front.length) :
    Gives s r id K .insert (Access.outcome v front rest .insert) := by
  have hle := Nat.le_of_lt_succ (Value.position?_eq_some_iff.mp hp).1
  have hinsert := Heap.replaced_insert h.tidy id hle v
  rw [hcontents, List.take_left' rfl, List.drop_left' rfl, List.append_assoc] at hinsert
  refine gives_of_replaced h.known hinsert
    (goes_insert h (comesTo_call h.insert (.inl ⟨_, rfl⟩) ?_))
  refine comesTo_heap ?_
  simp only [hp]
  exact comesTo_change rfl

end Gives

/-! ### At a value that is no position of the list -/

/-- Seen as an integer first, the value is no position either. -/
lemma not_inRange {p : Int} (hno : ¬ ∃ k, i.ReadsAs k ∧ 1 ≤ k ∧ k ≤ n)
    (hp : Machine.position? i = some p) : ¬ (1 ≤ p ∧ p ≤ n) := by
  rintro ⟨hone, hle⟩
  exact hno ⟨p.toNat, Value.readsAs_of_position? hp hone, by omega, by omega⟩

lemma position?_eq_none (hno : ¬ ∃ k, i.ReadsAs k ∧ 1 ≤ k ∧ k ≤ n) : i.position? n = none := by
  rw [Option.eq_none_iff_forall_ne_some]
  intro j hj
  obtain ⟨hlt, hreads⟩ := Value.position?_eq_some_iff.mp hj
  exact hno ⟨j + 1, hreads, by omega, hlt⟩

lemma misses_read (h : Means s r id i v)
    (hno : ¬ ∃ k, i.ReadsAs k ∧ 1 ≤ k ∧ k ≤ s.machine.heap.length id) :
    Misses s r K .read := by
  cases hp : Machine.position? i with
  | none =>
      have hread : (s.poised K (.value i)).machine.readElement r.span r.list.name i =
          (s.poised K (.value i)).machine.badIndex r.span r.list.name i := by
        simp only [readElement, hp]
      exact misses_of_raise hread fun b hb => goes_read h hb
  | some p =>
      have hrange := not_inRange hno hp
      have hget : (if 1 ≤ p then s.machine.heap.get? id (p - 1).toNat else none) = none := by
        split
        · rw [Heap.get?_eq, List.getElem?_eq_none]
          rw [h.tidy.length_contents]
          omega
        · rfl
      have hread : (s.poised K (.value i)).machine.readElement r.span r.list.name i =
          (s.poised K (.value i)).machine.badPosition r.span id p := by
        simp only [readElement, hp, poised, h.list, hget]
      exact misses_of_raise hread fun b hb => goes_read h hb

/-- A builtin function that finds no position fails, and the failure is the caller's. -/
lemma comesTo_badPosition (name : String) (site : Span) (id : ListId) (p : Value) :
    ∃ f : Fault, f.kind = .indexOutOfRange ∧
      ComesTo K (s.poised K (.host site (Builtins.badPosition name s.machine.heap id p)))
        (s.poised K (.fail (.fault f))) :=
  ⟨{ kind := .indexOutOfRange
     detail := name ++ ": " ++ (s.machine.heap.display p).shown ++ " (length " ++
      toString (s.machine.heap.length id) ++ ")"
     span := site }, rfl, .goes rfl (.goes rfl (.now ⟨rfl, rfl⟩))⟩

lemma misses_remove (h : Means s r id i v)
    (hno : ¬ ∃ k, i.ReadsAs k ∧ 1 ≤ k ∧ k ≤ s.machine.heap.length id) :
    Misses s r K .remove := by
  obtain ⟨f, hkind, hbad⟩ := comesTo_badPosition "REMOVE" r.span id i
  refine ⟨f, hkind, goes_remove h (comesTo_call h.remove (.inr ⟨f, rfl⟩) (comesTo_heap ?_))⟩
  simp only [position?_eq_none hno]
  exact hbad

lemma misses_write (h : Means s r id i v)
    (hno : ¬ ∃ k, i.ReadsAs k ∧ 1 ≤ k ∧ k ≤ s.machine.heap.length id + 1) :
    Misses s r K .write := by
  cases hp : Machine.position? i with
  | none =>
      have hindex : (s.poised K (.value i)).machine.resume i
          (.targetIndex r.span r.list.name r.value) =
            (s.poised K (.value i)).machine.badIndex r.span r.list.name i := by
        simp only [resume, hp]
      exact misses_of_raise hindex fun b hb => .goes rfl (h.index.resume hb)
  | some p =>
      have hwrite : (s.poised K (.value v)).machine.writeElement r.span id p v =
          (s.poised K (.value v)).machine.badPosition r.span id p :=
        writeElement_of_not (m := (s.poised K (.value v)).machine) (not_inRange hno hp)
      exact misses_of_raise hwrite fun b hb => goes_write h hp hb

lemma misses_insert (h : Means s r id i v)
    (hno : ¬ ∃ k, i.ReadsAs k ∧ 1 ≤ k ∧ k ≤ s.machine.heap.length id + 1) :
    Misses s r K .insert := by
  obtain ⟨f, hkind, hbad⟩ := comesTo_badPosition "INSERT" r.span id i
  refine ⟨f, hkind, goes_insert h (comesTo_call h.insert (.inr ⟨f, rfl⟩) (comesTo_heap ?_))⟩
  simp only [position?_eq_none hno]
  exact hbad

/-! ### All four together -/

/-- What an access comes to at a position of the list, or at the one after the last. -/
theorem gives_of_readsAs {front rest : List Value} (h : Means s r id i v)
    (hi : i.asNumber.Moderate) (hcontents : s.machine.heap.contents id = front ++ rest)
    (hreads : i.ReadsAs (front.length + 1)) (a : Access)
    (hlast : front.length + 1 ≤ a.last (s.machine.heap.length id)) :
    Gives s r id K a (a.outcome v front rest) := by
  have hp := hreads.position? hi
  have hposition : ∀ {n}, front.length + 1 ≤ n → i.position? n = some front.length :=
    fun hle => Value.position?_eq_some_iff.mpr ⟨hle, hreads⟩
  have hlength : s.machine.heap.length id = front.length + rest.length := by
    rw [← h.tidy.length_contents, hcontents, List.length_append]
  have hcons : front.length + 1 ≤ s.machine.heap.length id → ∃ w rest', rest = w :: rest' :=
    fun hle => List.exists_cons_of_length_pos (by omega)
  cases a with
  | read =>
      obtain ⟨w, rest, rfl⟩ := hcons hlast
      exact gives_read h hcontents hp
  | remove =>
      obtain ⟨w, rest, rfl⟩ := hcons hlast
      exact gives_remove h hcontents (hposition hlast)
  | write => exact gives_write h hcontents hp
  | insert => exact gives_insert h hcontents (hposition hlast)

/-- What an access comes to at a value that is not one of its positions. -/
theorem misses_of_not_readsAs (h : Means s r id i v) (a : Access)
    (hno : ¬ ∃ k, i.ReadsAs k ∧ 1 ≤ k ∧ k ≤ a.last (s.machine.heap.length id)) :
    Misses s r K a := by
  cases a with
  | read => exact misses_read h hno
  | remove => exact misses_remove h hno
  | write => exact misses_write h hno
  | insert => exact misses_insert h hno

/-- Without a failure means at a position. -/
lemma succeeds_iff (h : Means s r id i v) (hi : i.asNumber.Moderate) (a : Access) :
    Succeeds s r K a ↔
      ∃ k, i.ReadsAs k ∧ 1 ≤ k ∧ k ≤ a.last (s.machine.heap.contents id).length := by
  rw [h.tidy.length_contents]
  constructor
  · rintro ⟨b, hb, hbroken⟩
    by_contra hno
    obtain ⟨f, -, hfails⟩ := misses_of_not_readsAs (K := K) h a hno
    rw [hb.unique hfails] at hbroken
    cases hbroken
  · rintro ⟨k, hreads, hone, hlast⟩
    have hlength := h.tidy.length_contents id
    have hle : k - 1 ≤ (s.machine.heap.contents id).length := by
      have hlast' : a.last (s.machine.heap.length id) ≤ s.machine.heap.length id + 1 := by
        cases a <;> simp [Access.last]
      omega
    have hfront : ((s.machine.heap.contents id).take (k - 1)).length + 1 = k := by
      rw [List.length_take_of_le hle]
      omega
    obtain ⟨g, -, -, hb⟩ := gives_of_readsAs (K := K) h hi (List.take_append_drop _ _).symm
      (by rwa [hfront]) a (by rwa [hfront])
    exact ⟨_, hb, by cases a <;> rfl⟩

/-- **Positions mean the same everywhere.**  Take any session in which a list has a name, and any
value for an index whose number is of a magnitude below `2 ^ 63`, or has none.

* Reading the element succeeds exactly when removing it does: if the value reads as one of the
  integers from one to the length.
* Assigning to it succeeds exactly when inserting there does: if the value reads as one of those, or
  as the one after the length.
* At a position, after the elements `front` and before the elements `rest`, the element that is read
  is the one that is removed, the first of `rest`; and the value is put after `front`, whether it is
  assigned or inserted.  No other list changes, and neither does anything else.
* At any other value all of them fail with an index that is out of range, and nothing has changed. -/
theorem positions_agree (h : Means s r id i v) (hi : i.asNumber.Moderate) (K : List Pending) :
    (Succeeds s r K .read ↔ Succeeds s r K .remove) ∧
    (Succeeds s r K .write ↔ Succeeds s r K .insert) ∧
    (Succeeds s r K .read ↔
      ∃ k, i.ReadsAs k ∧ 1 ≤ k ∧ k ≤ (s.machine.heap.contents id).length) ∧
    (Succeeds s r K .write ↔
      ∃ k, i.ReadsAs k ∧ 1 ≤ k ∧ k ≤ (s.machine.heap.contents id).length + 1) ∧
    (∀ front rest, s.machine.heap.contents id = front ++ rest → i.ReadsAs (front.length + 1) →
      (∀ w rest', rest = w :: rest' →
        Gives s r id K .read (.value w, front ++ w :: rest') ∧
        Gives s r id K .remove (.value .nothing, front ++ rest')) ∧
      Gives s r id K .write (.complete .next, front ++ v :: rest.tail) ∧
      Gives s r id K .insert (.value .nothing, front ++ v :: rest)) ∧
    ∀ a, ¬ Succeeds s r K a → Misses s r K a := by
  refine ⟨(succeeds_iff h hi .read).trans (succeeds_iff h hi .remove).symm,
    (succeeds_iff h hi .write).trans (succeeds_iff h hi .insert).symm,
    succeeds_iff h hi .read, succeeds_iff h hi .write, fun front rest hcontents hreads => ?_,
    fun a hno => ?_⟩
  · have hlength : s.machine.heap.length id = front.length + rest.length := by
      rw [← h.tidy.length_contents, hcontents, List.length_append]
    refine ⟨?_, gives_of_readsAs h hi hcontents hreads .write (by simp [Access.last]; omega),
      gives_of_readsAs h hi hcontents hreads .insert (by simp [Access.last]; omega)⟩
    rintro w rest rfl
    rw [List.length_cons] at hlength
    exact ⟨gives_of_readsAs h hi hcontents hreads .read (by simp [Access.last]; omega),
      gives_of_readsAs h hi hcontents hreads .remove (by simp [Access.last]; omega)⟩
  · rw [succeeds_iff h hi, h.tidy.length_contents] at hno
    exact misses_of_not_readsAs h a hno

/-- A session in which `xs` is a list of two elements. -/
def paired : Session :=
  { machine :=
      { store := (Store.empty).assign "xs" (.list ⟨0⟩)
        heap := ((Heap.alloc {} #[.text "a", .text "b"])).2
        functions := Plugin.addFunctions [Builtins.plugin] {} } }

/-- The index is a text that reads as two. -/
def second : Passage where
  span := .none
  list := ⟨.none, "xs"⟩
  index := .literal .none (.text " 2.0 ")
  value := .literal .none (.bool true)

lemma means_second : Means paired second ⟨0⟩ (.text " 2.0 ") (.bool true) where
  tidy := Heap.tidy_alloc (Heap.tidy_empty _) _
  known := Nat.zero_lt_one
  list := by decide +kernel
  index := yields_literal rfl
  value := yields_literal rfl
  remove := rfl
  insert := rfl

/-- All four get at the second element of the list. -/
theorem positions_agree_second :
    Means paired second ⟨0⟩ (.text " 2.0 ") (.bool true) ∧
    (Value.text " 2.0 ").asNumber.Moderate ∧
    Gives paired second ⟨0⟩ [] .read (.value (.text "b"), [.text "a", .text "b"]) ∧
    Gives paired second ⟨0⟩ [] .remove (.value .nothing, [.text "a"]) ∧
    Gives paired second ⟨0⟩ [] .write (.complete .next, [.text "a", .bool true]) ∧
    Gives paired second ⟨0⟩ [] .insert (.value .nothing, [.text "a", .bool true, .text "b"]) := by
  have hnumber : (Value.text " 2.0 ").asNumber =
      .finite false 4503599627370496 (-51) (by decide) := by
    decide +kernel
  have hmoderate : (Value.text " 2.0 ").asNumber.Moderate := by
    rw [hnumber]
    show 4503599627370496 * 2 ^ 0 < 2 ^ 63 * 2 ^ 51
    decide
  have hreads : (Value.text " 2.0 ").ReadsAs 2 := ⟨_, _, _, hnumber, by decide⟩
  obtain ⟨-, -, -, -, hgives, -⟩ := positions_agree means_second hmoderate []
  obtain ⟨hthere, hwrite, hinsert⟩ := hgives [.text "a"] [.text "b"] (by decide +kernel) hreads
  obtain ⟨hread, hremove⟩ := hthere _ _ rfl
  exact ⟨means_second, hmoderate, hread, hremove, hwrite, hinsert⟩

end Session

end Pseudocode
