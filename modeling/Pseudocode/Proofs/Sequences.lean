/-
# Lists are sequences

The operations on lists work on cells in place, and a list may have cells to spare or move to other
ones.  None of this shows: whatever sequence of operations is performed, on whatever lists, the
elements of every list are those that the same operations on sequences give.  An operation changes
the one list that it names, and one that fails changes none.

The operations are what runs of programs do, and what the host does before and between runs.  So no
two lists ever share cells.

The main results are

* `Operation.specified_perform`: one operation does what is specified for sequences;
* `Session.Lived.tidy`: at no moment of the life of a session do two of its lists share cells;
* `Session.lists_are_sequences`: what has been said above.
-/
import Pseudocode.Proofs.Changes
import Pseudocode.Proofs.Leaf
import Pseudocode.Proofs.Storage

namespace Pseudocode

/-! ### Positions -/

/-- A value reads as the number `m * 2 ^ e`, and this is the natural number `k`. -/
def Value.ReadsAs (p : Value) (k : Nat) : Prop :=
  ∃ m e h, p.asNumber = .finite false m e h ∧ m * 2 ^ e.toNat = k * 2 ^ (-e).toNat

/-- The positions of a list are the numbers from one to the limit. -/
lemma Value.position?_eq_some_iff {p : Value} {limit i : Nat} :
    p.position? limit = some i ↔ i < limit ∧ p.ReadsAs (i + 1) := by
  unfold position? ReadsAs
  cases p.asNumber with
  | nan => simp
  | infinity negative => simp
  | finite negative m e hcanonical =>
      cases negative with
      | true => simp
      | false =>
          have hpos : 0 < 2 ^ (-e).toNat := Nat.two_pow_pos _
          simp only [Number.isIntegral, Number.integerPart, Nat.shiftLeft_eq,
            Nat.shiftRight_eq_div_pow, Bool.and_eq_true, beq_iff_eq, decide_eq_true_eq]
          constructor
          · intro h
            split at h
            · rename_i hrange
              obtain ⟨⟨hexact, hone⟩, hle⟩ := hrange
              obtain rfl := Option.some.inj h
              refine ⟨by omega, m, e, hcanonical, rfl, ?_⟩
              rw [Nat.sub_add_cancel hone, hexact]
            · cases h
          · rintro ⟨hi, m', e', _, hnumber, hvalue⟩
            cases hnumber
            have hquotient : m * 2 ^ e.toNat / 2 ^ (-e).toNat = i + 1 := by
              rw [hvalue, Nat.mul_div_cancel _ hpos]
            rw [hquotient, if_pos ⟨⟨hvalue.symm, by omega⟩, by omega⟩, Nat.add_sub_cancel]

/-! ### The operations -/

/-- The operations that make lists and change them. -/
inductive Operation where
  /-- Making a list of the values of its items. -/
  | literal (items : List Value)
  /-- Assigning to the element at a position counted from one. -/
  | assign (span : Span) (id : ListId) (position : Int) (v : Value)
  /-- Calling the builtin functions. -/
  | append (site : Span) (args : List Value)
  | insert (site : Span) (args : List Value)
  | remove (site : Span) (args : List Value)
  /-- Copying a value. -/
  | clone (v : Value)

namespace Session

/-- Goes on until there is a result. -/
def conclude : (fuel : Nat) → Session → Session
  | 0, s => s
  | fuel + 1, s => if s.machine.control.isResult then s else s.proceed.conclude fuel

/-- The elements of all lists. -/
def lists (s : Session) : List (List Value) := s.machine.heap.sequences

end Session

namespace Operation

/-- Performs an operation.  The builtin functions are through after four steps at most. -/
def perform (s : Session) : Operation → Session
  | literal items => { s with machine := s.machine.makeList items.reverse }
  | assign span id p v => { s with machine := s.machine.writeElement span id p v }
  | append site args => (s.goto (.host site (Builtins.append args))).conclude 4
  | insert site args => (s.goto (.host site (Builtins.insert args))).conclude 4
  | remove site args => (s.goto (.host site (Builtins.remove args))).conclude 4
  | clone v =>
      let (w, heap) := s.machine.heap.clone v
      { s with machine := { s.machine with heap, control := .value w } }

/-- An operation fails and changes no list. -/
def Refused (ls : List (List Value)) (c : Control) (ls' : List (List Value)) : Prop :=
  (∃ e, c = .fail e) ∧ ls' = ls

/-- What an operation on the sequences `ls` has as its result, and what the sequences are after it.
The positions that programs give are counted from one. -/
def Specified : Operation → List (List Value) → Control → List (List Value) → Prop
  | literal items, ls, c, ls' => c = .value (.list ⟨ls.length⟩) ∧ ls' = ls ++ [items]
  | assign _ id p v, ls, c, ls' =>
      let l := ls.getD id.index []
      if 1 ≤ p ∧ p ≤ l.length then
        c = .complete .next ∧ ls' = ls.set id.index (l.set (p - 1).toNat v)
      else if p = l.length + 1 then c = .complete .next ∧ ls' = ls.set id.index (l ++ [v])
      else Refused ls c ls'
  | append _ (.list id :: v :: _), ls, c, ls' =>
      c = .value .nothing ∧ ls' = ls.set id.index (ls.getD id.index [] ++ [v])
  | insert _ (.list id :: p :: v :: _), ls, c, ls' =>
      let l := ls.getD id.index []
      match p.position? (l.length + 1) with
      | some i => c = .value .nothing ∧ ls' = ls.set id.index (l.take i ++ [v] ++ l.drop i)
      | none => Refused ls c ls'
  | remove _ (.list id :: p :: _), ls, c, ls' =>
      let l := ls.getD id.index []
      match p.position? l.length with
      | some i => c = .value .nothing ∧ ls' = ls.set id.index (l.eraseIdx i)
      | none => Refused ls c ls'
  | clone v, ls, c, ls' =>
      ∃ ids : List ListId, ids.Nodup ∧ (∀ j, j ∈ ids ↔ Heap.Reaches ls v j) ∧
        c = .value (v.rename (Heap.copyOf ls.length ids)) ∧
        ls' = ls ++ ids.map fun id =>
          (ls.getD id.index []).map (Value.rename (Heap.copyOf ls.length ids))
  | append _ _, ls, c, ls' | insert _ _, ls, c, ls' | remove _ _, ls, c, ls' => Refused ls c ls'

/-- The operation does what is specified, and leaves the heap tidy. -/
def Correct (op : Operation) (s : Session) : Prop :=
  op.Specified s.lists (op.perform s).machine.control (op.perform s).lists ∧
    (op.perform s).machine.heap.Tidy

variable {s : Session}

lemma correct_literal (ht : s.machine.heap.Tidy) (items : List Value) :
    (literal items).Correct s := by
  refine ⟨⟨?_, ?_⟩, Heap.tidy_alloc ht _⟩
  · simp [perform, Machine.makeList, Heap.alloc, Session.lists]
  · have hnew := Heap.sequences_alloc ht items.reverse.reverse.toArray
    simpa [perform, Machine.makeList, Session.lists] using hnew

lemma correct_assign (ht : s.machine.heap.Tidy) (span : Span) (id : ListId) (p : Int) (v : Value) :
    (assign span id p v).Correct s := by
  have hlength := ht.length_contents id
  unfold Correct Specified Session.lists
  dsimp only
  rw [Heap.getD_sequences, hlength]
  simp only [perform, Machine.writeElement]
  split
  · have hset := Heap.replaced_set ht id (p - 1).toNat v
    exact ⟨⟨rfl, hset.sequences⟩, hset.tidy ht⟩
  · split
    · have hpush := Heap.replaced_push ht id v
      exact ⟨⟨rfl, hpush.sequences⟩, hpush.tidy ht⟩
    · exact ⟨⟨⟨_, rfl⟩, rfl⟩, ht⟩

lemma correct_append (ht : s.machine.heap.Tidy) (site : Span) (args : List Value) :
    (append site args).Correct s := by
  -- without a list, or without a value for it, nothing is done to the heap
  rcases args with - | ⟨a, rest⟩
  · exact ⟨⟨⟨_, rfl⟩, rfl⟩, ht⟩
  · cases a with
    | list id =>
        rcases rest with - | ⟨v, rest⟩
        · exact ⟨⟨⟨_, rfl⟩, rfl⟩, ht⟩
        · have hpush := Heap.replaced_push ht id v
          refine ⟨⟨rfl, ?_⟩, hpush.tidy ht⟩
          simp only [Session.lists]
          rw [Heap.getD_sequences]
          exact hpush.sequences
    | _ => exact ⟨⟨⟨_, rfl⟩, rfl⟩, ht⟩

/-- A host function that asks for the lists goes on with them. -/
lemma conclude_heap (s : Session) (site : Span) (next : Heap → Action Value) (n : Nat) :
    (s.goto (.host site (.ask .heap next))).conclude (n + 1) =
      (s.goto (.host site (next s.machine.heap))).conclude n := rfl

section Positions

variable {site : Span} {id : ListId} {p : Value} {i : Nat} {rest : List Value}

lemma perform_insert_of_none (hp : p.position? (s.machine.heap.length id + 1) = none) :
    perform s (insert site (.list id :: p :: rest)) =
      (s.goto (.host site (Builtins.badPosition "INSERT" s.machine.heap id p))).conclude 3 := by
  refine (conclude_heap s site _ 3).trans ?_
  rw [hp]

lemma perform_insert_nothing (hp : p.position? (s.machine.heap.length id + 1) = some i) :
    perform s (insert site [.list id, p]) = (s.goto (.host site
      (Action.error "INSERT requires something to insert"))).conclude 3 := by
  refine (conclude_heap s site _ 3).trans ?_
  rw [hp]

lemma perform_insert_of_some {v : Value}
    (hp : p.position? (s.machine.heap.length id + 1) = some i) :
    perform s (insert site (.list id :: p :: v :: rest)) = (s.goto (.host site
      (.ask (.insert id i v) fun _ => return .nothing))).conclude 3 := by
  refine (conclude_heap s site _ 3).trans ?_
  rw [hp]

lemma perform_remove_of_none (hp : p.position? (s.machine.heap.length id) = none) :
    perform s (remove site (.list id :: p :: rest)) =
      (s.goto (.host site (Builtins.badPosition "REMOVE" s.machine.heap id p))).conclude 3 := by
  refine (conclude_heap s site _ 3).trans ?_
  rw [hp]

lemma perform_remove_of_some (hp : p.position? (s.machine.heap.length id) = some i) :
    perform s (remove site (.list id :: p :: rest)) = (s.goto (.host site
      (.ask (.erase id i) fun _ => return .nothing))).conclude 3 := by
  refine (conclude_heap s site _ 3).trans ?_
  rw [hp]

end Positions

lemma correct_insert (ht : s.machine.heap.Tidy) (site : Span) (args : List Value) :
    (insert site args).Correct s := by
  rcases args with - | ⟨a, rest⟩
  · exact ⟨⟨⟨_, rfl⟩, rfl⟩, ht⟩
  · cases a with
    | list id =>
        rcases rest with - | ⟨p, rest⟩
        · exact ⟨⟨⟨_, rfl⟩, rfl⟩, ht⟩
        · -- the position is looked at before the value, which may not be there
          have hlength := ht.length_contents id
          cases hp : p.position? (s.machine.heap.length id + 1) with
          | none =>
              rw [Correct, perform_insert_of_none hp]
              cases rest with
              | nil => exact ⟨⟨⟨_, rfl⟩, rfl⟩, ht⟩
              | cons v rest =>
                  simp only [Specified, Session.lists, Heap.getD_sequences, hlength, hp]
                  exact ⟨⟨⟨_, rfl⟩, rfl⟩, ht⟩
          | some i =>
              cases rest with
              | nil =>
                  rw [Correct, perform_insert_nothing hp]
                  exact ⟨⟨⟨_, rfl⟩, rfl⟩, ht⟩
              | cons v rest =>
                  have hi := (Value.position?_eq_some_iff.mp hp).1
                  have hinsert := Heap.replaced_insert ht id (Nat.le_of_lt_succ hi) v
                  rw [Correct, perform_insert_of_some hp]
                  simp only [Specified, Session.lists, Heap.getD_sequences, hlength, hp]
                  exact ⟨⟨rfl, hinsert.sequences⟩, hinsert.tidy ht⟩
    | _ => exact ⟨⟨⟨_, rfl⟩, rfl⟩, ht⟩

lemma correct_remove (ht : s.machine.heap.Tidy) (site : Span) (args : List Value) :
    (remove site args).Correct s := by
  rcases args with - | ⟨a, rest⟩
  · exact ⟨⟨⟨_, rfl⟩, rfl⟩, ht⟩
  · cases a with
    | list id =>
        rcases rest with - | ⟨p, rest⟩
        · exact ⟨⟨⟨_, rfl⟩, rfl⟩, ht⟩
        · have hlength := ht.length_contents id
          cases hp : p.position? (s.machine.heap.length id) with
          | none =>
              rw [Correct, perform_remove_of_none hp]
              simp only [Specified, Session.lists, Heap.getD_sequences, hlength, hp]
              exact ⟨⟨⟨_, rfl⟩, rfl⟩, ht⟩
          | some i =>
              have herase := Heap.replaced_erase ht id (Value.position?_eq_some_iff.mp hp).1
              rw [Correct, perform_remove_of_some hp]
              simp only [Specified, Session.lists, Heap.getD_sequences, hlength, hp]
              exact ⟨⟨rfl, herase.sequences⟩, herase.tidy ht⟩
    | _ => exact ⟨⟨⟨_, rfl⟩, rfl⟩, ht⟩

lemma correct_clone (ht : s.machine.heap.Tidy) (v : Value) : (clone v).Correct s := by
  obtain ⟨hnodup, hmem⟩ := Heap.mem_reachable_iff s.machine.heap v
  refine ⟨⟨s.machine.heap.reachable v, hnodup, hmem, ?_, ?_⟩, Heap.tidy_clone ht v⟩
  · rw [Session.lists, Heap.length_sequences]
    rfl
  · have hcopies := Heap.sequences_clone ht v
    simp only [Session.lists, Heap.getD_sequences, Heap.length_sequences]
    exact hcopies

/-- Every operation does in a tidy heap what is specified for sequences. -/
theorem specified_perform (ht : s.machine.heap.Tidy) (op : Operation) : op.Correct s := by
  cases op with
  | literal items => exact correct_literal ht items
  | assign span id p v => exact correct_assign ht span id p v
  | append site args => exact correct_append ht site args
  | insert site args => exact correct_insert ht site args
  | remove site args => exact correct_remove ht site args
  | clone v => exact correct_clone ht v

/-- The list that an operation changes, unless it makes new ones. -/
def named? : Operation → Option ListId
  | assign _ id _ _ => some id
  | append _ (.list id :: _) | insert _ (.list id :: _) | remove _ (.list id :: _) => some id
  | _ => none

variable {op : Operation} {ls ls' : List (List Value)} {c : Control}

/-- A sequence other than the one named is as it was. -/
lemma Specified.frame (h : op.Specified ls c ls') {j : ListId} (hj : j.index < ls.length)
    (hne : op.named? ≠ some j) : ls'.getD j.index [] = ls.getD j.index [] := by
  have hset : ∀ {id : ListId} {l : List Value}, some id ≠ some j →
      (ls.set id.index l).getD j.index [] = ls.getD j.index [] := by
    intro id l hid
    have hindex : id.index ≠ j.index := by
      rintro heq
      exact hid (congrArg some (by cases id; cases j; cases heq; rfl))
    simp [List.getD_eq_getElem?_getD, List.getElem?_set_ne hindex]
  have hnew : ∀ {new : List (List Value)}, (ls ++ new).getD j.index [] = ls.getD j.index [] := by
    intro new
    simp [List.getD_eq_getElem?_getD, List.getElem?_append_left hj]
  -- the cases are those of the specification, the last three the calls without a list
  unfold Specified at h
  split at h
  · rw [h.2, hnew]
  · dsimp only at h
    split at h
    · rw [h.2, hset hne]
    · split at h
      · rw [h.2, hset hne]
      · rw [h.2]
  · rw [h.2, hset hne]
  · dsimp only at h
    split at h
    · rw [h.2, hset hne]
    · rw [h.2]
  · dsimp only at h
    split at h
    · rw [h.2, hset hne]
    · rw [h.2]
  · obtain ⟨ids, -, -, -, h⟩ := h
    rw [h, hnew]
  · rw [h.2]
  · rw [h.2]
  · rw [h.2]

/-- The sequences are as they were after a failure. -/
lemma Specified.of_fail {e : Failure} (h : op.Specified ls (.fail e) ls') : ls' = ls := by
  unfold Specified at h
  split at h
  · cases h.1
  · dsimp only at h
    split at h
    · cases h.1
    · split at h
      · cases h.1
      · exact h.2
  · cases h.1
  · dsimp only at h
    split at h
    · cases h.1
    · exact h.2
  · dsimp only at h
    split at h
    · cases h.1
    · exact h.2
  · obtain ⟨ids, -, -, h, -⟩ := h
    cases h
  · exact h.2
  · exact h.2
  · exact h.2

/-- What has been inserted can be removed from its place, and then nothing has happened. -/
lemma Specified.restored {site site' : Span} {id : ListId} {p v : Value} {c' : Control}
    {ls'' : List (List Value)} {i : Nat}
    (hinsert : (insert site [.list id, p, v]).Specified ls c ls')
    (hremove : (remove site' [.list id, p]).Specified ls' c' ls'') (hid : id.index < ls.length)
    (hp : p.position? ((ls.getD id.index []).length + 1) = some i) :
    ls'.getD id.index [] =
        (ls.getD id.index []).take i ++ [v] ++ (ls.getD id.index []).drop i ∧ ls'' = ls := by
  have hi := Nat.le_of_lt_succ (Value.position?_eq_some_iff.mp hp).1
  simp only [Specified, hp] at hinsert
  generalize hl : ls.getD id.index [] = l at hinsert hp hi ⊢
  generalize hl' : l.take i ++ [v] ++ l.drop i = l' at hinsert ⊢
  obtain ⟨-, rfl⟩ := hinsert
  have hget : (ls.set id.index l').getD id.index [] = l' := by
    simp [List.getD_eq_getElem?_getD, hid]
  have hlength : l'.length = l.length + 1 := by
    simp [← hl']
    omega
  -- one element more makes the same values positions for the removal as for the insertion
  have herase : l'.eraseIdx i = l := by
    rw [← hl', List.append_assoc, List.eraseIdx_append_of_length_le (by simp)]
    simp [Nat.min_eq_left hi]
  simp only [Specified, hget, hlength, hp, herase] at hremove
  refine ⟨hget, ?_⟩
  rw [hremove.2, List.set_set, ← hl]
  simp [List.getD_eq_getElem?_getD, hid]

end Operation

/-! ### Sequences of operations -/

/-- What operations on sequences have as their results, one after another, and what the sequences
are after them. -/
inductive Follows :
    List (List Value) → List Operation → List Control → List (List Value) → Prop where
  | nil (ls : List (List Value)) : Follows ls [] [] ls
  | cons {op : Operation} {ops : List Operation} {c : Control} {cs : List Control}
      {ls ls' ls'' : List (List Value)} (first : op.Specified ls c ls')
      (rest : Follows ls' ops cs ls'') : Follows ls (op :: ops) (c :: cs) ls''

/-! ### The life of a session -/

namespace Heap

variable {h h' : Heap}

lemma Change.tidy (hc : Change h h') (ht : h.Tidy) : h'.Tidy := by
  cases hc with
  | alloc vs => exact tidy_alloc ht vs
  | set id i v => exact (replaced_set ht id i v).tidy ht
  | push id v => exact (replaced_push ht id v).tidy ht
  | insert id i v => exact tidy_insert ht id i v
  | erase id i => exact tidy_erase ht id i

lemma Changes.tidy (hc : Changes h h') (ht : h.Tidy) : h'.Tidy :=
  hc.keep Change.tidy ht

end Heap

namespace Session

variable {s : Session}

/-- Performs operations one after another, and collects their results. -/
def performAll : Session → List Operation → List Control × Session
  | s, [] => ([], s)
  | s, op :: ops =>
      let (results, t) := performAll (op.perform s) ops
      ((op.perform s).machine.control :: results, t)

/-- The host performs an operation on its own account: a run that is going on does not notice it
but by the lists. -/
def hosted (s : Session) (op : Operation) : Session :=
  { s with machine := { s.machine with heap := (op.perform s).machine.heap } }

/-- What sessions can come to.  One is set up; then runs begin and follow any schedule, with
whatever functions, variables and limits, and at any moment the host may make and change lists. -/
inductive Lived : Session → Prop where
  | new (o : Settings) : Lived (.new o)
  | launch {s t : Session} {program : Program} {l : Launch} (hs : Lived s)
      (h : s.launch program l = .ok t) : Lived t
  | happen {s : Session} (hs : Lived s) (e : Event) : Lived (s.happen e)
  | hosted {s : Session} (hs : Lived s) (op : Operation) : Lived (s.hosted op)

/-- No two lists ever share cells. -/
theorem Lived.tidy (hs : s.Lived) : s.machine.heap.Tidy := by
  induction hs with
  | new o => exact Heap.tidy_empty o.slack
  | launch _ h ih => exact (changes_launch _ h).tidy ih
  | happen _ e ih => exact (changes_happen _ e).tidy ih
  | hosted _ op ih => exact (Operation.specified_perform ih op).2

/-- Operations one after another do what is specified for sequences. -/
lemma follows_performAll (ht : s.machine.heap.Tidy) (ops : List Operation) :
    Follows s.lists ops (s.performAll ops).1 (s.performAll ops).2.lists ∧
      (s.performAll ops).2.machine.heap.Tidy := by
  induction ops generalizing s with
  | nil => exact ⟨.nil s.lists, ht⟩
  | cons op ops ih =>
      obtain ⟨hfirst, ht'⟩ := Operation.specified_perform ht op
      obtain ⟨hrest, htidy⟩ := ih ht'
      exact ⟨.cons hfirst hrest, htidy⟩

/-- **Lists are sequences.**

* Whatever a session has come to, no two of its lists share cells, and every list has the cells that
  it needs.
* Take any session of whose lists this is true, whatever cells they have to spare and whichever
  of them hold each other or themselves.  The length of a list is the number of its elements, and
  what is read at a position is the element there.
* Whatever operations are then performed on whatever lists, all lists have the elements that the
  same operations on sequences give, the results are those of the operations on sequences, and still
  no lists share cells.
* An operation changes no list but the one that it names, and none if it fails.
* A value that is inserted at a position, counted from one, is put before the elements from there
  on; when the element at that position is removed again, all lists are as they were. -/
theorem lists_are_sequences :
    (∀ s : Session, s.Lived → s.machine.heap.Tidy) ∧
    ∀ s : Session, s.machine.heap.Tidy →
      (∀ id, s.machine.heap.length id = (s.machine.heap.contents id).length ∧
        ∀ i, s.machine.heap.get? id i = (s.machine.heap.contents id)[i]?) ∧
      (∀ ops, Follows s.lists ops (s.performAll ops).1 (s.performAll ops).2.lists ∧
        (s.performAll ops).2.machine.heap.Tidy) ∧
      (∀ op : Operation,
        (∀ id : ListId, id.index < s.lists.length → op.named? ≠ some id →
          (op.perform s).machine.heap.contents id = s.machine.heap.contents id) ∧
        ∀ e, (op.perform s).machine.control = .fail e → (op.perform s).lists = s.lists) ∧
      ∀ (site site' : Span) (id : ListId) (p v : Value) (k : Nat), id.index < s.lists.length →
        p.ReadsAs k → 1 ≤ k → k ≤ (s.machine.heap.contents id).length + 1 →
        let l := s.machine.heap.contents id
        let t := (Operation.insert site [.list id, p, v]).perform s
        t.machine.heap.contents id = l.take (k - 1) ++ [v] ++ l.drop (k - 1) ∧
          ((Operation.remove site' [.list id, p]).perform t).lists = s.lists := by
  refine ⟨fun s hs => hs.tidy, fun s ht => ⟨fun id => ⟨(ht.length_contents id).symm,
    s.machine.heap.get?_eq id⟩, follows_performAll ht, fun op => ⟨fun id hid hne => ?_,
    fun e he => ?_⟩, fun site site' id p v k hid hk hone hle => ?_⟩⟩
  · obtain ⟨hspecified, -⟩ := Operation.specified_perform ht op
    simpa only [lists, Heap.getD_sequences] using hspecified.frame hid hne
  · obtain ⟨hspecified, -⟩ := Operation.specified_perform ht op
    rw [he] at hspecified
    exact hspecified.of_fail
  · obtain ⟨hinsert, ht'⟩ := Operation.specified_perform ht (.insert site [.list id, p, v])
    obtain ⟨hremove, -⟩ := Operation.specified_perform ht' (.remove site' [.list id, p])
    have hp : p.position? ((s.machine.heap.contents id).length + 1) = some (k - 1) :=
      Value.position?_eq_some_iff.mpr ⟨by omega, by rwa [Nat.sub_add_cancel hone]⟩
    have hrestored := hinsert.restored hremove hid (by rwa [lists, Heap.getD_sequences])
    simpa only [lists, Heap.getD_sequences] using hrestored

/-- Three lists of the host: the first one holds itself and has a cell to spare, the second one
holds the first one twice, and the third one is empty. -/
def woven : Session :=
  [.literal [], .append .none [.list ⟨0⟩, .text "a"], .append .none [.list ⟨0⟩, .text "b"],
    .append .none [.list ⟨0⟩, .list ⟨0⟩], .literal [.list ⟨0⟩, .list ⟨0⟩], .literal []].foldl
    hosted (.new {})

/-- Inserting into the first list, copying the second one, removing from the copy, an assignment
that fails, and one that extends the third list. -/
def weaving : List Operation :=
  [.insert .none [.list ⟨0⟩, .number 1, .text "c"], .clone (.list ⟨1⟩),
    .remove .none [.list ⟨3⟩, .number 2], .assign .none ⟨1⟩ 4 .nothing,
    .assign .none ⟨2⟩ 1 (.list ⟨1⟩)]

/-- The lists after these operations, and after an insertion at the second place of the first list
that is taken back. -/
theorem lists_are_sequences_woven :
    woven.Lived ∧ woven.machine.heap.Tidy ∧
    (woven.machine.heap.cells 3).size = 4 ∧ woven.machine.heap.length ⟨0⟩ = 3 ∧
    woven.lists = [[.text "a", .text "b", .list ⟨0⟩], [.list ⟨0⟩, .list ⟨0⟩], []] ∧
    Follows woven.lists weaving (woven.performAll weaving).1
      [[.text "c", .text "a", .text "b", .list ⟨0⟩], [.list ⟨0⟩, .list ⟨0⟩], [.list ⟨1⟩],
        [.list ⟨4⟩], [.text "c", .text "a", .text "b", .list ⟨4⟩]] ∧
    ((Operation.remove .none [.list ⟨0⟩, .number 2]).perform
      ((Operation.insert .none [.list ⟨0⟩, .number 2, .list ⟨1⟩]).perform woven)).lists =
        woven.lists := by
  have hlived : woven.Lived := .hosted (.hosted (.hosted (.hosted (.hosted (.hosted (.new {})
    _) _) _) _) _) _
  obtain ⟨htidy, hsequences⟩ := lists_are_sequences
  have ht := htidy woven hlived
  obtain ⟨-, hfollows, -, hrestored⟩ := hsequences woven ht
  exact ⟨hlived, ht, rfl, rfl, rfl, (hfollows weaving).1,
    (hrestored .none .none ⟨0⟩ (.number 2) (.list ⟨1⟩) 2 (by decide) ⟨_, _, _, rfl, rfl⟩ (by decide)
      (by decide)).2⟩

end Session

end Pseudocode
