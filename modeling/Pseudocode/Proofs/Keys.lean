/-
# The names in a table

A name may be given only once: a header or a key that is there already is refused, and what is not
refused sets a new field or changes a table in its place.  So the fields of a table have distinct
names, and the same holds of the tables inside it, however deep.

The nesting of tables has no bound, so that the names are distinct is said up to a depth.  A table
that is changed at the end of a path is distinct up to a depth if it was so before, because the
tables on the way are distinct up to one less with every name of the path.

The main result is `Table.ofText_distinct`: the names in what a document describes are distinct.
-/
import Mathlib.Tactic.Lemma
import Mathlib.Data.List.Nodup
import Pseudocode.Toml.Table

namespace Pseudocode.Toml

lemma exists_of_bind_ok {ε α β : Type} {x : Except ε α} {f : α → Except ε β} {b : β}
    (h : x >>= f = .ok b) : ∃ a, x = .ok a ∧ f a = .ok b := by
  cases x with
  | error e => exact absurd h (by simp [bind, Except.bind])
  | ok a => exact ⟨a, rfl, h⟩

/-- The tables that a field holds. -/
inductive Field.Holds : Field → Table → Prop
  | table {t : Table} : Holds (.table t) t
  | first {t : Table} {others : List Table} : Holds (.tables t others) t
  | other {first t : Table} {others : List Table} (h : t ∈ others) : Holds (.tables first others) t

namespace Table

/-- The names in a table are distinct, and so are those in the tables inside, down to a depth. -/
def DistinctTo : (depth : Nat) → Table → Prop
  | 0, _ => True
  | depth + 1, t =>
      (t.fields.map Prod.fst).Nodup ∧ ∀ e ∈ t.fields, ∀ u, e.2.Holds u → u.DistinctTo depth

/-- The names in a table and in all tables inside are distinct. -/
def Distinct (t : Table) : Prop := ∀ depth, t.DistinctTo depth

variable {t u : Table} {depth line : Nat} {name : String} {f : Field}

lemma distinct_empty (line : Nat) (headed : Bool) : (of line headed []).Distinct := by
  intro depth
  cases depth with
  | zero => trivial
  | succ depth => exact ⟨List.nodup_nil, fun e he => absurd he (by simp [fields])⟩

lemma mem_fields_of_get? (h : t.get? name = some f) : (name, f) ∈ t.fields := by
  obtain ⟨l₁, l₂, e, -⟩ := List.lookup_eq_some_iff.1 h
  rw [e]
  simp

lemma DistinctTo.of_get? (ht : t.DistinctTo (depth + 1)) (h : t.get? name = some f)
    (hu : f.Holds u) : u.DistinctTo depth := ht.2 _ (mem_fields_of_get? h) u hu

/-- A field that holds distinct tables may be set, under an old name or a new one. -/
lemma DistinctTo.insert (ht : t.DistinctTo (depth + 1))
    (hf : ∀ u, f.Holds u → u.DistinctTo depth) : (t.insert name f).DistinctTo (depth + 1) := by
  rw [Table.insert]
  split
  · -- an old name stays where it is
    have hnames : (t.fields.map fun e => if e.1 == name then (name, f) else e).map Prod.fst
        = t.fields.map Prod.fst := by
      rw [List.map_map]
      refine List.map_congr_left fun e _ => ?_
      by_cases he : e.1 = name <;> simp [he]
    refine ⟨by rw [fields, hnames]; exact ht.1, fun e he u hu => ?_⟩
    obtain ⟨e', he', rfl⟩ := List.mem_map.1 he
    by_cases hname : e'.1 = name
    · exact hf u (by simpa [hname] using hu)
    · exact ht.2 e' he' u (by simpa [hname] using hu)
  · rename_i hnone
    have hfresh : ∀ e ∈ t.fields, e.1 ≠ name := by
      intro e he hn
      have h : t.get? name = none := by simpa using hnone
      exact absurd (List.lookup_eq_none_iff.1 h e he) (by simp [hn])
    refine ⟨?_, fun e he u hu => ?_⟩
    · rw [fields, List.map_append, List.map_singleton]
      refine List.nodup_append.2 ⟨ht.1, List.nodup_singleton _, fun x hx y hy => ?_⟩
      obtain ⟨e, he, rfl⟩ := List.mem_map.1 hx
      rw [List.mem_singleton.1 hy]
      exact hfresh e he
    · rcases List.mem_append.1 he with he | he
      · exact ht.2 e he u hu
      · obtain rfl := List.mem_singleton.1 he
        exact hf u hu

/-- A change of a table that keeps its names distinct. -/
def Preserving (change : Table → Except Error Table) : Prop :=
  ∀ depth t t', t.DistinctTo depth → change t = .ok t' → t'.DistinctTo depth

/-- To show that a change keeps the names distinct, depth zero need not be looked at. -/
lemma preserving_of_succ {change : Table → Except Error Table}
    (h : ∀ depth t t', t.DistinctTo (depth + 1) → change t = .ok t' → t'.DistinctTo (depth + 1)) :
    Preserving change := by
  intro depth
  cases depth with
  | zero => exact fun _ _ _ _ => trivial
  | succ depth => exact h depth

lemma preserving_setValue (name : String) (v : Value) (line : Nat) :
    Preserving (setValue name v line) := by
  refine preserving_of_succ fun depth t t' ht e => ?_
  rw [setValue] at e
  split at e
  · obtain rfl := Except.ok.inj e
    exact ht.insert fun u hu => nomatch hu
  · exact nomatch e

lemma preserving_openTable (headed : Bool) (written name : String) (line : Nat) :
    Preserving (openTable headed written name line) := by
  refine preserving_of_succ fun depth t t' ht e => ?_
  rw [openTable] at e
  split at e
  · obtain rfl := Except.ok.inj e
    exact ht.insert fun u hu => by cases hu; exact distinct_empty _ _ _
  · rename_i u hu
    split at e
    · exact nomatch e
    · obtain rfl := Except.ok.inj e
      refine ht.insert fun u' hu' => ?_
      cases hu'
      have hd := ht.of_get? hu .table
      cases depth with
      | zero => trivial
      | succ depth => exact ⟨hd.1, hd.2⟩
  · exact nomatch e

lemma preserving_openRepeated (headed : Bool) (written name : String) (line : Nat) :
    Preserving (openRepeated headed written name line) := by
  refine preserving_of_succ fun depth t t' ht e => ?_
  rw [openRepeated] at e
  split at e
  · obtain rfl := Except.ok.inj e
    refine ht.insert fun u hu => ?_
    cases hu with
    | first => exact distinct_empty _ _ _
    | other h => exact absurd h (by simp)
  · rename_i first others hfield
    obtain rfl := Except.ok.inj e
    refine ht.insert fun u hu => ?_
    cases hu with
    | first => exact ht.of_get? hfield .first
    | other h =>
        rcases List.mem_append.1 h with h | h
        · exact ht.of_get? hfield (.other h)
        · obtain rfl := List.mem_singleton.1 h
          exact distinct_empty _ _ _
  · exact nomatch e

/-- What keeps the names of a table distinct may be done at the end of a path. -/
lemma Preserving.updateAt {change : Table → Except Error Table} (h : Preserving change)
    (line : Nat) : ∀ path : List String, Preserving (updateAt line change path) := by
  intro path
  induction path with
  | nil => exact h
  | cons name path ih =>
      refine preserving_of_succ fun depth t t' ht e => ?_
      rw [Table.updateAt] at e
      split at e
      · obtain ⟨u, hu, e⟩ := exists_of_bind_ok e
        obtain rfl := Except.ok.inj e
        exact ht.insert fun u' hu' => by
          cases hu'
          exact ih depth _ _ (distinct_empty _ _ _) hu
      · rename_i u hfield
        obtain ⟨u', hu', e⟩ := exists_of_bind_ok e
        obtain rfl := Except.ok.inj e
        exact ht.insert fun u'' hu'' => by
          cases hu''
          exact ih depth _ _ (ht.of_get? hfield .table) hu'
      · rename_i first others hfield
        split at e
        · obtain ⟨u', hu', e⟩ := exists_of_bind_ok e
          obtain rfl := Except.ok.inj e
          refine ht.insert fun u hu => ?_
          cases hu with
          | first => exact ih depth _ _ (ht.of_get? hfield .first) hu'
          | other h => exact absurd h (by simp)
        · rename_i last hlast
          obtain ⟨u', hu', e⟩ := exists_of_bind_ok e
          obtain rfl := Except.ok.inj e
          refine ht.insert fun u hu => ?_
          cases hu with
          | first => exact ht.of_get? hfield .first
          | other h =>
              rcases List.mem_append.1 h with h | h
              · exact ht.of_get? hfield (.other (List.dropLast_subset _ h))
              · obtain rfl := List.mem_singleton.1 h
                exact ih depth _ _ (ht.of_get? hfield (.other (List.mem_of_getLast? hlast))) hu'
      · exact nomatch e

lemma Distinct.updateAt {change : Table → Except Error Table} (ht : t.Distinct)
    (h : Preserving change) {path : List String} (e : t.updateAt line change path = .ok u) :
    u.Distinct := fun depth => h.updateAt line path depth _ _ (ht depth) e

end Table

/-! ### Values that are tables -/

mutual

lemma Value.build_distinct (v : Value) {repeated : Bool} {path : List String} {name : String}
    {root root' : Table} (h : root.Distinct) (e : v.build repeated path name root = .ok root') :
    root'.Distinct := by
  match v with
  | .text none line =>
      rw [Value.build] at e
      exact nomatch e
  | .array items =>
      rw [Value.build] at e
      exact buildItems_distinct items h e
  | .inline line entries =>
      rw [Value.build] at e
      obtain ⟨root₁, e₁, e⟩ := exists_of_bind_ok e
      refine buildEntries_distinct entries (h.updateAt ?_ e₁) e
      split
      · exact Table.preserving_openRepeated _ _ _ _
      · exact Table.preserving_openTable _ _ _ _
  | .integer _ | .float _ | .text (some _) _ | .bool _ | .datetime _ =>
      simp only [Value.build] at e
      obtain rfl := Except.ok.inj e
      exact h
termination_by sizeOf v

lemma buildItems_distinct (items : List Value) {path : List String} {name : String}
    {root root' : Table} (h : root.Distinct) (e : buildItems items path name root = .ok root') :
    root'.Distinct := by
  match items with
  | [] =>
      rw [buildItems] at e
      obtain rfl := Except.ok.inj e
      exact h
  | v :: rest =>
      rw [buildItems] at e
      obtain ⟨root₁, e₁, e⟩ := exists_of_bind_ok e
      exact buildItems_distinct rest (Value.build_distinct v h e₁) e
termination_by sizeOf items

lemma Entry.build_distinct (entry : Entry) {repeated : Bool} {path : List String}
    {root root' : Table} (h : root.Distinct) (e : entry.build repeated path root = .ok root') :
    root'.Distinct := by
  match entry with
  | .of none keyLine v line =>
      rw [Entry.build] at e
      exact nomatch e
  | .of (some name) keyLine v line =>
      rw [Entry.build] at e
      obtain ⟨root₁, e₁, e⟩ := exists_of_bind_ok e
      have h₁ := Value.build_distinct v h e₁
      split at e
      · obtain rfl := Except.ok.inj e
        exact h₁
      · exact h₁.updateAt (Table.preserving_setValue _ _ _) e
termination_by sizeOf entry

lemma buildEntries_distinct (entries : List Entry) {repeated : Bool} {path : List String}
    {root root' : Table} (h : root.Distinct)
    (e : buildEntries entries repeated path root = .ok root') : root'.Distinct := by
  match entries with
  | [] =>
      rw [buildEntries] at e
      obtain rfl := Except.ok.inj e
      exact h
  | entry :: rest =>
      rw [buildEntries] at e
      obtain ⟨root₁, e₁, e⟩ := exists_of_bind_ok e
      exact buildEntries_distinct rest (Entry.build_distinct entry h e₁) e
termination_by sizeOf entries

end

lemma runStatements_distinct :
    ∀ (ss : List Statement) {path : List String} {root root' : Table}, root.Distinct →
      runStatements ss path root = .ok root' → root'.Distinct := by
  intro ss
  induction ss with
  | nil =>
      intro path root root' h e
      obtain rfl := Except.ok.inj e
      exact h
  | cons s ss ih =>
      intro path root root' h e
      cases s with
      | entry entry =>
          rw [runStatements] at e
          obtain ⟨root₁, e₁, e⟩ := exists_of_bind_ok e
          exact ih (entry.build_distinct h e₁) e
      | header repeated keys written line =>
          rw [runStatements] at e
          split at e
          · exact nomatch e
          · obtain ⟨root₁, e₁, e⟩ := exists_of_bind_ok e
            refine ih (h.updateAt ?_ e₁) e
            split
            · exact Table.preserving_openRepeated _ _ _ _
            · exact Table.preserving_openTable _ _ _ _

/-- The names in the tables that a document describes are distinct. -/
theorem Table.ofText_distinct {text : String} {t : Table} (h : Table.ofText text = .ok t) :
    t.Distinct := by
  obtain ⟨ss, -, e⟩ := exists_of_bind_ok h
  exact runStatements_distinct ss (Table.distinct_empty _ _) e

end Pseudocode.Toml
