/-
# The words of an editor

The words that an editor offers are collected from the plugins once, and the functions and variables
of a run are filled from them another time.  The words are sorted, and it does not matter which
plugin they come from; for a run the plugins are taken in order, and the last one that provides a
name decides what it stands for.  Both come to the same names.

The main results are

* `Bindings.get?_insertAll`: of entries that are bound in order, the last one with a name counts;
* `Plugin.bound_addVars`: a variable of the global frame is a copy of what the last plugin provides;
* `Registry.get?_declareAll`: the procedures of a program take the place of exactly the functions
  that have their names;
* `Keyword.ofPlugins_agrees`: what has been said above.
-/
import Mathlib.Data.List.Sort
import Mathlib.Data.String.Basic
import Pseudocode.Proofs.Assignments
import Pseudocode.Proofs.Duplicates
import Pseudocode.Proofs.Schedule

namespace Pseudocode

/-! ### Entries that are bound in order -/

namespace Bindings

variable {α : Type} {b : Bindings α} {entries : List (String × α)} {name : String} {v : α}

/-- The last of the entries with the name has the value. -/
def LastOf (entries : List (String × α)) (name : String) (v : α) : Prop :=
  ∃ before after, entries = before ++ (name, v) :: after ∧ name ∉ after.map (·.1)

/-- The names of the bindings are in ascending order, each once. -/
def Ascending (b : Bindings α) : Prop := b.names.Pairwise (· < ·)

lemma isSome_find?_iff {l : List (String × α)} : (find? name l).isSome ↔ name ∈ l.map (·.1) := by
  induction l with
  | nil => simp [find?]
  | cons e l ih =>
      obtain ⟨n, w⟩ := e
      by_cases hn : n = name
      · simp [find?, hn]
      · have hname : name ≠ n := fun h => hn h.symm
        simp [find?, hn, hname, ih]

lemma mem_names_iff : name ∈ b.names ↔ (b.get? name).isSome := isSome_find?_iff.symm

lemma mem_names_insert {x : String} : x ∈ (b.insert name v).names ↔ x = name ∨ x ∈ b.names := by
  rw [mem_names_iff, mem_names_iff, get?_insert]
  by_cases hx : name = x
  · simp [hx]
  · have hne : x ≠ name := fun h => hx h.symm
    simp [hx, hne]

lemma ascending_empty : (empty : Bindings α).Ascending := .nil

lemma Ascending.insert (h : b.Ascending) (name : String) (v : α) : (b.insert name v).Ascending := by
  obtain ⟨l⟩ := b
  show ((place name v l).map (·.1)).Pairwise (· < ·)
  induction l with
  | nil => simp [place]
  | cons e l ih =>
      obtain ⟨n, w⟩ := e
      obtain ⟨hfirst, hrest⟩ := List.pairwise_cons.mp h
      simp only [place]
      split
      · rename_i heq
        subst heq
        exact List.pairwise_cons.mpr ⟨hfirst, hrest⟩
      · split
        · rename_i hlt
          refine List.pairwise_cons.mpr ⟨fun x hx => ?_, List.pairwise_cons.mpr ⟨hfirst, hrest⟩⟩
          rcases List.mem_cons.mp hx with rfl | hx
          · exact hlt
          · exact hlt.trans (hfirst x hx)
        · rename_i hne hnlt
          refine List.pairwise_cons.mpr ⟨fun x hx => ?_, ih hrest⟩
          -- what comes later are the names that came later and the new one
          have hmem := (mem_names_insert (b := ⟨l⟩) (v := v)).mp hx
          rcases hmem with rfl | hx
          · exact lt_of_le_of_ne (not_lt.mp hnlt) fun heq => hne heq.symm
          · exact hfirst x hx

lemma insertAll_cons (e : String × α) :
    b.insertAll (e :: entries) = (b.insert e.1 e.2).insertAll entries := rfl

lemma Ascending.insertAll (h : b.Ascending) (entries : List (String × α)) :
    (b.insertAll entries).Ascending := by
  induction entries generalizing b with
  | nil => exact h
  | cons e entries ih =>
      rw [insertAll_cons]
      exact ih (h.insert e.1 e.2)

lemma insertAll_append (entries' : List (String × α)) :
    b.insertAll (entries ++ entries') = (b.insertAll entries).insertAll entries' :=
  List.foldl_append ..

/-- A name that no entry has keeps what it is bound to. -/
lemma get?_insertAll_of_not_mem (h : name ∉ entries.map (·.1)) :
    (b.insertAll entries).get? name = b.get? name := by
  induction entries generalizing b with
  | nil => rfl
  | cons e entries ih =>
      rw [List.map_cons, List.mem_cons, not_or] at h
      rw [insertAll_cons, ih h.2, get?_insert, if_neg fun heq => h.1 heq.symm]

/-- The last entry with a name counts. -/
lemma get?_insertAll (h : LastOf entries name v) : (b.insertAll entries).get? name = some v := by
  obtain ⟨before, after, rfl, hafter⟩ := h
  rw [insertAll_append, insertAll_cons, get?_insertAll_of_not_mem hafter, get?_insert, if_pos rfl]

lemma LastOf.unique {w : α} (h : LastOf entries name v) (h' : LastOf entries name w) : w = v :=
  Option.some.inj ((get?_insertAll (b := empty) h').symm.trans (get?_insertAll h))

/-- Of the entries with a name there is a last one. -/
lemma exists_lastOf (h : name ∈ entries.map (·.1)) : ∃ v, LastOf entries name v := by
  induction entries with
  | nil => simp at h
  | cons e entries ih =>
      by_cases hrest : name ∈ entries.map (·.1)
      · obtain ⟨v, before, after, rfl, hafter⟩ := ih hrest
        exact ⟨v, e :: before, after, rfl, hafter⟩
      · have hname : name = e.1 := by simpa [hrest] using h
        exact ⟨e.2, [], entries, by simp [hname], hrest⟩

lemma LastOf.mem (h : LastOf entries name v) : (name, v) ∈ entries := by
  obtain ⟨before, after, rfl, -⟩ := h
  simp

/-- The names after binding entries are those of the entries and those that there were. -/
lemma mem_names_insertAll :
    name ∈ (b.insertAll entries).names ↔ name ∈ entries.map (·.1) ∨ name ∈ b.names := by
  rw [mem_names_iff, mem_names_iff]
  by_cases h : name ∈ entries.map (·.1)
  · obtain ⟨v, hv⟩ := exists_lastOf h
    simp [get?_insertAll hv, h]
  · rw [get?_insertAll_of_not_mem h]
    simp [h]

end Bindings

/-! ### What plugins provide -/

namespace Plugin

open Bindings (LastOf)

variable {α : Type} {entries : Plugin → List (String × α)} {plugins : List Plugin} {name : String}
  {x : α}

/-- The last plugin that provides anything under the name provides this. -/
def LastProvides (entries : Plugin → List (String × α)) (plugins : List Plugin) (name : String)
    (x : α) : Prop :=
  ∃ earlier p later, plugins = earlier ++ p :: later ∧ LastOf (entries p) name x ∧
    ∀ q ∈ later, name ∉ (entries q).map (·.1)

/-- The entry of the last plugin with a name is the last one of all plugins together. -/
lemma LastProvides.lastOf (h : LastProvides entries plugins name x) :
    LastOf (plugins.flatMap entries) name x := by
  obtain ⟨earlier, p, later, rfl, ⟨before, after, hp, hafter⟩, hlater⟩ := h
  refine ⟨earlier.flatMap entries ++ before, after ++ later.flatMap entries, ?_, fun hmem => ?_⟩
  · simp [hp]
  · rw [List.map_append, List.mem_append] at hmem
    rcases hmem with hmem | hmem
    · exact hafter hmem
    · obtain ⟨e, he, rfl⟩ := List.mem_map.mp hmem
      obtain ⟨q, hq, he⟩ := List.mem_flatMap.mp he
      exact hlater q hq (List.mem_map_of_mem he)

/-- Of the plugins that provide a name there is a last one. -/
lemma exists_lastProvides (h : name ∈ (plugins.flatMap entries).map (·.1)) :
    ∃ x, LastProvides entries plugins name x := by
  induction plugins with
  | nil => simp at h
  | cons p plugins ih =>
      rw [List.flatMap_cons, List.map_append, List.mem_append] at h
      by_cases hrest : name ∈ (plugins.flatMap entries).map (·.1)
      · obtain ⟨x, earlier, q, later, rfl, hq, hlater⟩ := ih hrest
        exact ⟨x, p :: earlier, q, later, rfl, hq, hlater⟩
      · obtain ⟨x, hx⟩ := Bindings.exists_lastOf (h.resolve_right hrest)
        refine ⟨x, [], p, plugins, rfl, hx, fun q hq hmem => hrest ?_⟩
        obtain ⟨e, he, rfl⟩ := List.mem_map.mp hmem
        exact List.mem_map_of_mem (List.mem_flatMap.mpr ⟨q, hq, he⟩)

/-! ### Functions -/

/-- The functions of a plugin as they are added. -/
def hosted (p : Plugin) : List (String × Function) :=
  p.functions.map fun (n, f) => (n, .host (-1) f)

@[simp] lemma map_fst_hosted (p : Plugin) : p.hosted.map (·.1) = p.functions.map (·.1) := by
  simp [hosted]

lemma addFunctions_eq (plugins : List Plugin) (r : Registry) :
    addFunctions plugins r = Bindings.insertAll r (plugins.flatMap hosted) := by
  unfold addFunctions Bindings.insertAll
  rw [List.foldl_flatMap]
  rfl

lemma LastProvides.hosted {f : Native} (h : LastProvides Plugin.functions plugins name f) :
    LastProvides Plugin.hosted plugins name (.host (-1) f) := by
  obtain ⟨earlier, p, later, rfl, ⟨before, after, hp, hafter⟩, hlater⟩ := h
  refine ⟨earlier, p, later, rfl, ?_, fun q hq => ?_⟩
  · refine ⟨before.map fun (n, f) => (n, .host (-1) f), after.map fun (n, f) => (n, .host (-1) f),
      by simp [Plugin.hosted, hp], ?_⟩
    rw [List.map_map]
    exact hafter
  · rw [map_fst_hosted]
    exact hlater q hq

/-- A function is what the last plugin that has one of this name provides. -/
theorem get?_addFunctions (plugins : List Plugin) (name : String) :
    (∃ f, LastProvides Plugin.functions plugins name f ∧
      Bindings.get? (addFunctions plugins {}) name = some (.host (-1) f)) ∨
    (∀ p ∈ plugins, name ∉ p.functions.map (·.1)) ∧
      Bindings.get? (addFunctions plugins {}) name = none := by
  rw [addFunctions_eq]
  by_cases hmem : name ∈ (plugins.flatMap Plugin.functions).map (·.1)
  · obtain ⟨f, hf⟩ := exists_lastProvides hmem
    exact .inl ⟨f, hf, Bindings.get?_insertAll hf.hosted.lastOf⟩
  · have hnone : ∀ p ∈ plugins, name ∉ p.functions.map (·.1) := by
      intro p hp hname
      obtain ⟨e, he, rfl⟩ := List.mem_map.mp hname
      exact hmem (List.mem_map_of_mem (List.mem_flatMap.mpr ⟨p, hp, he⟩))
    refine .inr ⟨hnone, Bindings.get?_insertAll_of_not_mem fun hname => ?_⟩
    obtain ⟨e, he, rfl⟩ := List.mem_map.mp hname
    obtain ⟨p, hp, he⟩ := List.mem_flatMap.mp he
    have hfunction := List.mem_map_of_mem (f := (·.1)) he
    rw [map_fst_hosted] at hfunction
    exact hnone p hp hfunction

end Plugin

/-! ### Variables -/

namespace Heap

variable {h h' h'' : Heap} {v w : Value}

/-- The value `v` has the shape of `w`, and all its lists were made between the two heaps. -/
def IsCopy (h : Heap) (w : Value) (h' : Heap) (v : Value) : Prop :=
  ∃ f, v = w.rename f ∧ h.Renamed h' w f ∧ ∀ i, Reaches h.sequences w i → New h h' (f i)

/-- A copy that is made after the heap has grown is one of what there was at first. -/
lemma isCopy_clone (hw : h.WellFormed) (hknown : h.Knows w) (hg : Grown h h') :
    h.IsCopy w (h'.clone w).2 (h'.clone w).1 := by
  have hsame : ∀ i, Reaches h.sequences w i → h'.contents i = h.contents i := fun i hi =>
    hg.kept.contents hw (hw.reaches hknown hi)
  have hreach : ∀ {i}, Reaches h.sequences w i → Reaches h'.sequences w i := fun hi =>
    (reaches_congr hsame).mpr hi
  obtain ⟨hname, hrenamed⟩ := renamed_clone h' w
  refine ⟨h'.named w, hname, ⟨fun i hi j hj => ?_, fun i hi => ?_⟩, fun i hi => ?_⟩
  · exact hrenamed.inj i (hreach hi) j (hreach hj)
  · rw [hrenamed.contents i (hreach hi), hsame i hi]
  · have hnew := (new_clone_iff h' w _).mpr ⟨i, hreach hi, rfl⟩
    exact ⟨hg.kept.size_lists_le.trans hnew.1, hnew.2⟩

/-- A copy remains one when the heap grows further. -/
lemma IsCopy.grown (hc : h.IsCopy w h' v) (hw : h'.WellFormed) (hg : Grown h' h'') :
    h.IsCopy w h'' v := by
  obtain ⟨f, hv, hrenamed, hnew⟩ := hc
  refine ⟨f, hv, ⟨hrenamed.inj, fun i hi => ?_⟩, fun i hi => ?_⟩
  · rw [hg.kept.contents hw (hnew i hi).2, hrenamed.contents i hi]
  · exact ⟨(hnew i hi).1, Nat.lt_of_lt_of_le (hnew i hi).2 hg.kept.size_lists_le⟩

end Heap

namespace Plugin

open Bindings (LastOf)

variable {h : Heap} {vars : List (String × Value)} {state : Store × Heap}

/-- The variables of the global frame after copies have been bound are entries with the same
names. -/
lemma exists_vars_foldl_bindCopy (vars : List (String × Value)) (state : Store × Heap) :
    ∃ copies : List (String × Value), copies.map (·.1) = vars.map (·.1) ∧
      (vars.foldl bindCopy state).1.global.vars = state.1.global.vars.insertAll copies := by
  induction vars generalizing state with
  | nil => exact ⟨[], rfl, rfl⟩
  | cons var vars ih =>
      obtain ⟨copies, hnames, hvars⟩ := ih (bindCopy state var)
      refine ⟨(var.1, (state.2.clone var.2).1) :: copies, ?_, ?_⟩
      · rw [List.map_cons, List.map_cons, hnames]
      · rw [List.foldl_cons, hvars, Bindings.insertAll_cons]
        rfl

lemma addVars_eq (plugins : List Plugin) (state : Store × Heap) :
    addVars plugins state = (plugins.flatMap Plugin.vars).foldl bindCopy state :=
  (List.foldl_flatMap ..).symm

lemma grown_foldl_bindCopy (hg : Heap.Grown h state.2) (vars : List (String × Value)) :
    Heap.Grown h (vars.foldl bindCopy state).2 := by
  induction vars generalizing state with
  | nil => exact hg
  | cons var vars ih => exact ih (hg.trans (Heap.grown_clone hg.wellFormed var.2))

lemma get?_foldl_bindCopy_of_not_mem {name : String} (hname : name ∉ vars.map (·.1)) :
    (vars.foldl bindCopy state).1.global.vars.get? name = state.1.global.vars.get? name := by
  obtain ⟨copies, hnames, hvars⟩ := exists_vars_foldl_bindCopy vars state
  rw [hvars, Bindings.get?_insertAll_of_not_mem (by rwa [hnames])]

/-- The last of the variables with a name is copied, and the copy is bound. -/
lemma get?_foldl_bindCopy (hw : h.WellFormed) (hg : Heap.Grown h state.2) {name : String} {w : Value}
    (hlast : LastOf vars name w) (hknown : h.Knows w) :
    ∃ v, (vars.foldl bindCopy state).1.global.vars.get? name = some v ∧
      h.IsCopy w (vars.foldl bindCopy state).2 v := by
  obtain ⟨before, after, rfl, hafter⟩ := hlast
  have hg' := grown_foldl_bindCopy hg before
  have hclone := Heap.grown_clone hg'.wellFormed w
  rw [List.foldl_append, List.foldl_cons]
  refine ⟨((before.foldl bindCopy state).2.clone w).1, ?_, ?_⟩
  · rw [get?_foldl_bindCopy_of_not_mem hafter]
    simp only [bindCopy, Store.bindGlobal, Bindings.get?_insert, if_true]
  · have hcopy := Heap.isCopy_clone hw hknown hg'
    have hbound : Heap.Grown ((before.foldl bindCopy state).2.clone w).2
        (bindCopy (before.foldl bindCopy state) (name, w)).2 := Heap.grown_refl hclone.wellFormed
    have hlater := grown_foldl_bindCopy hbound after
    exact hcopy.grown hclone.wellFormed hlater

/-- A variable is a copy of what the last plugin that has one of this name provides. -/
theorem bound_addVars (hw : h.WellFormed) {plugins : List Plugin}
    (hknown : ∀ p ∈ plugins, ∀ e ∈ p.vars, h.Knows e.2) (name : String) :
    (∃ w v, LastProvides Plugin.vars plugins name w ∧
      (addVars plugins (.empty, h)).1.global.vars.get? name = some v ∧
      h.IsCopy w (addVars plugins (.empty, h)).2 v) ∨
    (∀ p ∈ plugins, name ∉ p.vars.map (·.1)) ∧
      (addVars plugins (.empty, h)).1.global.vars.get? name = none := by
  rw [addVars_eq]
  by_cases hmem : name ∈ (plugins.flatMap Plugin.vars).map (·.1)
  · obtain ⟨w, hlast⟩ := exists_lastProvides hmem
    obtain ⟨p, hp, he⟩ := List.mem_flatMap.mp hlast.lastOf.mem
    have hg : Heap.Grown h (Store.empty, h).2 := Heap.grown_refl hw
    obtain ⟨v, hv, hcopy⟩ := get?_foldl_bindCopy hw hg hlast.lastOf (hknown p hp _ he)
    exact .inl ⟨w, v, hlast, hv, hcopy⟩
  · refine .inr ⟨fun p hp hname => ?_, get?_foldl_bindCopy_of_not_mem hmem⟩
    obtain ⟨e, he, rfl⟩ := List.mem_map.mp hname
    exact hmem (List.mem_map_of_mem (List.mem_flatMap.mpr ⟨p, hp, he⟩))

end Plugin

/-! ### Procedures -/

namespace Registry

open Bindings (LastOf)

variable {r r' : Registry} {q : Option Procedure} {procedures : List (Option Procedure)}
  {name : String} {params : List String} {body : Block}

/-- The declaration is complete, and declares a procedure with this name, these parameters and this
body. -/
def Declares (q : Option Procedure) (name : String) (params : List String) (body : Block) : Prop :=
  ∃ (span bodySpan : Span) (ident : Ident) (idents : List Ident) (statements : List Node),
    q = some (.of span (some ident) (idents.map some) (.of bodySpan statements)) ∧
      name = ident.name ∧ params = idents.map (·.name) ∧ body = .of bodySpan statements

/-- The last declaration of the name declares this procedure. -/
def LastDeclares (procedures : List (Option Procedure)) (name : String) (params : List String)
    (body : Block) : Prop :=
  ∃ earlier q later, procedures = earlier ++ q :: later ∧ Declares q name params body ∧
    ∀ q' ∈ later, ∀ params' body', ¬ Declares q' name params' body'

lemma paramNames?_eq_some_iff {params : List (Option Ident)} {names : List String} :
    paramNames? params = some names ↔
      ∃ idents : List Ident, params = idents.map some ∧ names = idents.map (·.name) := by
  induction params generalizing names with
  | nil =>
      constructor
      · intro h
        cases h
        exact ⟨[], rfl, rfl⟩
      · rintro ⟨idents, hidents, rfl⟩
        rw [List.nil_eq, List.map_eq_nil_iff] at hidents
        subst hidents
        rfl
  | cons p params ih =>
      cases p with
      | none =>
          constructor
          · intro h
            simp [paramNames?] at h
          · rintro ⟨idents, hidents, -⟩
            cases idents with
            | nil => cases hidents
            | cons ident idents => cases hidents
      | some ident =>
          constructor
          · intro h
            simp only [paramNames?, List.mapM_cons, Option.map_some, Option.pure_def,
              Option.bind_eq_bind, Option.bind_some, Option.bind_eq_some_iff, Option.some.injEq] at h
            obtain ⟨rest, hrest, rfl⟩ := h
            obtain ⟨idents, rfl, rfl⟩ := ih.mp hrest
            exact ⟨ident :: idents, rfl, rfl⟩
          · rintro ⟨idents, hparams, rfl⟩
            cases idents with
            | nil => cases hparams
            | cons ident' idents =>
                obtain ⟨rfl, rfl⟩ : ident = ident' ∧ params = idents.map some := by
                  simpa using hparams
                have hrest := ih.mpr ⟨idents, rfl, rfl⟩
                simp only [paramNames?] at hrest
                simp [paramNames?, hrest]

/-- A complete declaration binds its name, and any other is refused. -/
lemma declare_eq_ok_iff : r.declare q = .ok r' ↔
    ∃ name params body, Declares q name params body ∧
      r' = Bindings.insert r name (.declared params body) := by
  constructor
  · intro h
    unfold declare at h
    split at h
    · cases h
    · rename_i span ident params bodySpan statements
      split at h
      · rename_i names hnames
        obtain ⟨idents, rfl, rfl⟩ := paramNames?_eq_some_iff.mp hnames
        cases h
        exact ⟨_, _, _, ⟨_, _, _, _, _, rfl, rfl, rfl, rfl⟩, rfl⟩
      · cases h
    · cases h
  · rintro ⟨name, params, body, ⟨span, bodySpan, ident, idents, statements, rfl, rfl, rfl, rfl⟩, rfl⟩
    have hnames := paramNames?_eq_some_iff.mpr ⟨idents, rfl, rfl⟩
    simp only [declare, hnames]

lemma declareAll_cons_eq_ok_iff : r.declareAll (q :: procedures) = .ok r' ↔
    ∃ name params body, Declares q name params body ∧
      declareAll (Bindings.insert r name (.declared params body)) procedures = .ok r' := by
  rw [declareAll, List.foldlM_cons]
  constructor
  · intro h
    cases hfirst : r.declare q with
    | error f => simp [hfirst, bind, Except.bind] at h
    | ok r₁ =>
        rw [hfirst] at h
        obtain ⟨name, params, body, hq, rfl⟩ := declare_eq_ok_iff.mp hfirst
        exact ⟨name, params, body, hq, h⟩
  · rintro ⟨name, params, body, hq, h⟩
    rw [declare_eq_ok_iff.mpr ⟨name, params, body, hq, rfl⟩]
    exact h

/-- The declarations of procedures are accepted if each is complete. -/
theorem exists_declareAll_iff : (∃ r', r.declareAll procedures = .ok r') ↔
    ∀ q ∈ procedures, ∃ name params body, Declares q name params body := by
  induction procedures generalizing r with
  | nil => exact ⟨by simp, fun _ => ⟨r, rfl⟩⟩
  | cons q procedures ih =>
      rw [List.forall_mem_cons]
      constructor
      · rintro ⟨r', h⟩
        obtain ⟨name, params, body, hq, hrest⟩ := declareAll_cons_eq_ok_iff.mp h
        exact ⟨⟨name, params, body, hq⟩, ih.mp ⟨r', hrest⟩⟩
      · rintro ⟨⟨name, params, body, hq⟩, hrest⟩
        obtain ⟨r', hr'⟩ := ih.mpr hrest
        exact ⟨r', declareAll_cons_eq_ok_iff.mpr ⟨name, params, body, hq, hr'⟩⟩

/-- A declaration has only one name. -/
lemma Declares.name_eq {name' : String} {params' : List String} {body' : Block}
    (h : Declares q name params body) (h' : Declares q name' params' body') : name' = name := by
  obtain ⟨span, bodySpan, ident, idents, statements, rfl, rfl, -, -⟩ := h
  obtain ⟨span', bodySpan', ident', idents', statements', heq, rfl, -, -⟩ := h'
  simp only [Option.some.injEq, Procedure.of.injEq] at heq
  rw [heq.2.1]

/-- A procedure takes the place of the function that had its name, the last one with the name
counts, and all other functions remain. -/
theorem get?_declareAll (h : r.declareAll procedures = .ok r') (name : String) :
    (∃ params body, LastDeclares procedures name params body ∧
      Bindings.get? r' name = some (.declared params body)) ∨
    (∀ q ∈ procedures, ∀ params body, ¬ Declares q name params body) ∧
      Bindings.get? r' name = Bindings.get? r name := by
  induction procedures generalizing r with
  | nil =>
      cases h
      exact .inr ⟨by simp, rfl⟩
  | cons q procedures ih =>
      obtain ⟨name', params, body, hq, hrest⟩ := declareAll_cons_eq_ok_iff.mp h
      rcases ih hrest with ⟨params', body', hlast, hget⟩ | ⟨hnone, hget⟩
      · obtain ⟨earlier, q', later, rfl, hq', hlater⟩ := hlast
        exact .inl ⟨params', body', ⟨q :: earlier, q', later, rfl, hq', hlater⟩, hget⟩
      · rw [Bindings.get?_insert] at hget
        by_cases hname : name' = name
        · subst hname
          rw [if_pos rfl] at hget
          exact .inl ⟨params, body, ⟨[], q, procedures, rfl, hq, hnone⟩, hget⟩
        · rw [if_neg hname] at hget
          refine .inr ⟨List.forall_mem_cons.mpr ⟨fun params' body' hq' => ?_, hnone⟩, hget⟩
          exact hname (hq'.name_eq hq)

end Registry

/-! ### The words -/

namespace Keyword

open Plugin Registry

/-- The names that are listed are those given, each once, in ascending order. -/
lemma sortedNames_spec (names : List String) :
    (sortedNames names).Pairwise (· < ·) ∧ ∀ name, name ∈ sortedNames names ↔ name ∈ names := by
  refine ⟨Bindings.ascending_empty.insertAll _, fun name => ?_⟩
  rw [sortedNames, Bindings.mem_names_insertAll]
  simp [Bindings.empty, Bindings.names]

/-- The functions that a run is given have the names that are listed. -/
lemma names_addFunctions (plugins : List Plugin) :
    (addFunctions plugins {}).names =
      sortedNames (plugins.flatMap fun p => p.functions.map (·.1)) := by
  obtain ⟨hsorted, hmem⟩ := sortedNames_spec (plugins.flatMap fun p => p.functions.map (·.1))
  rw [addFunctions_eq]
  refine (Bindings.ascending_empty.insertAll _).eq_of_mem_iff hsorted fun name => ?_
  rw [hmem, Bindings.mem_names_insertAll]
  simp [Bindings.empty, Bindings.names, List.map_flatMap]

/-- The variables that a run is given have the names that are listed. -/
lemma names_addVars (plugins : List Plugin) (h : Heap) :
    (addVars plugins (.empty, h)).1.global.vars.names =
      sortedNames (plugins.flatMap fun p => p.vars.map (·.1)) := by
  obtain ⟨hsorted, hmem⟩ := sortedNames_spec (plugins.flatMap fun p => p.vars.map (·.1))
  obtain ⟨copies, hnames, hvars⟩ :=
    exists_vars_foldl_bindCopy (plugins.flatMap Plugin.vars) (.empty, h)
  rw [addVars_eq, hvars]
  refine (Bindings.ascending_empty.insertAll copies).eq_of_mem_iff hsorted fun name => ?_
  rw [hmem, Bindings.mem_names_insertAll, hnames]
  simp [Bindings.empty, Bindings.names, List.map_flatMap]

/-- Plugins are listed alike if they are the same but for their order and repetitions. -/
lemma ofPlugins_congr {plugins plugins' : List Plugin} (h : ∀ p, p ∈ plugins' ↔ p ∈ plugins) :
    ofPlugins plugins' = ofPlugins plugins := by
  have hnames : ∀ entries : Plugin → List String,
      sortedNames (plugins'.flatMap entries) = sortedNames (plugins.flatMap entries) := by
    intro entries
    obtain ⟨hsorted, hmem⟩ := sortedNames_spec (plugins.flatMap entries)
    obtain ⟨hsorted', hmem'⟩ := sortedNames_spec (plugins'.flatMap entries)
    refine hsorted'.eq_of_mem_iff hsorted fun name => ?_
    rw [hmem, hmem', List.mem_flatMap, List.mem_flatMap]
    simp only [h]
  simp only [ofPlugins, hnames]

/-- **The words of an editor are those that a run can use.**  The listing of any plugins has, after
the words of the language, two groups of names.

* Each group is in strictly ascending order, so that it has each name once.
* The first one, in which the names are followed by `()`, has the names of the functions that a run
  is given, and the second one those of the variables in its global frame, whatever lists there are.
* Other plugins with the same members, be they in another order or repeated, are listed alike.
* Under each name a run has the function that the last plugin with this name provides, and as a
  variable a copy of the value that the last plugin with this name provides, made of new lists; under
  other names it has none.
* Declaring procedures succeeds if and only if every declaration is complete.  Then each name that
  is declared stands for the procedure of its last declaration, and every other name for what it
  stood for before.
* A run that begins with these plugins has the listed variables, and it can call the listed functions
  and the procedures of its program. -/
theorem ofPlugins_agrees (plugins : List Plugin) :
    ∃ functions vars : List String,
      ofPlugins plugins = language ++ functions.map (fun n => ⟨n ++ "()", n ++ "()"⟩) ++
        vars.map (fun n => ⟨n, n⟩) ∧
      (functions.Pairwise (· < ·) ∧ vars.Pairwise (· < ·)) ∧
      ((addFunctions plugins {}).names = functions ∧
        ∀ h, (addVars plugins (.empty, h)).1.global.vars.names = vars) ∧
      (∀ plugins' : List Plugin, (∀ p, p ∈ plugins' ↔ p ∈ plugins) →
        ofPlugins plugins' = ofPlugins plugins) ∧
      (∀ name,
        (∃ f, LastProvides Plugin.functions plugins name f ∧
          Bindings.get? (addFunctions plugins {}) name = some (.host (-1) f)) ∨
        (∀ p ∈ plugins, name ∉ p.functions.map (·.1)) ∧
          Bindings.get? (addFunctions plugins {}) name = none) ∧
      (∀ h : Heap, h.WellFormed → (∀ p ∈ plugins, ∀ e ∈ p.vars, h.Knows e.2) → ∀ name,
        (∃ w v, LastProvides Plugin.vars plugins name w ∧
          (addVars plugins (.empty, h)).1.global.vars.get? name = some v ∧
          h.IsCopy w (addVars plugins (.empty, h)).2 v) ∨
        (∀ p ∈ plugins, name ∉ p.vars.map (·.1)) ∧
          (addVars plugins (.empty, h)).1.global.vars.get? name = none) ∧
      (∀ (r : Registry) (procedures : List (Option Procedure)),
        ((∃ r', r.declareAll procedures = .ok r') ↔
          ∀ q ∈ procedures, ∃ name params body, Declares q name params body) ∧
        ∀ r', r.declareAll procedures = .ok r' → ∀ name,
          (∃ params body, LastDeclares procedures name params body ∧
            Bindings.get? r' name = some (.declared params body)) ∨
          (∀ q ∈ procedures, ∀ params body, ¬ Declares q name params body) ∧
            Bindings.get? r' name = Bindings.get? r name) ∧
      ∀ (s : Session) (program : Program) (l : Session.Launch) (m : Machine),
        l.plugins = plugins → s.freshMachine program l = .ok m →
          m.store.global.vars.names = vars ∧
          ∀ name, name ∈ m.functions.names ↔ name ∈ functions ∨
            ∃ q ∈ program.procedures, ∃ params body, Declares q name params body := by
  refine ⟨_, _, rfl, ⟨(sortedNames_spec _).1, (sortedNames_spec _).1⟩,
    ⟨names_addFunctions plugins, names_addVars plugins⟩, fun _ => ofPlugins_congr,
    get?_addFunctions plugins, fun h hw hknown => bound_addVars hw hknown,
    fun r procedures => ⟨exists_declareAll_iff, fun r' => get?_declareAll⟩, ?_⟩
  rintro s program l m rfl hm
  obtain ⟨r', hr', rfl⟩ := Session.freshMachine_eq_ok hm
  refine ⟨names_addVars l.plugins _, fun name => ?_⟩
  rw [← names_addFunctions, Bindings.mem_names_iff, Bindings.mem_names_iff]
  rcases get?_declareAll hr' name with ⟨params, body, hlast, hget⟩ | ⟨hnone, hget⟩
  · obtain ⟨earlier, q, later, hprocedures, hq, -⟩ := hlast
    have hmem : q ∈ program.procedures := by simp [hprocedures]
    simp only [hget, Option.isSome_some, true_iff]
    exact .inr ⟨q, hmem, params, body, hq⟩
  · rw [hget]
    refine ⟨.inl, fun h => h.resolve_right ?_⟩
    rintro ⟨q, hq, params, body, hdeclares⟩
    exact hnone q hq params body hdeclares

/-- A host with a function that has the name of a builtin one, and two variables. -/
def firstHost : Plugin where
  functions := [("LENGTH", Builtins.append), ("ECHO", Builtins.display)]
  vars := [("world", .text "w"), ("size", .number 3)]

/-- Another host, with the names of the first one and a list. -/
def secondHost : Plugin where
  functions := [("ECHO", Builtins.input)]
  vars := [("world", .list ⟨0⟩)]

/-- The hosts together with the builtin functions. -/
def overlapping : List Plugin := [Builtins.plugin, firstHost, secondHost]

/-- A declaration of a procedure without statements. -/
def declaration (name : String) (params : List String) : Option Procedure :=
  some (.of .none (some ⟨.none, name⟩) (params.map fun p => some ⟨.none, p⟩) (.of .none []))

/-- A program that declares a procedure twice, and takes the name of a function of the hosts. -/
def redeclaring : Program where
  procedures := [declaration "f" ["a"], declaration "ECHO" [], declaration "f" ["b", "c"]]

/-- The later of two hosts provides the variable and the function that both have, the program puts a
procedure in the place of the function, and its second procedure of a name counts. -/
theorem ofPlugins_agrees_overlapping :
    (∀ p, p ∈ [secondHost, Builtins.plugin, firstHost, secondHost] ↔ p ∈ overlapping) ∧
      Heap.sharing.WellFormed ∧ (∀ p ∈ overlapping, ∀ e ∈ p.vars, Heap.sharing.Knows e.2) ∧
      (∃ functions, ofPlugins [secondHost, Builtins.plugin, firstHost, secondHost] =
        language ++ functions.map (fun n => ⟨n ++ "()", n ++ "()"⟩) ++
          [⟨"size", "size"⟩, ⟨"world", "world"⟩] ∧
        functions = ["APPEND", "DISPLAY", "ECHO", "INPUT", "INSERT", "LENGTH", "RANDOM", "REMOVE"]) ∧
      Bindings.get? (addFunctions overlapping {}) "ECHO" = some (.host (-1) Builtins.input) ∧
      (∃ v, (addVars overlapping (.empty, Heap.sharing)).1.global.vars.get? "world" = some v ∧
        Heap.sharing.IsCopy (.list ⟨0⟩) (addVars overlapping (.empty, Heap.sharing)).2 v) ∧
      ∃ m, Session.freshMachine {} redeclaring { plugins := overlapping } = .ok m ∧
        "f" ∈ m.functions.names ∧ m.store.global.vars.names = ["size", "world"] ∧
        Bindings.get? m.functions "f" = some (.declared ["b", "c"] (.of .none [])) ∧
        Bindings.get? m.functions "ECHO" = some (.declared [] (.of .none [])) := by
  have hmembers : ∀ p, p ∈ [secondHost, Builtins.plugin, firstHost, secondHost] ↔
      p ∈ overlapping := by
    intro p
    simp only [overlapping, List.mem_cons, List.not_mem_nil, or_false]
    tauto
  have hw : Heap.sharing.WellFormed := by decide
  have hknown : ∀ p ∈ overlapping, ∀ e ∈ p.vars, Heap.sharing.Knows e.2 := by decide
  obtain ⟨functions, vars, hlisted, -, ⟨hfunctions, hvars⟩, hsame, hbound, hcopied, -,
    hrun⟩ := ofPlugins_agrees overlapping
  have hecho : LastProvides Plugin.functions overlapping "ECHO" Builtins.input :=
    ⟨[Builtins.plugin, firstHost], secondHost, [], rfl, ⟨[], [], rfl, by simp⟩, by simp⟩
  have hworld : LastProvides Plugin.vars overlapping "world" (.list ⟨0⟩) :=
    ⟨[Builtins.plugin, firstHost], secondHost, [], rfl, ⟨[], [], rfl, by simp⟩, by simp⟩
  have hnames : functions =
      ["APPEND", "DISPLAY", "ECHO", "INPUT", "INSERT", "LENGTH", "RANDOM", "REMOVE"] := by
    rw [← hfunctions]
    rfl
  have hvarnames : vars = ["size", "world"] := by
    rw [← hvars {}]
    decide
  refine ⟨hmembers, hw, hknown, ⟨functions, ?_, hnames⟩, ?_, ?_, ?_⟩
  · rw [hsame _ hmembers, hlisted, hvarnames]
    rfl
  · rcases hbound "ECHO" with ⟨f, hf, hget⟩ | ⟨hnone, -⟩
    · rw [hget, hecho.lastOf.unique hf.lastOf]
    · exact absurd (by decide) (hnone secondHost (by simp [overlapping]))
  · rcases hcopied Heap.sharing hw hknown "world" with ⟨w, v, hlast, hget, hcopy⟩ | ⟨hnone, -⟩
    · rw [hworld.lastOf.unique hlast.lastOf] at hcopy
      exact ⟨v, hget, hcopy⟩
    · exact absurd (by decide) (hnone secondHost (by simp [overlapping]))
  · have hm : ∃ m, Session.freshMachine {} redeclaring { plugins := overlapping } = .ok m ∧
        Bindings.get? m.functions "f" = some (.declared ["b", "c"] (.of .none [])) ∧
        Bindings.get? m.functions "ECHO" = some (.declared [] (.of .none [])) := ⟨_, rfl, rfl, rfl⟩
    obtain ⟨m, hm, hf, hecho⟩ := hm
    obtain ⟨hmvars, hmnames⟩ := hrun {} redeclaring { plugins := overlapping } m rfl hm
    refine ⟨m, hm, (hmnames "f").mpr (.inr ⟨declaration "f" ["a"], by simp [redeclaring], ["a"],
      .of .none [], .none, .none, ⟨.none, "f"⟩, [⟨.none, "a"⟩], [], rfl, rfl, rfl, rfl⟩),
      hmvars.trans hvarnames, hf, hecho⟩

end Keyword

end Pseudocode
