/-
# The texts of lists

A list that holds itself has no finite text of its elements, so a value is printed with marks: a
list is marked while its elements are printed, and where a marked list would have to be printed, its
place is taken by `[...]`.  The marks are shared by everything that is printed, and each list takes
its mark away when it has been printed.

So what is printed of a value is a sketch of its lists.  This file says what the sketch is: at every
place it has the element that the list has there, and it breaks off exactly where a list stands
inside itself.  Where no list holds itself, nothing is broken off, however many times a list occurs.
The sketch is the same for lists that are the same but for their identities.

The main results are

* `Heap.exists_prints`: the printing ends, takes all marks away, and gives the text;
* `Heap.prints_unique`: what is printed is determined, and so are the marks;
* `Heap.unfolds_iff_acyclic`: a value has a finite unfolding if no list in it holds itself;
* `Heap.printed_texts`: what has been said above.
-/
import Pseudocode.Proofs.Storage

namespace Pseudocode

/-! ### Sketches -/

/-- What is printed of a value: the value itself if it is no list, a list that is broken off, or the
elements of a list. -/
inductive Sketch where
  | atom (v : Value)
  | broken (id : ListId)
  | opened (id : ListId) (parts : List Sketch)

namespace Sketch

/-- The value that is sketched. -/
def value : Sketch → Value
  | atom v => v
  | broken id | opened id _ => .list id

section

variable {τ : Type} [Append τ] (r : Rendering τ)

mutual

/-- The text of a sketch. -/
def text : Sketch → τ
  | atom v => r.atom v
  | broken _ => r.sign "[...]"
  | opened _ parts => r.sign "[" ++ r.separated (texts parts) ++ r.sign "]"

def texts : List Sketch → List τ
  | [] => []
  | part :: rest => text part :: texts rest

end

lemma texts_eq_map (parts : List Sketch) : texts r parts = parts.map (text r) := by
  induction parts with
  | nil => rfl
  | cons part rest ih => rw [texts, ih, List.map_cons]

end

/-- A sketch is part of another one, inside the given lists, the innermost first. -/
inductive Within (whole : Sketch) : List ListId → Sketch → Prop where
  | whole : Within whole [] whole
  | part {around : List ListId} {id : ListId} {parts : List Sketch} {part : Sketch}
      (h : Within whole around (.opened id parts)) (hpart : part ∈ parts) :
      Within whole (id :: around) part

lemma Within.in_opened {part T : Sketch} {around : List ListId} (hT : part.Within around T)
    {id : ListId} {parts : List Sketch} (hpart : part ∈ parts) :
    (opened id parts).Within (around ++ [id]) T := by
  induction hT with
  | whole => exact .part .whole hpart
  | part _ hmem ih => exact .part ih hmem

/-- What a sketch shows of a value inside some lists, at its first level: a list is broken off if
it is one of those around it, and else it is sketched with the elements that it has. -/
def Shows (h : Heap) (around : List ListId) (S : Sketch) : Prop :=
  match S with
  | atom v => v.listId? = none
  | broken id => id ∈ around
  | opened id parts => id ∉ around ∧ parts.map value = h.contents id

end Sketch

namespace Heap

/-! ### Printing with marks -/

mutual

/-- Printing a value while the lists `marked` are marked gives a sketch, and afterwards the lists
`marked'` are marked. -/
inductive Prints (h : Heap) : (marked : List ListId) → Value → Sketch → (marked' : List ListId) →
    Prop where
  | atom {marked : List ListId} {v : Value} (hv : v.listId? = none) :
      Prints h marked v (.atom v) marked
  | broken {marked : List ListId} {id : ListId} (hid : id ∈ marked) :
      Prints h marked (.list id) (.broken id) marked
  | opened {marked marked' : List ListId} {id : ListId} {parts : List Sketch} (hid : id ∉ marked)
      (hparts : PrintsAll h (id :: marked) (h.contents id) parts marked') :
      Prints h marked (.list id) (.opened id parts) (marked'.erase id)

/-- Printing values one after another. -/
inductive PrintsAll (h : Heap) : (marked : List ListId) → List Value → List Sketch →
    (marked' : List ListId) → Prop where
  | nil {marked : List ListId} : PrintsAll h marked [] [] marked
  | cons {marked marked' marked'' : List ListId} {v : Value} {vs : List Value} {S : Sketch}
      {parts : List Sketch} (hfirst : Prints h marked v S marked')
      (hrest : PrintsAll h marked' vs parts marked'') :
      PrintsAll h marked (v :: vs) (S :: parts) marked''

end

variable {h h' : Heap}

mutual

/-- The marks after the printing are those before it. -/
theorem marks_prints {marked marked' : List ListId} {v : Value} {S : Sketch}
    (hp : h.Prints marked v S marked') : marked' = marked := by
  cases hp with
  | atom hv => rfl
  | broken hid => rfl
  | opened hid hparts =>
      have hmarks := marks_printsAll hparts
      rw [hmarks]
      exact List.erase_cons_head _ _

theorem marks_printsAll {marked marked' : List ListId} {vs : List Value} {parts : List Sketch}
    (hp : h.PrintsAll marked vs parts marked') : marked' = marked := by
  cases hp with
  | nil => rfl
  | cons hfirst hrest =>
      have hmarks := marks_prints hfirst
      have hmarks' := marks_printsAll hrest
      rw [hmarks', hmarks]

end

mutual

/-- What is printed is determined by the marks and the value. -/
theorem prints_unique {marked marked' marked'' : List ListId} {v : Value} {S S' : Sketch}
    (hp : h.Prints marked v S marked') (hp' : h.Prints marked v S' marked'') : S' = S := by
  cases hp with
  | atom hv =>
      cases hp' with
      | atom _ => rfl
      | broken _ | opened _ _ => simp [Value.listId?] at hv
  | broken hid =>
      cases hp' with
      | atom hv => simp [Value.listId?] at hv
      | broken _ => rfl
      | opened hid' _ => exact absurd hid hid'
  | opened hid hparts =>
      cases hp' with
      | atom hv => simp [Value.listId?] at hv
      | broken hid' => exact absurd hid' hid
      | opened _ hparts' =>
          have hsame := printsAll_unique hparts hparts'
          rw [hsame]

theorem printsAll_unique {marked marked' marked'' : List ListId} {vs : List Value}
    {parts parts' : List Sketch} (hp : h.PrintsAll marked vs parts marked')
    (hp' : h.PrintsAll marked vs parts' marked'') : parts' = parts := by
  cases hp with
  | nil =>
      cases hp' with
      | nil => rfl
  | cons hfirst hrest =>
      cases hp' with
      | cons hfirst' hrest' =>
          -- both go on with the marks that they began with
          rw [marks_prints hfirst', ← marks_prints hfirst] at hrest'
          have hsame := prints_unique hfirst hfirst'
          have hsame' := printsAll_unique hrest hrest'
          rw [hsame, hsame']

end

lemma prints_opened {marked : List ListId} {id : ListId} {parts : List Sketch} (hid : id ∉ marked)
    (hparts : h.PrintsAll (id :: marked) (h.contents id) parts (id :: marked)) :
    h.Prints marked (.list id) (.opened id parts) marked := by
  have hp := Prints.opened hid hparts
  rwa [List.erase_cons_head] at hp

/-! ### The printing ends -/

lemma exists_printsAll {marked : List ListId} {vs : List Value} {depth : Nat}
    (hvs : ∀ v ∈ vs, ∃ S, h.Prints marked v S marked ∧
      ∀ (τ : Type) [Append τ] (r : Rendering τ), h.renderWithin r depth marked v = S.text r) :
    ∃ parts, h.PrintsAll marked vs parts marked ∧ ∀ (τ : Type) [Append τ] (r : Rendering τ),
      vs.map (h.renderWithin r depth marked) = parts.map (Sketch.text r) := by
  induction vs with
  | nil => exact ⟨[], .nil, fun _ _ _ => rfl⟩
  | cons v vs ih =>
      obtain ⟨hfirst, hrest⟩ := List.forall_mem_cons.mp hvs
      obtain ⟨S, hS, htext⟩ := hfirst
      obtain ⟨parts, hparts, htexts⟩ := ih hrest
      refine ⟨S :: parts, .cons hS hparts, fun τ _ r => ?_⟩
      rw [List.map_cons, List.map_cons, htext, htexts]

/-- The printing ends, whatever lists are marked, takes all further marks away, and gives the text
of the value. -/
theorem exists_prints (h : Heap) (depth : Nat) (marked : List ListId) (v : Value)
    (hdepth : h.unopened marked < depth) :
    ∃ S, h.Prints marked v S marked ∧ ∀ (τ : Type) [Append τ] (r : Rendering τ),
      h.renderWithin r depth marked v = S.text r := by
  induction depth generalizing marked v with
  | zero => omega
  | succ depth ih =>
      cases v with
      | list id =>
          by_cases hid : id ∈ marked
          · refine ⟨.broken id, .broken hid, fun τ _ r => ?_⟩
            simp [renderWithin, hid, Sketch.text]
          · -- only a list that is known has elements
            have helements : ∀ w ∈ h.contents id, ∃ S, h.Prints (id :: marked) w S (id :: marked) ∧
                ∀ (τ : Type) [Append τ] (r : Rendering τ),
                  h.renderWithin r depth (id :: marked) w = S.text r := by
              intro w hw
              refine ih (id :: marked) w ?_
              have hlt : id.index < h.lists.size := by
                by_contra hge
                rw [contents_of_size_le (Nat.le_of_not_lt hge)] at hw
                cases hw
              have hfewer := unopened_cons_lt hlt hid
              omega
            obtain ⟨parts, hparts, htexts⟩ := exists_printsAll helements
            refine ⟨.opened id parts, prints_opened hid hparts, fun τ _ r => ?_⟩
            rw [renderWithin, if_neg (by simpa using hid), Sketch.text, Sketch.texts_eq_map,
              htexts τ r]
      | _ => exact ⟨.atom _, .atom rfl, fun _ _ _ => rfl⟩

/-! ### What is printed at a place -/

lemma value_prints {marked marked' : List ListId} {v : Value} {S : Sketch}
    (hp : h.Prints marked v S marked') : S.value = v := by
  cases hp with
  | _ => rfl

lemma map_value_printsAll {marked marked' : List ListId} {vs : List Value} {parts : List Sketch}
    (hp : h.PrintsAll marked vs parts marked') : parts.map Sketch.value = vs := by
  induction vs generalizing marked parts with
  | nil =>
      cases hp with
      | nil => rfl
  | cons v vs ih =>
      cases hp with
      | cons hfirst hrest => rw [List.map_cons, value_prints hfirst, ih hrest]

lemma shows_prints {marked marked' : List ListId} {v : Value} {S : Sketch}
    (hp : h.Prints marked v S marked') : S.Shows h marked := by
  cases hp with
  | atom hv => exact hv
  | broken hid => exact hid
  | opened hid hparts => exact ⟨hid, map_value_printsAll hparts⟩

lemma prints_of_mem {marked marked' : List ListId} {vs : List Value} {parts : List Sketch}
    (hp : h.PrintsAll marked vs parts marked') {part : Sketch} (hpart : part ∈ parts) :
    ∃ v, h.Prints marked v part marked := by
  induction vs generalizing parts with
  | nil =>
      cases hp with
      | nil => cases hpart
  | cons v vs ih =>
      cases hp with
      | cons hfirst hrest =>
          obtain rfl := marks_prints hfirst
          rcases List.mem_cons.mp hpart with rfl | hpart
          · exact ⟨v, hfirst⟩
          · exact ih hrest hpart

/-- Every part of what is printed is printed with the marks of the lists around it. -/
lemma prints_within {v : Value} {S T : Sketch} {around : List ListId} (hp : h.Prints [] v S [])
    (hT : S.Within around T) : ∃ w marked, h.Prints around w T marked := by
  induction hT with
  | whole => exact ⟨v, [], hp⟩
  | part _ hpart ih =>
      obtain ⟨w, marked, hwhole⟩ := ih
      cases hwhole with
      | opened _ hparts =>
          obtain ⟨w', hprints⟩ := prints_of_mem hparts hpart
          exact ⟨w', _, hprints⟩

/-! ### Lists that do not hold themselves -/

/-- No list that can be reached from the value holds itself, however indirectly. -/
def Acyclic (h : Heap) (v : Value) : Prop :=
  ∀ j, Reaches h.sequences v j → ¬ Relation.TransGen (Holds h.sequences) j j

mutual

/-- The sketch is the unfolding of the value: in it every list is opened. -/
inductive Unfolds (h : Heap) : Value → Sketch → Prop where
  | atom {v : Value} (hv : v.listId? = none) : Unfolds h v (.atom v)
  | opened {id : ListId} {parts : List Sketch} (hparts : UnfoldsAll h (h.contents id) parts) :
      Unfolds h (.list id) (.opened id parts)

/-- The sketches are the unfoldings of the values. -/
inductive UnfoldsAll (h : Heap) : List Value → List Sketch → Prop where
  | nil : UnfoldsAll h [] []
  | cons {v : Value} {vs : List Value} {S : Sketch} {parts : List Sketch}
      (hfirst : Unfolds h v S) (hrest : UnfoldsAll h vs parts) :
      UnfoldsAll h (v :: vs) (S :: parts)

end

lemma unfolds_of_mem {vs : List Value} {parts : List Sketch} (hu : h.UnfoldsAll vs parts)
    {v : Value} (hv : v ∈ vs) : ∃ part ∈ parts, h.Unfolds v part := by
  induction vs generalizing parts with
  | nil => cases hv
  | cons w vs ih =>
      cases hu with
      | cons hfirst hrest =>
          rcases List.mem_cons.mp hv with rfl | hv
          · exact ⟨_, List.mem_cons_self, hfirst⟩
          · obtain ⟨part, hpart, hunfolds⟩ := ih hrest hv
            exact ⟨part, List.mem_cons_of_mem _ hpart, hunfolds⟩

/-- The unfolding of a list is larger than those of the lists that it holds. -/
lemma unfolds_of_holds {i j : ListId} {S : Sketch} (hu : h.Unfolds (.list i) S)
    (hij : Holds h.sequences i j) : ∃ T, h.Unfolds (.list j) T ∧ sizeOf T < sizeOf S := by
  rw [Holds, getD_sequences] at hij
  cases hu with
  | atom hv => cases hv
  | opened hparts =>
      obtain ⟨part, hpart, hunfolds⟩ := unfolds_of_mem hparts hij
      refine ⟨part, hunfolds, ?_⟩
      have hlt := List.sizeOf_lt_of_mem hpart
      simp only [Sketch.opened.sizeOf_spec]
      omega

lemma unfolds_of_transGen {i j : ListId} {S : Sketch} (hu : h.Unfolds (.list i) S)
    (hij : Relation.TransGen (Holds h.sequences) i j) :
    ∃ T, h.Unfolds (.list j) T ∧ sizeOf T < sizeOf S := by
  induction hij with
  | single hstep => exact unfolds_of_holds hu hstep
  | tail _ hstep ih =>
      obtain ⟨T, hT, hlt⟩ := ih
      obtain ⟨U, hU, hlt'⟩ := unfolds_of_holds hT hstep
      exact ⟨U, hU, hlt'.trans hlt⟩

/-- A list with an unfolding does not hold itself: its unfolding would be a smaller one of it. -/
lemma not_transGen_of_unfolds {i : ListId} {S : Sketch} (hu : h.Unfolds (.list i) S) :
    ¬ Relation.TransGen (Holds h.sequences) i i := by
  induction hn : sizeOf S using Nat.strong_induction_on generalizing S with
  | h n ih =>
      intro hcycle
      obtain ⟨T, hT, hlt⟩ := unfolds_of_transGen hu hcycle
      exact ih _ (hn ▸ hlt) hT rfl hcycle

lemma acyclic_of_unfolds {v : Value} {S : Sketch} (hu : h.Unfolds v S) : h.Acyclic v := by
  rintro j ⟨i, rfl, hreach⟩
  rcases Relation.reflTransGen_iff_eq_or_transGen.mp hreach with rfl | hpath
  · exact not_transGen_of_unfolds hu
  · obtain ⟨T, hT, -⟩ := unfolds_of_transGen hu hpath
    exact not_transGen_of_unfolds hT

/-- The lists around a place in what is printed can be reached, and hold the list at that place. -/
lemma path_within {v : Value} {S T : Sketch} {around : List ListId}
    (hp : h.Prints [] v S []) (hT : S.Within around T) {j : ListId} (hj : T.value = .list j) :
    Reaches h.sequences v j ∧ ∀ i ∈ around, Relation.TransGen (Holds h.sequences) i j := by
  induction hT generalizing j with
  | whole =>
      rw [value_prints hp] at hj
      exact ⟨⟨j, hj, .refl⟩, by simp⟩
  | @part around id parts part hwhole hpart ih =>
      obtain ⟨w, _, hopened⟩ := prints_within hp hwhole
      have hholds : Holds h.sequences id j := by
        rw [Holds, getD_sequences, ← (shows_prints hopened).2, ← hj]
        exact List.mem_map_of_mem hpart
      obtain ⟨⟨k, hv, hreach⟩, hpath⟩ := ih rfl
      refine ⟨⟨k, hv, hreach.tail hholds⟩, List.forall_mem_cons.mpr ⟨.single hholds, ?_⟩⟩
      exact fun i hi => (hpath i hi).tail hholds

/-- Where no list holds itself, nothing is broken off. -/
lemma not_broken {v : Value} {S : Sketch} (hv : h.Acyclic v) (hp : h.Prints [] v S [])
    (around : List ListId) (id : ListId) : ¬ S.Within around (.broken id) := by
  intro hT
  obtain ⟨w, _, hbroken⟩ := prints_within hp hT
  have hmem : id ∈ around := by simpa [Sketch.Shows] using shows_prints hbroken
  obtain ⟨hreach, hpath⟩ := path_within hp hT rfl
  exact hv id hreach (hpath id hmem)

mutual

/-- What is printed with nothing broken off is the unfolding. -/
theorem unfolds_of_prints {marked marked' : List ListId} {v : Value} {S : Sketch}
    (hp : h.Prints marked v S marked')
    (hwhole : ∀ around id, ¬ S.Within around (.broken id)) : h.Unfolds v S := by
  cases hp with
  | atom hv => exact .atom hv
  | broken _ => exact absurd .whole (hwhole [] _)
  | opened _ hparts =>
      refine .opened (unfoldsAll_of_printsAll hparts fun part hpart around id hbroken => ?_)
      exact hwhole _ id (hbroken.in_opened hpart)

theorem unfoldsAll_of_printsAll {marked marked' : List ListId} {vs : List Value}
    {parts : List Sketch} (hp : h.PrintsAll marked vs parts marked')
    (hwhole : ∀ part ∈ parts, ∀ around id, ¬ part.Within around (.broken id)) :
    h.UnfoldsAll vs parts := by
  cases hp with
  | nil => exact .nil
  | cons hfirst hrest =>
      obtain ⟨hwhole, hwholes⟩ := List.forall_mem_cons.mp hwhole
      exact .cons (unfolds_of_prints hfirst hwhole) (unfoldsAll_of_printsAll hrest hwholes)

end

/-- The printed sketch is the unfolding, in which nothing is broken off, if and only if no list
holds itself. -/
lemma unfolds_iff_acyclic {v : Value} {S : Sketch} (hp : h.Prints [] v S []) :
    (h.Unfolds v S ↔ h.Acyclic v) ∧
      ((∃ around id, S.Within around (.broken id)) ↔ ¬ h.Acyclic v) := by
  have hunfolds : h.Acyclic v → h.Unfolds v S := fun hv =>
    unfolds_of_prints hp (not_broken hv hp)
  refine ⟨⟨acyclic_of_unfolds, hunfolds⟩, ⟨?_, fun hv => ?_⟩⟩
  · rintro ⟨around, id, hT⟩ hv
    exact not_broken hv hp around id hT
  · by_contra hnone
    have hwhole := unfolds_of_prints hp fun around id hT => hnone ⟨around, id, hT⟩
    exact hv (acyclic_of_unfolds hwhole)

/-! ### Renamed lists -/

/-- The lists that can be reached from the value are, under new names, those of another heap. -/
structure Renamed (h h' : Heap) (v : Value) (f : ListId → ListId) : Prop where
  inj : ∀ i, Reaches h.sequences v i → ∀ j, Reaches h.sequences v j → f i = f j → i = j
  contents : ∀ i, Reaches h.sequences v i → h'.contents (f i) = (h.contents i).map (.rename f)

lemma reaches_of_mem {v w : Value} {i j : ListId} (hi : Reaches h.sequences v i)
    (hw : w ∈ h.contents i) (hj : w = .list j) : Reaches h.sequences v j := by
  obtain ⟨k, hv, hreach⟩ := hi
  refine ⟨k, hv, hreach.tail ?_⟩
  rwa [Holds, getD_sequences, ← hj]

lemma Renamed.mem_map {v : Value} {f : ListId → ListId} (hr : h.Renamed h' v f)
    {marked : List ListId} (hmarked : ∀ i ∈ marked, Reaches h.sequences v i) {id : ListId}
    (hid : Reaches h.sequences v id) : f id ∈ marked.map f ↔ id ∈ marked := by
  constructor
  · intro hmem
    obtain ⟨i, hi, heq⟩ := List.mem_map.mp hmem
    rwa [← hr.inj i (hmarked i hi) id hid heq]
  · exact List.mem_map_of_mem

mutual

/-- Under new names, the same is printed but for the names. -/
theorem prints_renamed {v w : Value} {f : ListId → ListId} {marked marked' : List ListId}
    {S : Sketch} (hr : h.Renamed h' v f) (hp : h.Prints marked w S marked')
    (hmarked : ∀ i ∈ marked, Reaches h.sequences v i)
    (hw : ∀ i, w = .list i → Reaches h.sequences v i) :
    ∃ S', h'.Prints (marked.map f) (w.rename f) S' (marked.map f) ∧
      ∀ (τ : Type) [Append τ] (r : Rendering τ), S'.text r = S.text r := by
  cases hp with
  | atom hv =>
      refine ⟨.atom w, ?_, fun _ _ _ => rfl⟩
      cases w with
      | list id => cases hv
      | _ => exact .atom rfl
  | @broken _ id hid =>
      have hmem := (hr.mem_map hmarked (hw id rfl)).mpr hid
      exact ⟨.broken (f id), .broken hmem, fun _ _ _ => rfl⟩
  | @opened _ _ id parts hid hparts =>
      have hnew : f id ∉ marked.map f := mt (hr.mem_map hmarked (hw id rfl)).mp hid
      have hmarked' := List.forall_mem_cons.mpr ⟨hw id rfl, hmarked⟩
      obtain ⟨parts', hparts', htexts⟩ := printsAll_renamed hr hparts hmarked'
        fun x hx i hi => reaches_of_mem (hw id rfl) hx hi
      rw [← hr.contents id (hw id rfl)] at hparts'
      refine ⟨.opened (f id) parts', prints_opened hnew hparts', fun τ _ r => ?_⟩
      rw [Sketch.text, Sketch.text, htexts τ r]

theorem printsAll_renamed {v : Value} {vs : List Value} {f : ListId → ListId}
    {marked marked' : List ListId} {parts : List Sketch} (hr : h.Renamed h' v f)
    (hp : h.PrintsAll marked vs parts marked')
    (hmarked : ∀ i ∈ marked, Reaches h.sequences v i)
    (hvs : ∀ w ∈ vs, ∀ i, w = .list i → Reaches h.sequences v i) :
    ∃ parts', h'.PrintsAll (marked.map f) (vs.map (.rename f)) parts' (marked.map f) ∧
      ∀ (τ : Type) [Append τ] (r : Rendering τ), Sketch.texts r parts' = Sketch.texts r parts := by
  cases hp with
  | nil => exact ⟨[], .nil, fun _ _ _ => rfl⟩
  | cons hfirst hrest =>
      obtain ⟨hw, hvs⟩ := List.forall_mem_cons.mp hvs
      obtain ⟨S', hS', htext⟩ := prints_renamed hr hfirst hmarked hw
      -- the rest is printed with the marks that there were at first
      obtain rfl := marks_prints hfirst
      obtain ⟨parts', hparts', htexts⟩ := printsAll_renamed hr hrest hmarked hvs
      refine ⟨S' :: parts', .cons hS' hparts', fun τ _ r => ?_⟩
      rw [Sketch.texts, Sketch.texts, htext τ r, htexts τ r]

end

/-! ### The texts -/

/-- With no marks at first, the printing ends and gives the text. -/
lemma exists_prints_render (h : Heap) (v : Value) :
    ∃ S, h.Prints [] v S [] ∧ ∀ (τ : Type) [Append τ] (r : Rendering τ),
      h.render r v = S.text r := by
  have hdepth : h.unopened [] < h.lists.size + 1 := by
    simp [unopened]
  exact exists_prints h _ [] v hdepth

lemma render_of_prints {v : Value} {S : Sketch} (hp : h.Prints [] v S []) {τ : Type} [Append τ]
    (r : Rendering τ) : h.render r v = S.text r := by
  obtain ⟨S', hp', htext⟩ := exists_prints_render h v
  rw [htext, prints_unique hp hp']

lemma Renamed.render {v : Value} {f : ListId → ListId} (hr : h.Renamed h' v f) {τ : Type}
    [Append τ] (r : Rendering τ) : h'.render r (v.rename f) = h.render r v := by
  obtain ⟨S, hp, htext⟩ := exists_prints_render h v
  obtain ⟨S', hp', htext'⟩ := prints_renamed hr hp (by simp) fun i hi => ⟨i, hi, .refl⟩
  rw [htext, render_of_prints hp', htext' τ r]

/-- Printing a value ends, with all marks taken away, and the two texts of the value are those of
what is printed.  That has at every place the value that is there; a list is broken off if and only
if it is one of those around the place.  It is the whole unfolding of the value, with nothing broken
off, if and only if no list holds itself.  The texts remain the same if the lists get new names. -/
theorem printed_texts (h : Heap) (v : Value) :
    ∃ S : Sketch,
      (h.Prints [] v S [] ∧ ∀ S' marked, h.Prints [] v S' marked → S' = S ∧ marked = []) ∧
      (h.display v = S.text .plain ∧ h.inspect v = S.text .inspect) ∧
      (S.value = v ∧ ∀ around T, S.Within around T → T.Shows h around) ∧
      ((h.Unfolds v S ↔ h.Acyclic v) ∧
        ((∃ around id, S.Within around (.broken id)) ↔ ¬ h.Acyclic v)) ∧
      ∀ h' f, h.Renamed h' v f →
        h'.display (v.rename f) = h.display v ∧ h'.inspect (v.rename f) = h.inspect v := by
  obtain ⟨S, hp, htext⟩ := exists_prints_render h v
  refine ⟨S, ⟨hp, fun S' marked hp' => ?_⟩, ⟨htext _ .plain, htext _ .inspect⟩,
    ⟨value_prints hp, fun around T hT => ?_⟩, unfolds_iff_acyclic hp, fun h' f hr => ?_⟩
  · exact ⟨prints_unique hp hp', marks_prints hp'⟩
  · obtain ⟨w, marked, hprints⟩ := prints_within hp hT
    exact shows_prints hprints
  · exact ⟨hr.render .plain, hr.render .inspect⟩

/-- A list that holds another one twice, and a list that holds itself. -/
def sharing : Heap where
  lists := #[⟨0, 2⟩, ⟨1, 1⟩, ⟨2, 1⟩]
  banks := #[#[.list ⟨1⟩, .list ⟨1⟩], #[.bool true], #[.list ⟨2⟩]]

/-- The same lists in the opposite order. -/
def sharingTurned : Heap where
  lists := #[⟨0, 1⟩, ⟨1, 1⟩, ⟨2, 2⟩]
  banks := #[#[.list ⟨0⟩], #[.bool true], #[.list ⟨1⟩, .list ⟨1⟩]]

lemma mem_reaches_sharing {i : ListId} (hi : Reaches sharing.sequences (.list ⟨0⟩) i) :
    i = ⟨0⟩ ∨ i = ⟨1⟩ := by
  have hmem := ((mem_reachable_iff sharing (.list ⟨0⟩)).2 i).mpr hi
  have hreachable : sharing.reachable (.list ⟨0⟩) = [⟨0⟩, ⟨1⟩] := by decide
  simpa [hreachable] using hmem

/-- A list that holds another one twice is printed in full, in either heap; the list that holds
itself is not. -/
theorem printed_texts_sharing :
    sharing.Acyclic (.list ⟨0⟩) ∧ ¬ sharing.Acyclic (.list ⟨2⟩) ∧
      sharing.Renamed sharingTurned (.list ⟨0⟩) (fun i => ⟨2 - i.index⟩) ∧
      (∃ S, sharing.Unfolds (.list ⟨0⟩) S ∧ sharing.display (.list ⟨0⟩) = S.text .plain) ∧
      (∃ (S : Sketch) (id : ListId), S.Within [id] (.broken id) ∧
        sharing.display (.list ⟨2⟩) = S.text .plain) ∧
      sharingTurned.display (.list ⟨2⟩) = sharing.display (.list ⟨0⟩) := by
  have hacyclic : sharing.Acyclic (.list ⟨0⟩) :=
    acyclic_of_unfolds (.opened (.cons (.opened (.cons (.atom rfl) .nil))
      (.cons (.opened (.cons (.atom rfl) .nil)) .nil)))
  have hrenamed : sharing.Renamed sharingTurned (.list ⟨0⟩) (fun i => ⟨2 - i.index⟩) := by
    refine ⟨fun i hi j hj hsame => ?_, fun i hi => ?_⟩
    · rcases mem_reaches_sharing hi with rfl | rfl <;>
        rcases mem_reaches_sharing hj with rfl | rfl <;> simp_all
    · rcases mem_reaches_sharing hi with rfl | rfl <;> rfl
  obtain ⟨S, -, ⟨htext, -⟩, -, ⟨hunfolds, -⟩, hsame⟩ := printed_texts sharing (.list ⟨0⟩)
  obtain ⟨T, ⟨-, hunique⟩, ⟨htext', -⟩, -, ⟨-, hbroken⟩, -⟩ := printed_texts sharing (.list ⟨2⟩)
  have hT : sharing.Prints [] (.list ⟨2⟩) (.opened ⟨2⟩ [.broken ⟨2⟩]) [] :=
    prints_opened (by simp) (.cons (.broken (by simp)) .nil)
  obtain ⟨rfl, -⟩ := hunique _ _ hT
  have hwithin : (Sketch.opened ⟨2⟩ [.broken ⟨2⟩]).Within [⟨2⟩] (.broken ⟨2⟩) :=
    .part .whole List.mem_cons_self
  refine ⟨hacyclic, hbroken.mp ⟨_, _, hwithin⟩, hrenamed, ⟨S, hunfolds.mpr hacyclic, htext⟩,
    ⟨_, _, hwithin, htext'⟩, ?_⟩
  exact (hsame sharingTurned _ hrenamed).1

example : sharing.inspect (.list ⟨0⟩) = "[[true],[true]]" := by rfl

example : sharing.inspect (.list ⟨2⟩) = "[[...]]" := by rfl

end Heap

end Pseudocode
