/-
# What inspected values are

Inspecting a value quotes its texts, so that it can be seen what sort of value it is and where it
ends.  A text begins with a quotation mark, a list with a bracket, and everything else is a word
without quotation marks, commas and brackets, which ends where one of these comes.  Commas and
brackets inside of texts do no harm, since it is known where a text ends.

So a value that holds no list inside itself can be read back from its inspection: two such values
with the same inspection are equal in structure, in whatever heaps they are.

The main results are

* `Heap.word_injective`: the words of different values are different;
* `Heap.equal_of_append`: from the inspection of a value and what comes after it both can be told;
* `Heap.Equal.render_eq`: equal values have the same texts;
* `Heap.inspect_unambiguous`: equal inspections are those of equal values.
-/
import Pseudocode.Proofs.Printing
import Pseudocode.Proofs.Quoting

namespace Pseudocode

/-- The number that a value is, if it is one. -/
def Value.number? : Value → Option Number
  | number n => some n
  | _ => none

namespace Heap

/-! ### Equality in structure -/

/-- Two values of two heaps are equal in structure: they are equal if they are no lists, and lists
have equal elements.  There is only one number that is not a number. -/
inductive Equal (h h' : Heap) : Value → Value → Prop where
  | nothing : Equal h h' .nothing .nothing
  | number (n : Number) : Equal h h' (.number n) (.number n)
  | bool (b : Bool) : Equal h h' (.bool b) (.bool b)
  | text (s : ByteString) : Equal h h' (.text s) (.text s)
  | list {i j : ListId} (helements : List.Forall₂ (Equal h h') (h.contents i) (h'.contents j)) :
      Equal h h' (.list i) (.list j)

variable {h h' : Heap} {v v' w : Value} {S S' : Sketch}

lemma equal_refl (hv : v.listId? = none) : Equal h h' v v := by
  cases v with
  | nothing => exact .nothing
  | number n => exact .number n
  | bool b => exact .bool b
  | text s => exact .text s
  | list id => cases hv

/-! ### Words -/

/-- The characters that texts and lists begin and end with, and the comma. -/
def delimiters : List Char := ['"', '[', ']', ',']

/-- The text is not empty and has no such characters. -/
structure Word (cs : List Char) : Prop where
  ne_nil : cs ≠ []
  plain : ∀ c ∈ cs, c ∉ delimiters

lemma word_of_all {cs : List Char} (hne : cs ≠ [])
    (hplain : cs.all (fun c => decide (c ∉ delimiters)) = true) : Word cs :=
  ⟨hne, fun c hc => of_decide_eq_true (List.all_eq_true.mp hplain c hc)⟩

lemma plain_of_isNumeral {c : Char} (hc : Number.IsNumeral c) : c ∉ delimiters := by
  intro hmem
  simp only [delimiters, List.mem_cons, List.not_mem_nil, or_false] at hmem
  rcases hmem with rfl | rfl | rfl | rfl <;> exact absurd hc (by decide)

lemma word_format (n : Number) : Word n.format.toList := by
  cases n with
  | nan => exact word_of_all (by decide) (by decide)
  | infinity s => cases s <;> exact word_of_all (by decide) (by decide)
  | finite s m e h =>
      refine ⟨fun hnil => ?_, fun c hc => plain_of_isNumeral (Number.isNumeral_format s h c hc)⟩
      -- nothing is read where nothing is written
      have hread := Number.read?_format (.finite s m e h)
      rw [hnil] at hread
      cases hread

/-- The values that are inspected as words. -/
inductive Bare : Value → Prop where
  | nothing : Bare .nothing
  | number (n : Number) : Bare (.number n)
  | bool (b : Bool) : Bare (.bool b)

/-- These are the values that are neither texts nor lists. -/
lemma bare_of_atom (hv : v.listId? = none) (htext : v.isText = false) : Bare v := by
  cases v with
  | nothing => exact .nothing
  | number n => exact .number n
  | bool b => exact .bool b
  | text s => cases htext
  | list id => cases hv

lemma Bare.word (hv : Bare v) : Word (Rendering.inspect.atom v).toList := by
  cases hv with
  | nothing => exact word_of_all (by decide) (by decide)
  | number n => exact word_format n
  | bool b => cases b <;> exact word_of_all (by decide) (by decide)

/-- The words of numbers are read as these, and the others are not read as numbers. -/
lemma Bare.read?_eq (hv : Bare v) :
    Number.read? (Rendering.inspect.atom v).toList = v.number? := by
  cases hv with
  | nothing => decide
  | number hn => exact Number.read?_format hn
  | bool b => cases b <;> decide

/-- **The words of different values are different.** -/
theorem word_injective (hv : Bare v) (hv' : Bare v')
    (heq : Rendering.inspect.atom v = Rendering.inspect.atom v') : v = v' := by
  have hread := hv.read?_eq
  rw [heq, hv'.read?_eq] at hread
  cases hv with
  | nothing =>
      cases hv' with
      | nothing => rfl
      | number _ => cases hread
      | bool b => cases b <;> exact absurd heq (by decide)
  | number _ =>
      cases hv' with
      | number _ =>
          cases hread
          rfl
      | _ => cases hread
  | bool b =>
      cases hv' with
      | nothing => cases b <;> exact absurd heq (by decide)
      | number _ => cases hread
      | bool b' => cases b <;> cases b' <;> first | rfl | exact absurd heq (by decide)

/-- After an element its list goes on or ends. -/
def Ends (rest : List Char) : Prop := rest = [] ∨ ∃ c cs, rest = c :: cs ∧ c ∈ delimiters

/-- A word ends where there is a delimiter. -/
lemma Word.append_eq {cs cs' rest rest' : List Char} (hcs : Word cs) (hcs' : Word cs')
    (hrest : Ends rest) (hrest' : Ends rest') (heq : cs ++ rest = cs' ++ rest') :
    cs = cs' ∧ rest = rest' := by
  have htake : ∀ {cs rest : List Char}, Word cs → Ends rest →
      (cs ++ rest).takeWhile (fun c => decide (c ∉ delimiters)) = cs := by
    intro cs rest hcs hrest
    rw [List.takeWhile_append_of_pos fun c hc => decide_eq_true (hcs.plain c hc)]
    rcases hrest with rfl | ⟨c, rest, rfl, hc⟩
    · rw [List.takeWhile_nil, List.append_nil]
    · rw [List.takeWhile_cons_of_neg (by simpa using hc), List.append_nil]
  have hsame := htake hcs hrest
  rw [heq, htake hcs' hrest'] at hsame
  obtain rfl := hsame
  exact ⟨rfl, List.append_cancel_left heq⟩

/-! ### Reading back -/

/-- The elements of a list after the first one, each after a comma. -/
def following (parts : List Sketch) : List Char :=
  (Sketch.texts .inspect parts).flatMap fun text => ',' :: text.toList

lemma toList_separated (first : String) (texts : List String) :
    (Rendering.inspect.separated (first :: texts)).toList =
      first.toList ++ texts.flatMap fun text => ',' :: text.toList := by
  rw [Rendering.separated]
  induction texts generalizing first with
  | nil => simp
  | cons text texts ih =>
      rw [List.foldl_cons, ih, List.flatMap_cons]
      simp [Rendering.inspect]

lemma following_cons (S : Sketch) (parts : List Sketch) :
    following (S :: parts) = ',' :: ((S.text .inspect).toList ++ following parts) := by
  rw [following, Sketch.texts, List.flatMap_cons, ← following, List.cons_append]

lemma ends_following (parts : List Sketch) (rest : List Char) :
    Ends (following parts ++ ']' :: rest) := by
  cases parts with
  | nil => exact .inr ⟨_, _, rfl, by decide⟩
  | cons S parts =>
      rw [following_cons]
      exact .inr ⟨_, _, rfl, by decide⟩

/-- The elements stand between brackets, the first one without a comma. -/
lemma exists_toList_opened (id : ListId) (parts : List Sketch) :
    ∃ cs, ((Sketch.opened id parts).text .inspect).toList = '[' :: (cs ++ [']']) ∧
      (parts = [] ∧ cs = [] ∨ following parts = ',' :: cs) := by
  cases parts with
  | nil =>
      refine ⟨[], ?_, .inl ⟨rfl, rfl⟩⟩
      rw [Sketch.text, Sketch.texts, Rendering.separated]
      decide
  | cons S parts =>
      refine ⟨(S.text .inspect).toList ++ following parts, ?_, .inr (following_cons S parts)⟩
      rw [Sketch.text, Sketch.texts, String.toList_append, String.toList_append, toList_separated,
        ← following]
      simp [Rendering.inspect]

/-- The first character tells texts and lists from words, and is not one after which a list goes on
or ends. -/
lemma exists_toList_text (hu : h.Unfolds v S) :
    ∃ c cs, (S.text .inspect).toList = c :: cs ∧ c ∉ [']', ','] ∧ (c = '"' ↔ v.isText = true) ∧
      (c = '[' ↔ v.listId? ≠ none) := by
  cases hu with
  | @opened id parts _ =>
      obtain ⟨cs, htext, -⟩ := exists_toList_opened id parts
      exact ⟨_, _, htext, by decide, by simp [Value.isText], by simp [Value.listId?]⟩
  | atom hv =>
      rw [Sketch.text]
      cases htext : v.isText with
      | true =>
          cases v with
          | text s =>
              exact ⟨_, _, Text.toList_quoteBytes s, by decide, by decide, by simp [Value.listId?]⟩
          | _ => cases htext
      | false =>
          obtain ⟨hne, hplain⟩ := (bare_of_atom hv htext).word
          obtain ⟨c, cs, hcs⟩ := List.exists_cons_of_ne_nil hne
          have hc := hplain c (hcs ▸ List.mem_cons_self)
          simp only [delimiters, List.mem_cons, List.not_mem_nil, or_false, not_or] at hc
          refine ⟨c, cs, hcs, by simp [hc], by simp [hc], by simp [hc, hv]⟩

/-- The first element of a list does not begin with what would end the list. -/
lemma exists_cons_of_following {vs : List Value} {parts : List Sketch} {cs : List Char}
    (hus : h.UnfoldsAll vs parts) (hcs : following parts = ',' :: cs) :
    ∃ c cs', cs = c :: cs' ∧ c ≠ ']' := by
  cases hus with
  | nil => cases hcs
  | cons hfirst _ =>
      obtain ⟨c, cs', htext, hends, -⟩ := exists_toList_text hfirst
      rw [following_cons, htext] at hcs
      exact ⟨c, _, (List.cons.inj hcs).2.symm, fun h => hends (h ▸ List.mem_cons_self)⟩

/-- Without the brackets the elements of two lists are inspected in the same way. -/
lemma following_of_opened {vs vs' : List Value} {parts parts' : List Sketch} {id id' : ListId}
    {rest rest' : List Char} (hus : h.UnfoldsAll vs parts) (hus' : h'.UnfoldsAll vs' parts')
    (heq : ((Sketch.opened id parts).text .inspect).toList ++ rest =
      ((Sketch.opened id' parts').text .inspect).toList ++ rest') :
    following parts ++ ']' :: rest = following parts' ++ ']' :: rest' := by
  obtain ⟨cs, htext, hcs⟩ := exists_toList_opened id parts
  obtain ⟨cs', htext', hcs'⟩ := exists_toList_opened id' parts'
  rw [htext, htext', List.cons_append, List.cons_append, List.append_assoc, List.append_assoc] at heq
  have heq := (List.cons.inj heq).2
  rcases hcs with ⟨rfl, rfl⟩ | hcs
  · rcases hcs' with ⟨rfl, rfl⟩ | hcs'
    · exact heq
    · obtain ⟨c, cs', rfl, hc⟩ := exists_cons_of_following hus' hcs'
      exact absurd (List.cons.inj heq).1.symm hc
  · rcases hcs' with ⟨rfl, rfl⟩ | hcs'
    · obtain ⟨c, cs, rfl, hc⟩ := exists_cons_of_following hus hcs
      exact absurd (List.cons.inj heq).1 hc
    · rw [hcs, hcs', List.cons_append, List.cons_append]
      exact congrArg (',' :: ·) heq

/-- Texts end at a quotation mark, and words where there is a delimiter. -/
lemma equal_of_atom_append (hv : v.listId? = none) (hv' : v'.listId? = none)
    (htexts : v.isText = true ↔ v'.isText = true)
    {rest rest' : List Char} (hrest : Ends rest) (hrest' : Ends rest')
    (heq : (Rendering.inspect.atom v).toList ++ rest =
      (Rendering.inspect.atom v').toList ++ rest') : Equal h h' v v' ∧ rest = rest' := by
  cases hsort : v.isText with
  | true =>
      have hsort' := htexts.mp hsort
      cases v with
      | text s =>
          cases v' with
          | text s' =>
              obtain ⟨rfl, hend⟩ := Text.quoteBytes_append heq
              exact ⟨.text s, hend⟩
          | _ => cases hsort'
      | _ => cases hsort
  | false =>
      have hsort' : v'.isText = false := by
        rw [← Bool.not_eq_true, ← htexts, hsort]
        decide
      have hbare := bare_of_atom hv hsort
      have hbare' := bare_of_atom hv' hsort'
      obtain ⟨hword, hend⟩ := hbare.word.append_eq hbare'.word hrest hrest' heq
      obtain rfl := word_injective hbare hbare' (String.toList_inj.mp hword)
      exact ⟨equal_refl hv, hend⟩

mutual

/-- **From the inspection of a value and what comes after it both can be told.** -/
theorem equal_of_append {v v' : Value} {S S' : Sketch} (hu : h.Unfolds v S)
    (hu' : h'.Unfolds v' S') {rest rest' : List Char} (hrest : Ends rest) (hrest' : Ends rest')
    (heq : (S.text .inspect).toList ++ rest = (S'.text .inspect).toList ++ rest') :
    Equal h h' v v' ∧ rest = rest' := by
  -- the first characters are the same, so the values are of the same sort
  obtain ⟨c, cs, htext, -, hquote, hbracket⟩ := exists_toList_text hu
  obtain ⟨c', cs', htext', -, hquote', hbracket'⟩ := exists_toList_text hu'
  obtain rfl : c = c' := by
    rw [htext, htext'] at heq
    exact (List.cons.inj heq).1
  have htexts := hquote.symm.trans hquote'
  have hlists := hbracket.symm.trans hbracket'
  cases hu with
  | atom hv =>
      have hv' : v'.listId? = none := not_not.mp (mt hlists.mpr (not_not.mpr hv))
      cases hu' with
      | opened _ => cases hv'
      | atom _ =>
          exact equal_of_atom_append hv hv' htexts hrest hrest' heq
  | @opened id parts hparts =>
      cases hu' with
      | atom hv' => exact absurd hv' (hlists.mp (by simp [Value.listId?]))
      | @opened id' parts' hparts' =>
          have hfollowing := following_of_opened hparts hparts' heq
          obtain ⟨hequals, hend⟩ := equals_of_append hparts hparts' hfollowing
          exact ⟨.list hequals, hend⟩

/-- From the elements of a list and what comes after the list all of them can be told. -/
theorem equals_of_append {vs vs' : List Value} {parts parts' : List Sketch}
    (hus : h.UnfoldsAll vs parts) (hus' : h'.UnfoldsAll vs' parts') {rest rest' : List Char}
    (heq : following parts ++ ']' :: rest = following parts' ++ ']' :: rest') :
    List.Forall₂ (Equal h h') vs vs' ∧ rest = rest' := by
  cases hus with
  | nil =>
      cases hus' with
      | nil => exact ⟨.nil, (List.cons.inj heq).2⟩
      | cons _ _ =>
          rw [following_cons] at heq
          exact absurd (List.cons.inj heq).1 (by decide)
  | cons hfirst hothers =>
      cases hus' with
      | nil =>
          rw [following_cons] at heq
          exact absurd (List.cons.inj heq).1 (by decide)
      | cons hfirst' hothers' =>
          rw [following_cons, following_cons, List.cons_append, List.cons_append, List.append_assoc,
            List.append_assoc] at heq
          obtain ⟨hequal, hend⟩ := equal_of_append hfirst hfirst' (ends_following _ _)
            (ends_following _ _) (List.cons.inj heq).2
          obtain ⟨hequals, hend⟩ := equals_of_append hothers hothers' hend
          exact ⟨.cons hequal hequals, hend⟩

end

mutual

/-- Values that are equal in structure have the same texts. -/
theorem text_of_equal {v v' : Value} {S S' : Sketch} (hu : h.Unfolds v S) (hu' : h'.Unfolds v' S')
    (hequal : Equal h h' v v') {τ : Type} [Append τ] (r : Rendering τ) : S.text r = S'.text r := by
  cases hu with
  | atom hv =>
      cases hequal with
      | list _ => cases hv
      | _ =>
          cases hu' with
          | atom _ => rfl
  | opened hparts =>
      cases hequal with
      | list helements =>
          cases hu' with
          | atom hv' => cases hv'
          | opened hparts' =>
              rw [Sketch.text, Sketch.text, texts_of_equal hparts hparts' helements r]

theorem texts_of_equal {vs vs' : List Value} {parts parts' : List Sketch}
    (hus : h.UnfoldsAll vs parts) (hus' : h'.UnfoldsAll vs' parts')
    (hequal : List.Forall₂ (Equal h h') vs vs') {τ : Type} [Append τ] (r : Rendering τ) :
    Sketch.texts r parts = Sketch.texts r parts' := by
  cases hus with
  | nil =>
      cases hequal with
      | nil =>
          cases hus' with
          | nil => rfl
  | cons hfirst hothers =>
      cases hequal with
      | cons hequal hequals =>
          cases hus' with
          | cons hfirst' hothers' =>
              rw [Sketch.texts, Sketch.texts, text_of_equal hfirst hfirst' hequal r,
                texts_of_equal hothers hothers' hequals r]

end

/-- Values that are equal in structure are displayed and inspected alike. -/
theorem Equal.render_eq (hequal : Equal h h' v v') (hv : h.Acyclic v) (hv' : h'.Acyclic v')
    {τ : Type} [Append τ] (r : Rendering τ) : h.render r v = h'.render r v' := by
  obtain ⟨S, hp, htext⟩ := exists_prints_render h v
  obtain ⟨S', hp', htext'⟩ := exists_prints_render h' v'
  have hu := (unfolds_iff_acyclic hp).1.mpr hv
  have hu' := (unfolds_iff_acyclic hp').1.mpr hv'
  rw [htext, htext', text_of_equal hu hu' hequal r]

/-! ### Inspections -/

/-- **Equal inspections are those of equal values.**  If no list in either of two values holds itself
and their inspections are the same, the values are equal in structure, in whatever heaps they are. -/
theorem inspect_unambiguous (hv : h.Acyclic v) (hv' : h'.Acyclic v')
    (heq : h.inspect v = h'.inspect v') : Equal h h' v v' := by
  obtain ⟨S, hp, htext⟩ := exists_prints_render h v
  obtain ⟨S', hp', htext'⟩ := exists_prints_render h' v'
  have hu := (unfolds_iff_acyclic hp).1.mpr hv
  have hu' := (unfolds_iff_acyclic hp').1.mpr hv'
  have htexts : S.text .inspect = S'.text .inspect := by
    rw [← htext, ← htext']
    exact heq
  exact (equal_of_append hu hu' (.inl rfl) (.inl rfl) (by rw [htexts])).1

/-- A number that is nearly `-0.1`. -/
def nearTenth : Number := .finite true 7205759403792794 (-56) (by decide)

/-- A list of texts and of another list, with a number in it. -/
def quoted : Heap where
  lists := #[⟨0, 3⟩, ⟨1, 3⟩]
  banks := #[#[.text "],\"", .list ⟨1⟩, .text "true"],
    #[.bool true, .nothing, .number nearTenth]]

/-- The same lists in the opposite order. -/
def quotedTurned : Heap where
  lists := #[⟨0, 3⟩, ⟨1, 3⟩]
  banks := #[#[.bool true, .nothing, .number nearTenth],
    #[.text "],\"", .list ⟨0⟩, .text "true"]]

lemma mem_reaches_quoted {i : ListId} (hi : Reaches quoted.sequences (.list ⟨0⟩) i) :
    i = ⟨0⟩ ∨ i = ⟨1⟩ := by
  have hmem := ((mem_reachable_iff quoted (.list ⟨0⟩)).2 i).mpr hi
  have hreachable : quoted.reachable (.list ⟨0⟩) = [⟨0⟩, ⟨1⟩] := by decide
  simpa [hreachable] using hmem

/-- Such lists do not hold themselves. -/
lemma acyclic_of_quoted {i j : ListId} (hi : h.contents i = [.text "],\"", .list j, .text "true"])
    (hj : h.contents j = [.bool true, .nothing, .number nearTenth]) : h.Acyclic (.list i) := by
  obtain ⟨parts, hinner⟩ : ∃ parts, h.UnfoldsAll (h.contents j) parts := by
    rw [hj]
    exact ⟨_, .cons (.atom rfl) (.cons (.atom rfl) (.cons (.atom rfl) .nil))⟩
  obtain ⟨parts', houter⟩ : ∃ parts, h.UnfoldsAll (h.contents i) parts := by
    rw [hi]
    exact ⟨_, .cons (.atom rfl) (.cons (.opened hinner) (.cons (.atom rfl) .nil))⟩
  exact acyclic_of_unfolds (.opened houter)

/-- The same lists under other names are inspected alike, and are equal in structure. -/
theorem inspect_unambiguous_quoted :
    quoted.Acyclic (.list ⟨0⟩) ∧ quotedTurned.Acyclic (.list ⟨1⟩) ∧
      quoted.inspect (.list ⟨0⟩) = quotedTurned.inspect (.list ⟨1⟩) ∧
      Equal quoted quotedTurned (.list ⟨0⟩) (.list ⟨1⟩) := by
  have hacyclic : quoted.Acyclic (.list ⟨0⟩) := acyclic_of_quoted rfl rfl
  have hacyclic' : quotedTurned.Acyclic (.list ⟨1⟩) := acyclic_of_quoted rfl rfl
  have hrenamed : quoted.Renamed quotedTurned (.list ⟨0⟩) (fun i => ⟨1 - i.index⟩) := by
    refine ⟨fun i hi j hj hsame => ?_, fun i hi => ?_⟩
    · rcases mem_reaches_quoted hi with rfl | rfl <;>
        rcases mem_reaches_quoted hj with rfl | rfl <;> simp_all
    · rcases mem_reaches_quoted hi with rfl | rfl <;> rfl
  have hinspect : quoted.inspect (.list ⟨0⟩) = quotedTurned.inspect (.list ⟨1⟩) :=
    (hrenamed.render .inspect).symm
  exact ⟨hacyclic, hacyclic', hinspect, inspect_unambiguous hacyclic hacyclic' hinspect⟩

example : quoted.inspect (.list ⟨0⟩) = "[\"],\\\"\",[true,nothing,-0.1],\"true\"]" := by rfl

end Heap

end Pseudocode
