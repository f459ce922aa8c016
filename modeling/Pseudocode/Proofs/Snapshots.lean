/-
# Copied frames

When the frames of a run are looked at they are copied first.  The copies are made of new lists,
which nothing in the run mentions.  So a run with an honest host stays in the region of the other
lists, and the copies show for ever what the frames were at the moment of copying, however the run
goes on.

The main results are

* `Session.Honest.within_rest`: a run stays apart from the lists of copies;
* `Heap.clone_apart`: copies of values and frames have the shape of what they are copies of, and
  are not affected by anything that happens to it later.
-/
import Pseudocode.Host.Builtins
import Pseudocode.Proofs.Honesty

namespace Pseudocode

open Heap (Grown New Sides)

variable {h h' h'' : Heap}

namespace Region

/-- All lists and banks but those that were made between the two heaps. -/
def rest (h h' : Heap) : Region where
  lists id := ¬ New h h' id
  banks b := b < h.banks.size ∨ h'.banks.size ≤ b

lemma covers_rest (h h' : Heap) : (rest h h').Covers h where
  lists _ hid hnew := absurd hnew.1 (Nat.not_le.mpr hid)
  banks _ hb := .inl hb

/-- What is made after the two heaps belongs to the rest. -/
lemma admits_rest (h h' h'' : Heap) : (rest h h').Admits h' h'' where
  lists _ hid _ hnew := absurd hnew.2 (Nat.not_lt.mpr hid)
  banks _ hb _ := .inr hb

end Region

namespace Heap

/-- The new lists cannot be reached from the rest. -/
lemma Grown.closed_rest (hg : Grown h h') (hw : h.WellFormed) : Closed (.rest h h') h' where
  stored id hid hold := by
    have hlt : id.index < h.lists.size := by
      by_contra hle
      exact hold ⟨Nat.le_of_not_lt hle, hid⟩
    rw [hg.kept.object hlt]
    exact .inl (hw.bank _ (object_of_lt hlt).1)
  holds b hb v hv := by
    rcases hb with hb | hb
    · rw [hg.kept.cells hb] at hv
      intro id hid hnew
      have hknown := hw.known _ (cells_of_lt hb).1 v (Array.mem_toList_iff.mpr hv) id hid
      exact absurd hnew.1 (Nat.not_le.mpr hknown)
    · simp [Heap.cells, Array.getD, Nat.not_lt.mpr hb] at hv

/-- Changes within the rest are made on the side of the old lists. -/
lemma ChangesIn.changesOn {g : Heap} (hc : ChangesIn (.rest h h') h'' g) {side : ListId → Bool}
    (hside : ∀ id, ¬ New h h' id → side id = false) : ChangesOn side false h'' g := by
  refine Relation.ReflTransGen.mono (fun _ _ hchange => ?_) _ _ hc
  cases hchange with
  | alloc _ => exact .alloc _
  | set hid i _ => exact .set (hside _ hid) i _
  | push hid _ => exact .push (hside _ hid) _
  | insert hid i _ => exact .insert (hside _ hid) i _
  | erase hid i => exact .erase (hside _ hid) i

end Heap

namespace Session

variable {s : Session}

/-- The session with other lists. -/
def withHeap (s : Session) (h : Heap) : Session :=
  { s with machine := { s.machine with heap := h } }

/-- A run stays apart from lists that have been added to its own, and changes none of them. -/
theorem Honest.within_rest (hs : s.Honest) (hg : Grown s.machine.heap h') (es : List Event) :
    Remains (.rest s.machine.heap h') (s.withHeap h') ((s.withHeap h').after es) := by
  have hin : s.In (.rest s.machine.heap h') := hs.within (Region.covers_rest _ _)
  have hbegin : (s.withHeap h').In (.rest s.machine.heap h') :=
    hin.withMachine { hin.machine with heap := hg.closed_rest hs.wellFormed }
  exact hbegin.after es (Region.admits_rest _ _ _)

end Session

namespace Heap

/-- Copies of frames look as the frames did, whatever has been done to other lists. -/
lemma exhibit_copies (hw : h.WellFormed) {fs : List Frame} (hknown : h.KnowsFrames fs)
    {side : ListId → Bool} (hs : Sides h (h.copyFrames fs).2 side)
    (hc : ChangesOn side false (h.copyFrames fs).2 h'') {τ : Type} [Append τ] (r : Rendering τ) :
    h''.exhibit r (h.copyFrames fs).1 = h.exhibit r fs := by
  obtain ⟨hg, hfresh, htexts⟩ := grown_copyFrames hw hknown
  rw [← htexts τ r]
  exact exhibit_congr fun f hf e he => (hfresh f hf e he).render_changed hw hg hs hc r

/-- **Copies are apart.**

* Copying a known value of a well-formed heap gives the value with other names for the lists that
  can be reached from it: each has a name of its own, under which its elements are those it has, and
  what has these names are exactly the new lists.  Those are the lists that can be reached from the
  copy.  What there was is left as it was, and the copy has the texts of the value.
* Later changes are not seen on the other side than that of the list they are made to.  So the texts
  of the copy stay what they were whatever is done to other lists than the new ones, and the texts
  of the value whatever is done to other lists than the old ones.
* All this holds of copies of the frames of a store as well: they look like the frames, then and
  after changes to other lists.
* The lists of an honest session are well-formed, and its variables hold known values.  If its
  frames are copied at any moment, the copies look for ever as the frames did then, whatever
  happens. -/
theorem clone_apart :
    (∀ h : Heap, h.WellFormed →
      (∀ v, h.Knows v → ∀ w h', h.clone v = (w, h') →
        (∃ f, w = v.rename f ∧ h.Renamed h' v f ∧
          ∀ j, New h h' j ↔ ∃ i, Reaches h.sequences v i ∧ f i = j) ∧
        (∀ j, Reaches h'.sequences w j ↔ New h h' j) ∧
        (∀ j : ListId, j.index < h.lists.size →
          h'.object j = h.object j ∧ h'.contents j = h.contents j) ∧
        (∀ b, b < h.banks.size → h'.cells b = h.cells b) ∧
        (h'.display w = h.display v ∧ h'.inspect w = h.inspect v) ∧
        ∀ side, Sides h h' side → Insulated side h' ∧
          (∀ h'', ChangesOn side false h' h'' →
            h''.display w = h.display v ∧ h''.inspect w = h.inspect v) ∧
          ∀ h'', ChangesOn side true h' h'' →
            h''.display v = h.display v ∧ h''.inspect v = h.inspect v) ∧
      ∀ s : Store, h.KnowsFrames s.frames → ∀ copied h', h.copyFrames s.frames = (copied, h') →
        (∀ f ∈ copied, ∀ e ∈ f.vars.entries, Fresh h h' e.2) ∧
        (h'.exhibit .plain copied = h.exhibit .plain s.frames ∧
          h'.exhibit .inspect copied = Snapshot.shown ⟨s, h⟩) ∧
        ∀ side, Sides h h' side → Insulated side h' ∧
          (∀ h'', ChangesOn side false h' h'' →
            h''.exhibit .plain copied = h.exhibit .plain s.frames ∧
              h''.exhibit .inspect copied = Snapshot.shown ⟨s, h⟩) ∧
          ∀ h'', ChangesOn side true h' h'' →
            h''.exhibit .plain s.frames = h.exhibit .plain s.frames ∧
              Snapshot.shown ⟨s, h''⟩ = Snapshot.shown ⟨s, h⟩) ∧
    ∀ s : Session, s.Honest →
      s.machine.heap.WellFormed ∧ s.machine.heap.KnowsFrames s.machine.store.frames ∧
      ∀ copied h', s.machine.heap.copyFrames s.machine.store.frames = (copied, h') →
        ∀ es : List Event,
          ((s.withHeap h').after es).machine.heap.exhibit .plain copied =
              s.machine.heap.exhibit .plain s.machine.store.frames ∧
            ((s.withHeap h').after es).machine.heap.exhibit .inspect copied =
              s.machine.snapshot.shown := by
  refine ⟨fun h hw => ⟨fun v hv w h' heq => ?_, fun s hknown copied h' heq => ?_⟩,
    fun s hs => ⟨hs.wellFormed, hs.knows, fun copied h' heq es => ?_⟩⟩
  · obtain ⟨rfl, rfl⟩ : (h.clone v).1 = w ∧ (h.clone v).2 = h' := by
      rw [heq]
      exact ⟨rfl, rfl⟩
    have hg := grown_clone hw v
    refine ⟨⟨_, rfl, (renamed_clone h v).2, new_clone_iff h v⟩, reaches_clone_iff h v,
      fun j hj => ⟨hg.kept.object hj, hg.kept.contents hw hj⟩, fun b hb => hg.kept.cells hb,
      ⟨render_clone h v .plain, render_clone h v .inspect⟩,
      fun side hs => ⟨hg.insulated hw hs, fun h'' hc => ?_, fun h'' hc => ?_⟩⟩
    · have hfresh := fresh_clone h v
      exact ⟨(hfresh.render_changed hw hg hs hc .plain).trans (render_clone h v .plain),
        (hfresh.render_changed hw hg hs hc .inspect).trans (render_clone h v .inspect)⟩
    · exact ⟨hg.render_changed hw hv hs hc .plain, hg.render_changed hw hv hs hc .inspect⟩
  · obtain ⟨rfl, rfl⟩ : (h.copyFrames s.frames).1 = copied ∧ (h.copyFrames s.frames).2 = h' := by
      rw [heq]
      exact ⟨rfl, rfl⟩
    obtain ⟨hg, hfresh, htexts⟩ := grown_copyFrames hw hknown
    refine ⟨hfresh, ⟨htexts _ .plain, htexts _ .inspect⟩,
      fun side hs => ⟨hg.insulated hw hs, fun h'' hc => ?_, fun h'' hc => ?_⟩⟩
    · exact ⟨exhibit_copies hw hknown hs hc .plain, exhibit_copies hw hknown hs hc .inspect⟩
    · have hsame : ∀ (τ : Type) [Append τ] (r : Rendering τ),
          h''.exhibit r s.frames = h.exhibit r s.frames := fun τ _ r =>
        exhibit_congr fun f hf e he => hg.render_changed hw (hknown f hf e he) hs hc r
      exact ⟨hsame _ .plain, hsame _ .inspect⟩
  · obtain ⟨rfl, rfl⟩ : (s.machine.heap.copyFrames s.machine.store.frames).1 = copied ∧
        (s.machine.heap.copyFrames s.machine.store.frames).2 = h' := by
      rw [heq]
      exact ⟨rfl, rfl⟩
    have hw := hs.wellFormed
    have hg := (grown_copyFrames hw hs.knows).1
    have hsides := sides_new s.machine.heap (s.machine.heap.copyFrames s.machine.store.frames).2
    have hchanges := (hs.within_rest hg es).changes.changesOn fun _ hid => decide_eq_false hid
    exact ⟨exhibit_copies hw hs.knows hsides hchanges .plain,
      exhibit_copies hw hs.knows hsides hchanges .inspect⟩

/-- The variables of a program whose lists are those of `sharing`. -/
def sharingStore : Store :=
  { Store.empty with
    global := { label := globalLabel, vars := ⟨[("x", .list ⟨0⟩), ("y", .list ⟨2⟩)]⟩ } }

/-- A list is made, and then an element is appended to it. -/
def growing : Program where
  statements := [
    .assignment .none (.identifier .none "x") (.list .none [.literal .none (.text "a")]),
    .call .none (some ⟨.none, "APPEND"⟩) [.identifier .none "x", .literal .none (.text "b")]]

/-- The moment at which the list has been made. -/
def growingList : Session :=
  (Session.begun growing { plugins := [Builtins.plugin] }).after (List.replicate 9 .step)

/-- After an element has been appended to a shared list, or to its copy, the other one is as it
was; and copied frames are as they were after one of their lists has been changed, be it at once or
by a run that goes on. -/
theorem clone_apart_sharing :
    sharing.WellFormed ∧ sharing.Knows (.list ⟨0⟩) ∧ sharing.KnowsFrames sharingStore.frames ∧
      (let (w, h') := sharing.clone (.list ⟨0⟩)
      (h'.push ⟨1⟩ .nothing).inspect w = sharing.inspect (.list ⟨0⟩) ∧
        (h'.push ⟨4⟩ .nothing).inspect (.list ⟨0⟩) = sharing.inspect (.list ⟨0⟩)) ∧
      (let (copied, h') := sharing.copyFrames sharingStore.frames
      (h'.push ⟨2⟩ .nothing).exhibit .inspect copied = Snapshot.shown ⟨sharingStore, sharing⟩) ∧
      growingList.Honest ∧
      let (copied, h') := growingList.machine.heap.copyFrames growingList.machine.store.frames
      let later := (growingList.withHeap h').after (List.replicate 20 .step)
      later.machine.snapshot.shown = [("Global", [("x", "[\"a\",\"b\"]")])] ∧
        later.machine.heap.exhibit .inspect copied = [("Global", [("x", "[\"a\"]")])] := by
  have hw : sharing.WellFormed := by decide
  have hv : sharing.Knows (.list ⟨0⟩) := by decide
  have hknown : sharing.KnowsFrames sharingStore.frames := by decide
  have hhonest : growingList.Honest :=
    (Session.honest_begun (by simpa using Builtins.honest_plugin) rfl).after _
  obtain ⟨hcopies, hruns⟩ := clone_apart
  obtain ⟨hclone, hframes⟩ := hcopies sharing hw
  obtain ⟨-, -, -, -, -, hlater⟩ := hclone _ hv _ _ rfl
  obtain ⟨-, hcopy, hvalue⟩ := hlater _ (sides_new _ _)
  obtain ⟨-, -, hlater'⟩ := hframes _ hknown _ _ rfl
  obtain ⟨-, hcopied, -⟩ := hlater' _ (sides_new _ _)
  obtain ⟨-, -, hrun⟩ := hruns growingList hhonest
  exact ⟨hw, hv, hknown, ⟨(hcopy _ (.single (.push (by decide) .nothing))).2,
    (hvalue _ (.single (.push (by decide) .nothing))).2⟩,
    (hcopied _ (.single (.push (by decide) .nothing))).2, hhonest, by decide +kernel,
    (hrun _ _ rfl _).2.trans (by decide +kernel)⟩

end Heap

end Pseudocode
