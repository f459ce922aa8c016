/-
# What the parsers of the grammar read

A parser moves a cursor over the text, and of several alternatives it takes the first that fits.  To
know what it makes of a text one needs two things: what it reads, if the text begins in a certain
way, and that it fails on other texts.  Both are said here of the text alone.  Where the cursor
stands, on which line, and how far a rule has reached before does not matter for them; these only
end up in the line numbers of messages, about which a result of a parser may say nothing.

* `Reads p cs rest P`: with `cs ++ rest` ahead, `p` reads `cs` and gives a result with `P`;
* `Fails p cs`: with `cs` ahead, `p` fails.

There is a lemma for every way to make a parser from others.  `reads_many` says what a repetition
reads: texts one after the other, each of which is read whatever comes after it, up to a place where
the repeated parser fails.
-/
import Mathlib.Data.List.Forall2
import Mathlib.Tactic.Lemma
import Pseudocode.Toml.Grammar

namespace Pseudocode.Toml.Parser

variable {α β ι : Type} {p q : Parser α} {f : α → Parser β} {P : α → Prop} {Q : β → Prop}
  {cs ds rest : List Char}

/-- What a parser gives with a cursor and the furthest place so far. -/
def outcome (p : Parser α) (c : Cursor) (furthest : Nat) : Option (α × Cursor) × Nat :=
  (p.run c).run.run furthest

/-- With `cs` ahead and `rest` after it, the parser reads `cs` and gives a result with `P`. -/
def Reads (p : Parser α) (cs rest : List Char) (P : α → Prop) : Prop :=
  ∀ index line furthest, ∃ a line' furthest', P a ∧
    outcome p ⟨cs ++ rest, index, line⟩ furthest
      = (some (a, ⟨rest, index + cs.length, line'⟩), furthest')

/-- With `cs` ahead the parser fails. -/
def Fails (p : Parser α) (cs : List Char) : Prop :=
  ∀ index line furthest, ∃ furthest', outcome p ⟨cs, index, line⟩ furthest = (none, furthest')

/-! ### One parser after the other -/

lemma outcome_bind (p : Parser α) (f : α → Parser β) (c : Cursor) (n : Nat) :
    outcome (p >>= f) c n =
      match outcome p c n with
      | (some (a, c'), n') => outcome (f a) c' n'
      | (none, n') => (none, n') := by
  simp only [outcome, StateT.run_bind, OptionT.run_bind, Option.elimM]
  rcases (p.run c).run.run n with ⟨_ | ⟨a, c'⟩, n'⟩ <;> simp <;> rfl

lemma outcome_orElse (p q : Parser α) (c : Cursor) (n : Nat) :
    outcome (p <|> q) c n =
      match outcome p c n with
      | (none, n') => outcome q c n'
      | r => r := by
  show ((p.run c <|> q.run c).run.run n) = _
  simp only [outcome, OptionT.run_orElse, Option.elimM, StateT.run_bind]
  rcases (p.run c).run.run n with ⟨_ | ⟨a, c'⟩, n'⟩ <;> simp <;> rfl

lemma Reads.mono (h : Reads p cs rest P) {P' : α → Prop} (himp : ∀ a, P a → P' a) :
    Reads p cs rest P' := by
  intro index line n
  obtain ⟨a, line', n', ha, e⟩ := h index line n
  exact ⟨a, line', n', himp a ha, e⟩

lemma reads_pure {a : α} (h : P a) : Reads (pure a) [] rest P :=
  fun _ line n => ⟨a, line, n, h, rfl⟩

lemma reads_get : Reads get [] rest (·.rest = rest) :=
  fun index line n => ⟨⟨rest, index, line⟩, line, n, rfl, rfl⟩

lemma Reads.bind (hp : Reads p cs (ds ++ rest) P)
    (hf : ∀ a, P a → Reads (f a) ds rest Q) : Reads (p >>= f) (cs ++ ds) rest Q := by
  intro index line n
  obtain ⟨a, l, m, ha, e⟩ := hp index line n
  obtain ⟨b, l', m', hb, e'⟩ := hf a ha (index + cs.length) l m
  refine ⟨b, l', m', hb, ?_⟩
  rw [outcome_bind, List.append_assoc, e, List.length_append, ← Nat.add_assoc]
  exact e'

/-- A parser that reads nothing more after another one. -/
lemma Reads.bind_nil (hp : Reads p cs rest P) (hf : ∀ a, P a → Reads (f a) [] rest Q) :
    Reads (p >>= f) cs rest Q := by
  have h : Reads (p >>= f) (cs ++ []) rest Q := Reads.bind hp hf
  rwa [List.append_nil] at h

/-- A parser that comes after one that reads nothing. -/
lemma Reads.nil_bind (hp : Reads p [] (cs ++ rest) P) (hf : ∀ a, P a → Reads (f a) cs rest Q) :
    Reads (p >>= f) cs rest Q := by
  rw [← List.nil_append cs]
  exact hp.bind hf

/-- A parser that comes after one that reads a single character. -/
lemma Reads.one_bind {x : Char} (hp : Reads p [x] (cs ++ rest) P)
    (hf : ∀ a, P a → Reads (f a) cs rest Q) : Reads (p >>= f) (x :: cs) rest Q := by
  rw [← List.singleton_append]
  exact hp.bind hf

lemma Fails.bind (hp : Fails p cs) : Fails (p >>= f) cs := by
  intro index line n
  obtain ⟨m, e⟩ := hp index line n
  exact ⟨m, by rw [outcome_bind, e]⟩

lemma Reads.bind_fails (hp : Reads p cs rest P) (hf : ∀ a, P a → Fails (f a) rest) :
    Fails (p >>= f) (cs ++ rest) := by
  intro index line n
  obtain ⟨a, l, m, ha, e⟩ := hp index line n
  obtain ⟨m', e'⟩ := hf a ha (index + cs.length) l m
  exact ⟨m', by rw [outcome_bind, e]; exact e'⟩

/-- A parser that fails after one that reads nothing. -/
lemma Reads.nil_bind_fails (hp : Reads p [] rest P) (hf : ∀ a, P a → Fails (f a) rest) :
    Fails (p >>= f) rest := by
  rw [← List.nil_append rest]
  exact hp.bind_fails hf

/-- A parser that fails after one that reads a single character. -/
lemma Reads.one_bind_fails {x : Char} (hp : Reads p [x] rest P) (hf : ∀ a, P a → Fails (f a) rest) :
    Fails (p >>= f) (x :: rest) := by
  rw [← List.singleton_append]
  exact hp.bind_fails hf

/-! ### Alternatives -/

lemma Reads.orElse (hp : Reads p cs rest P) : Reads (p <|> q) cs rest P := by
  intro index line n
  obtain ⟨a, l, m, ha, e⟩ := hp index line n
  exact ⟨a, l, m, ha, by rw [outcome_orElse, e]⟩

lemma Fails.orElse_reads (hp : Fails p (cs ++ rest)) (hq : Reads q cs rest P) :
    Reads (p <|> q) cs rest P := by
  intro index line n
  obtain ⟨m, e⟩ := hp index line n
  obtain ⟨a, l, m', ha, e'⟩ := hq index line m
  exact ⟨a, l, m', ha, by rw [outcome_orElse, e]; exact e'⟩

lemma Fails.orElse (hp : Fails p cs) (hq : Fails q cs) : Fails (p <|> q) cs := by
  intro index line n
  obtain ⟨m, e⟩ := hp index line n
  obtain ⟨m', e'⟩ := hq index line m
  exact ⟨m', by rw [outcome_orElse, e]; exact e'⟩

/-- A parser that may be left out, where it fails. -/
lemma reads_skip (hp : Fails p rest) : Reads (skip? p) [] rest (fun _ => True) :=
  Fails.orElse_reads hp.bind (reads_pure trivial)

lemma Reads.skip (hp : Reads p cs rest P) : Reads (skip? p) cs rest (fun _ => True) :=
  (hp.bind_nil fun _ _ => reads_pure trivial).orElse

/-! ### Rules and what they have read -/

/-- A rule reads what its body reads. -/
lemma Reads.rule (hp : Reads p cs rest P) : Reads (rule p) cs rest P := by
  refine reads_get.nil_bind fun _ _ => hp.bind_nil fun a ha => ?_
  refine reads_get.bind_nil fun _ _ => ?_
  split
  · exact fun _ line n => ⟨a, line, _, ha, rfl⟩
  · exact reads_pure ha

lemma Fails.rule (hp : Fails p cs) : Fails (rule p) cs :=
  reads_get.nil_bind_fails fun _ _ => hp.bind

/-- The text of what has been read. -/
lemma Reads.withText (hp : Reads p cs rest P) :
    Reads (withText p) cs rest (fun r => P r.1 ∧ r.2 = String.ofList cs) := by
  intro index line n
  obtain ⟨a, l, m, ha, e⟩ := hp index line n
  refine ⟨(a, String.ofList cs), l, m, ⟨ha, rfl⟩, ?_⟩
  have hbody : outcome (do
      let a ← p
      let stop ← get
      return (a, String.ofList ((cs ++ rest).take (stop.index - index))))
        ⟨cs ++ rest, index, line⟩ n
      = (some ((a, String.ofList cs), ⟨rest, index + cs.length, l⟩), m) := by
    rw [outcome_bind, e]
    show (some ((a, String.ofList ((cs ++ rest).take (index + cs.length - index))), _), m) = _
    rw [Nat.add_sub_cancel_left, List.take_left]
  exact hbody

lemma Fails.withText (hp : Fails p cs) : Fails (withText p) cs :=
  reads_get.nil_bind_fails fun _ _ => hp.bind

/-! ### Characters -/

lemma reads_satisfy {good : Char → Bool} {x : Char} (h : good x = true) :
    Reads (satisfy good) [x] rest (· = x) := by
  intro index line n
  refine ⟨x, if x == '\n' || x == '\r' then line + 1 else line, n, rfl, ?_⟩
  simp only [satisfy, outcome_bind]
  show outcome (if good x then _ else failure) _ n = _
  rw [if_pos h]
  rfl

lemma fails_satisfy {good : Char → Bool} (h : rest.head?.any good = false) :
    Fails (satisfy good) rest := by
  intro index line n
  refine ⟨n, ?_⟩
  cases rest with
  | nil => rfl
  | cons x rest =>
      simp only [satisfy, outcome_bind]
      show outcome (if good x then _ else failure) _ n = _
      rw [if_neg (by simpa using h)]
      rfl

lemma reads_char (x : Char) : Reads (char x) [x] rest (fun _ => True) :=
  (reads_satisfy (by simp)).mono fun _ _ => trivial

lemma fails_char {x : Char} (h : rest.head? ≠ some x) : Fails (char x) rest :=
  by
  refine fails_satisfy ?_
  cases rest with
  | nil => rfl
  | cons y rest => simpa using h

lemma reads_exactly (xs : List Char) : Reads (exactly xs) xs rest (fun _ => True) := by
  induction xs with
  | nil => exact reads_pure trivial
  | cons x xs ih => exact (reads_char x).one_bind fun _ _ => ih

lemma reads_atEnd : Reads atEnd [] [] (fun _ => True) :=
  fun _ line n => ⟨(), line, n, trivial, rfl⟩

/-! ### Repetitions -/

lemma reads_repeatUpTo_nil (hp : Fails p rest) (n : Nat) :
    Reads (repeatUpTo p n) [] rest (· = []) := by
  cases n with
  | zero => exact reads_pure rfl
  | succ n => exact Fails.orElse_reads hp.bind (reads_pure rfl)

/-- Texts are read one after the other: each of them with what comes after it ahead, until the
parser fails. -/
lemma reads_repeatUpTo {R : ι → α → Prop} {text : ι → List Char} (hend : Fails p rest) :
    ∀ (xs : List ι) (n : Nat), xs.length ≤ n →
      (∀ pre x post, xs = pre ++ x :: post →
        Reads p (text x) (post.flatMap text ++ rest) (R x)) →
      Reads (repeatUpTo p n) (xs.flatMap text) rest (List.Forall₂ R xs) := by
  intro xs
  induction xs with
  | nil =>
      intro n _ _
      exact (reads_repeatUpTo_nil hend n).mono fun as e => e ▸ List.Forall₂.nil
  | cons x xs ih =>
      intro n hn hp
      obtain ⟨n, rfl⟩ : ∃ m, n = m + 1 := ⟨n - 1, by simp at hn; omega⟩
      have hrest := ih n (by simpa using hn) fun pre y post e =>
        hp (x :: pre) y post (by rw [e, List.cons_append])
      refine Reads.orElse (Reads.bind (hp [] x xs rfl) fun a ha => ?_)
      exact hrest.bind_nil fun as has => reads_pure (List.Forall₂.cons ha has)

lemma length_le_flatMap {text : ι → List Char} :
    ∀ xs : List ι, (∀ x ∈ xs, text x ≠ []) → xs.length ≤ (xs.flatMap text).length := by
  intro xs
  induction xs with
  | nil => intro _; simp
  | cons x xs ih =>
      intro h
      have hx : 0 < (text x).length := List.length_pos_iff.2 (h x (by simp))
      have := ih fun y hy => h y (by simp [hy])
      simp only [List.flatMap_cons, List.length_append, List.length_cons]
      omega

/-- A repetition reads texts one after the other, up to a place where its parser fails. -/
theorem reads_many {R : ι → α → Prop} {text : ι → List Char} {xs : List ι}
    (hp : ∀ pre x post, xs = pre ++ x :: post →
      Reads p (text x) (post.flatMap text ++ rest) (R x))
    (hne : ∀ x ∈ xs, text x ≠ []) (hend : Fails p rest) :
    Reads (many p) (xs.flatMap text) rest (List.Forall₂ R xs) := by
  refine reads_get.nil_bind fun c hc => ?_
  have hlen := length_le_flatMap xs hne
  rw [hc]
  exact reads_repeatUpTo hend xs _ (by rw [List.length_append]; omega) hp

lemma reads_many_nil (hend : Fails p rest) : Reads (many p) [] rest (· = []) :=
  reads_get.nil_bind fun _ _ => reads_repeatUpTo_nil hend _

/-- A repetition reads characters as long as they fit. -/
lemma reads_many_chars {good : Char → Bool} (hp : ∀ x tail, good x = true →
      Reads p [x] tail (fun _ => True)) (hcs : ∀ x ∈ cs, good x = true) (hend : Fails p rest) :
    Reads (many p) cs rest (fun _ => True) := by
  have h : Reads (many p) (cs.flatMap fun x => [x]) rest (List.Forall₂ (fun _ _ => True) cs) :=
    reads_many (fun pre x post e => hp x _ (hcs x (by simp [e]))) (by simp) hend
  rw [List.flatMap_singleton'] at h
  exact h.mono fun _ _ => trivial

lemma reads_many1_chars {good : Char → Bool} (hp : ∀ x tail, good x = true →
      Reads p [x] tail (fun _ => True)) (hne : cs ≠ []) (hcs : ∀ x ∈ cs, good x = true)
    (hend : Fails p rest) : Reads (many1 p) cs rest (fun _ => True) := by
  obtain ⟨x, cs, rfl⟩ := List.exists_cons_of_ne_nil hne
  have hmany := reads_many_chars hp (fun y hy => hcs y (List.mem_cons_of_mem _ hy)) hend
  exact (hp x _ (hcs x (by simp))).one_bind fun _ _ =>
    hmany.bind_nil fun _ _ => reads_pure trivial

/-- The characters that a repetition reads are its result. -/
lemma reads_many_satisfy {good : Char → Bool} (hcs : ∀ x ∈ cs, good x = true)
    (hend : rest.head?.any good = false) : Reads (many (satisfy good)) cs rest (· = cs) := by
  have h : Reads (many (satisfy good)) (cs.flatMap fun x => [x]) rest
      (List.Forall₂ (fun x a => a = x) cs) :=
    reads_many (fun pre x post e => reads_satisfy (hcs x (by simp [e]))) (by simp)
      (fails_satisfy hend)
  rw [List.flatMap_singleton'] at h
  exact h.mono fun as has => (List.forall₂_eq_eq_eq ▸ has.flip : as = cs)

lemma reads_many1_satisfy {good : Char → Bool} (hne : cs ≠ [])
    (hcs : ∀ x ∈ cs, good x = true) (hend : rest.head?.any good = false) :
    Reads (many1 (satisfy good)) cs rest (· = cs) := by
  obtain ⟨x, cs, rfl⟩ := List.exists_cons_of_ne_nil hne
  have hmany := reads_many_satisfy (fun y hy => hcs y (List.mem_cons_of_mem _ hy)) hend
  refine (reads_satisfy (hcs x (by simp))).one_bind fun a ha => ?_
  exact hmany.bind_nil fun as has => reads_pure (by rw [ha, has])

lemma Fails.many1 (hp : Fails p cs) : Fails (many1 p) cs := hp.bind

end Pseudocode.Toml.Parser
