/-
# Programs as documents

A program that lacks nothing can be written down: every node becomes a draft that names its kind and
gives its span with four numbers.  What names, parameters and blocks inside a node have for spans is
not written, since they get that of the node; so only neat trees can be written.  Reading the draft
gives the node back.

Together with what is known of the programs that documents describe, they are those that are
complete and neat.

The main results are

* `Document.toNode_draft`: reading the draft of a node gives the node;
* `Document.Outline.describes_iff`: which programs documents describe.
-/
import Pseudocode.Proofs.Grammar

namespace Pseudocode

/-! ### Writing nodes down -/

open Document (Draft)

/-- A draft with a kind and a place. -/
def Document.Draft.written (k : Kind) (span : Span) : Draft :=
  { kind := k.name, span := [span.startLine, span.startCol, span.endLine, span.endCol] }

/-- The name in an occurrence. -/
def Ident.nameOf (i : Option Ident) : String := (i.map Ident.name).getD ""

mutual

/-- A node as a draft. -/
def Node.draft : Node → Draft
  | .missing => {}
  | .pass span => .written .pass span
  | .assignment span target value =>
      { Draft.written .assignment span with target := some target.draft, value := some value.draft }
  | .literal span (.number x) => { Draft.written .eval span with number := some x }
  | .literal span (.bool b) => { Draft.written .eval span with bool := some b }
  | .literal span (.text t) => { Draft.written .eval span with text := some t }
  | .literal span (.unsupported _) => .written .eval span
  | .group span inner => { Draft.written .eval span with value := some inner.draft }
  | .binary span op left right =>
      { Draft.written op span with left := some left.draft, right := some right.draft }
  | .negate span operand => { Draft.written .negate span with operand := some operand.draft }
  | .not span operand => { Draft.written .not span with operand := some operand.draft }
  | .relation span op left right =>
      { Draft.written .relation span with
        op := op, left := some left.draft, right := some right.draft }
  | .identifier span name => { Draft.written .identifier span with name := name }
  | .element span list index =>
      { Draft.written .listElement span with name := Ident.nameOf list, index := some index.draft }
  | .list span items => { Draft.written .list span with items := Node.drafts items }
  | .call span callee args =>
      { Draft.written .functionCall span with
        name := Ident.nameOf callee, args := Node.drafts args }
  | .block body => { Draft.written .block body.span with body := body.drafts }
  | .repeatTimes span count body =>
      { Draft.written .repeatTimes span with count := some count.draft, body := body.drafts }
  | .repeatUntil span cond body =>
      { Draft.written .repeatUntil span with cond := some cond.draft, body := body.drafts }
  | .ifElse span branches =>
      { Draft.written .ifElse span with branches := Branch.drafts branches }
  | .forEach span var source body =>
      { Draft.written .forEach span with
        name := Ident.nameOf var, source := some source.draft, body := body.drafts }
  | .return span value =>
      { Draft.written .return span with
        value := if value.isMissing then none else some value.draft }
  | .procedure decl => decl.draft

def Node.drafts : List Node → List (Option Draft)
  | [] => []
  | n :: rest => some n.draft :: Node.drafts rest

def Block.drafts : Block → List (Option Draft)
  | .missing => []
  | .of _ statements => Node.drafts statements

/-- Branches as drafts, which have the spans of their bodies. -/
def Branch.drafts : List Branch → List (Option Draft)
  | [] => []
  | .of cond body :: rest =>
      let arm := { Draft.written .block body.span with
        cond := if cond.isMissing then none else some cond.draft, body := body.drafts }
      some arm :: Branch.drafts rest

def Procedure.draft : Procedure → Draft
  | .of span name params body =>
      { Draft.written .procedure span with
        name := Ident.nameOf name, params := params.map Ident.nameOf, body := body.drafts }

end

/-- A program as a document. -/
def Program.outline (p : Program) : Document.Outline where
  procedures := p.procedures.map (·.map Procedure.draft)
  statements := Node.drafts p.statements

namespace Document

/-! ### Reading drafts back -/

section

variable {d : Draft} {k : Kind} {span : Span}

/-- The names of the kinds are those by which the kinds are found. -/
lemma kind?_of_kind (hd : d.kind = k.name) (hk : k ∈ Kind.all) : d.kind? = some k := by
  have hall : ∀ k ∈ Kind.all, Kind.ofName? (k.name : ByteString).shown = some k := by decide
  unfold Draft.kind?
  rw [hd]
  exact hall k hk

lemma toNode_of_kind (hd : d.kind = k.name) (hk : k ∈ Kind.all) : d.toNode = d.convert k :=
  toNode_of_kind? (kind?_of_kind hd hk)

lemma location_written
    (hd : d.span = [span.startLine, span.startCol, span.endLine, span.endCol]) :
    d.location = .ok span := by
  unfold Draft.location
  rw [hd]

/-- A child that has to be there is read back. -/
lemma required_draft {what : String} {n : Node} (h : n.draft.toNode = .ok n) :
    required d what (some n.draft) = .ok n := by
  rw [required]
  exact h

lemma optional_none : optional none = .ok .missing := by
  rw [optional]
  rfl

lemma optional_some {n : Node} (h : n.draft.toNode = .ok n) : optional (some n.draft) = .ok n := by
  rw [optional]
  exact h

/-- A child that may be missing is read back. -/
lemma optional_draft {n : Node} (h : n.isMissing = false → n.draft.toNode = .ok n) :
    optional (if n.isMissing then none else some n.draft) = .ok n := by
  cases hn : n.isMissing with
  | false =>
      rw [if_neg Bool.false_ne_true]
      exact optional_some (h hn)
  | true =>
      cases n <;> simp only [Node.isMissing, reduceCtorEq] at hn
      rw [if_pos rfl, optional_none]

lemma isEmpty_drafts (bs : List Branch) : (Branch.drafts bs).isEmpty = bs.isEmpty := by
  cases bs with
  | nil => rfl
  | cons b rest =>
      cases b
      rfl

lemma relation_of_op {op : String} (hd : d.op = op) (h : (Relation.ofText? op).isSome = true) :
    d.relation = .ok op := by
  have hall : ∀ op ∈ Draft.relations, (op : ByteString).shown = op := by decide
  have hshown : d.op.shown = op := by
    rw [hd]
    exact hall op (isSome_ofText?_iff.mp h)
  unfold Draft.relation
  simp [hshown, h]

lemma ident_of_name {i : Ident} (hd : d.name = i.name) (hi : i.isNeat span = true) :
    d.ident span = .ok i := by
  simp only [Ident.isNeat, Bool.and_eq_true, beq_iff_eq, bne_iff_ne] at hi
  unfold Draft.ident
  rw [hd, if_neg hi.2, ← hi.1]

/-- Parameters are read back from their names, since they have the span of the procedure. -/
lemma params_written (params : List (Option Ident)) (hall : params.all Option.isSome = true)
    (hneat : params.all (·.all (·.span == span)) = true) :
    (params.map Ident.nameOf).map (fun p => some (⟨span, p⟩ : Ident)) = params := by
  simp only [List.all_eq_true] at hall hneat
  rw [List.map_map]
  refine (List.map_congr_left fun p hp => ?_).trans (List.map_id params)
  obtain ⟨i, rfl⟩ := Option.isSome_iff_exists.mp (hall p hp)
  have hspan : i.span = span := by simpa using hneat _ hp
  simp [Ident.nameOf, ← hspan]

lemma ok_bind {α β : Type} {x : Except Error α} {f : α → Except Error β} {a : α} {b : β}
    (hx : x = .ok a) (hf : f a = .ok b) : (x >>= f) = .ok b := by
  rw [hx]
  exact hf

lemma ok_unless {α : Type} {p : Prop} [Decidable p] {x y : Except Error α} {a : α} (hp : ¬ p)
    (hy : y = .ok a) : (if p then x else y) = .ok a := by
  rw [if_neg hp]
  exact hy

end

mutual

/-- Reading the draft of a node gives the node. -/
theorem toNode_draft : (n : Node) → n.isComplete = true → n.isNeat = true → n.draft.toNode = .ok n
  | .missing, hc, _ => by simp [Node.isComplete] at hc
  | .pass span, _, _ => by
      rw [toNode_of_kind (k := .pass) rfl (by decide), Draft.convert.eq_def]
      exact ok_bind (location_written rfl) rfl
  | .assignment span target value, hc, hn => by
      simp only [Node.isComplete, Bool.and_eq_true] at hc
      simp only [Node.isNeat, Bool.and_eq_true] at hn
      rw [toNode_of_kind (k := .assignment) rfl (by decide), Draft.convert.eq_def]
      exact ok_bind (location_written rfl) <|
        ok_bind (required_draft (toNode_draft target hc.1.2 hn.1)) <|
        ok_unless (by simp [hc.1.1]) <|
        ok_bind (required_draft (toNode_draft value hc.2 hn.2)) rfl
  | .literal span l, hc, _ => by
      cases l with
      | unsupported code => simp [Node.isComplete, Literal.isSupported] at hc
      | _ =>
          rw [toNode_of_kind (k := .eval) rfl (by decide), Draft.convert.eq_def]
          exact ok_bind (location_written rfl) <| ok_bind optional_none <|
            ok_unless Bool.false_ne_true rfl
  | .group span inner, hc, hn => by
      simp only [Node.isComplete] at hc
      simp only [Node.isNeat] at hn
      rw [toNode_of_kind (k := .eval) rfl (by decide), Draft.convert.eq_def]
      exact ok_bind (location_written rfl) <| ok_bind (optional_some (toNode_draft inner hc hn)) <|
        ok_unless Bool.false_ne_true rfl
  | .binary span op left right, hc, hn => by
      simp only [Node.isComplete, Bool.and_eq_true] at hc
      simp only [Node.isNeat, Bool.and_eq_true] at hn
      have hop := hc.1.1
      simp only [Kind.operators, List.contains_iff_mem, List.mem_cons, List.not_mem_nil,
        or_false] at hop
      rcases hop with rfl | rfl | rfl | rfl | rfl | rfl | rfl
      all_goals
        rw [toNode_of_kind rfl (by decide), Draft.convert.eq_def]
        exact ok_bind (location_written rfl) <|
          ok_bind (required_draft (toNode_draft left hc.1.2 hn.1)) <|
          ok_bind (required_draft (toNode_draft right hc.2 hn.2)) rfl
  | .negate span operand, hc, hn => by
      simp only [Node.isComplete] at hc
      simp only [Node.isNeat] at hn
      rw [toNode_of_kind (k := .negate) rfl (by decide), Draft.convert.eq_def]
      exact ok_bind (location_written rfl) <|
        ok_bind (required_draft (toNode_draft operand hc hn)) rfl
  | .not span operand, hc, hn => by
      simp only [Node.isComplete] at hc
      simp only [Node.isNeat] at hn
      rw [toNode_of_kind (k := .not) rfl (by decide), Draft.convert.eq_def]
      exact ok_bind (location_written rfl) <|
        ok_bind (required_draft (toNode_draft operand hc hn)) rfl
  | .relation span op left right, hc, hn => by
      simp only [Node.isComplete, Bool.and_eq_true] at hc
      simp only [Node.isNeat, Bool.and_eq_true] at hn
      rw [toNode_of_kind (k := .relation) rfl (by decide), Draft.convert.eq_def]
      exact ok_bind (location_written rfl) <| ok_bind (relation_of_op rfl hc.1.1) <|
        ok_bind (required_draft (toNode_draft left hc.1.2 hn.1)) <|
        ok_bind (required_draft (toNode_draft right hc.2 hn.2)) rfl
  | .identifier span name, _, hn => by
      have hneat : (⟨span, name⟩ : Ident).isNeat span = true := by
        simpa [Ident.isNeat, Node.isNeat] using hn
      rw [toNode_of_kind (k := .identifier) rfl (by decide), Draft.convert.eq_def]
      exact ok_bind (location_written rfl) <| ok_bind (ident_of_name rfl hneat) rfl
  | .element span none index, hc, _ => by simp [Node.isComplete] at hc
  | .element span (some list) index, hc, hn => by
      simp only [Node.isComplete, Bool.and_eq_true] at hc
      simp only [Node.isNeat, Bool.and_eq_true, Option.all_some] at hn
      rw [toNode_of_kind (k := .listElement) rfl (by decide), Draft.convert.eq_def]
      exact ok_bind (location_written rfl) <| ok_bind (ident_of_name rfl hn.1) <|
        ok_bind (required_draft (toNode_draft index hc.2 hn.2)) rfl
  | .list span items, hc, hn => by
      simp only [Node.isComplete] at hc
      simp only [Node.isNeat] at hn
      rw [toNode_of_kind (k := .list) rfl (by decide), Draft.convert.eq_def]
      exact ok_bind (location_written rfl) <| ok_bind (nodes_drafts items hc hn) rfl
  | .call span none args, hc, _ => by simp [Node.isComplete] at hc
  | .call span (some callee) args, hc, hn => by
      simp only [Node.isComplete, Bool.and_eq_true] at hc
      simp only [Node.isNeat, Bool.and_eq_true, Option.all_some] at hn
      rw [toNode_of_kind (k := .functionCall) rfl (by decide), Draft.convert.eq_def]
      exact ok_bind (location_written rfl) <| ok_bind (ident_of_name rfl hn.1) <|
        ok_bind (nodes_drafts args hc.2 hn.2) rfl
  | .block body, hc, hn => by
      simp only [Node.isComplete] at hc
      simp only [Node.isNeat] at hn
      rw [toNode_of_kind (k := .block) rfl (by decide), Draft.convert.eq_def]
      obtain ⟨ss, hss, hbody⟩ := nodes_body body hc hn
      exact ok_bind (location_written rfl) <| ok_bind hss (by rw [hbody]; rfl)
  | .repeatTimes span count body, hc, hn => by
      simp only [Node.isComplete, Bool.and_eq_true] at hc
      simp only [Node.isNeat, Bool.and_eq_true] at hn
      rw [toNode_of_kind (k := .repeatTimes) rfl (by decide), Draft.convert.eq_def]
      obtain ⟨ss, hss, hbody⟩ := nodes_body body hc.2 hn.2
      exact ok_bind (location_written rfl) <|
        ok_bind (required_draft (toNode_draft count hc.1 hn.1)) <| ok_bind hss (by rw [hbody]; rfl)
  | .repeatUntil span cond body, hc, hn => by
      simp only [Node.isComplete, Bool.and_eq_true] at hc
      simp only [Node.isNeat, Bool.and_eq_true] at hn
      rw [toNode_of_kind (k := .repeatUntil) rfl (by decide), Draft.convert.eq_def]
      obtain ⟨ss, hss, hbody⟩ := nodes_body body hc.2 hn.2
      exact ok_bind (location_written rfl) <|
        ok_bind (required_draft (toNode_draft cond hc.1 hn.1)) <| ok_bind hss (by rw [hbody]; rfl)
  | .ifElse span branches, hc, hn => by
      simp only [Node.isComplete] at hc
      simp only [Node.isNeat, Bool.and_eq_true] at hn
      rw [toNode_of_kind (k := .ifElse) rfl (by decide), Draft.convert.eq_def]
      have hsome : ¬ (Branch.drafts branches).isEmpty = true := by
        rw [isEmpty_drafts]
        simpa using hn.1
      exact ok_bind (location_written rfl) <| ok_unless hsome <|
        ok_bind (arms_drafts branches hc hn.2) rfl
  | .forEach span none source body, hc, _ => by simp [Node.isComplete] at hc
  | .forEach span (some var) source body, hc, hn => by
      simp only [Node.isComplete, Bool.and_eq_true] at hc
      simp only [Node.isNeat, Bool.and_eq_true, Option.all_some] at hn
      rw [toNode_of_kind (k := .forEach) rfl (by decide), Draft.convert.eq_def]
      obtain ⟨ss, hss, hbody⟩ := nodes_body body hc.2 hn.2
      exact ok_bind (location_written rfl) <| ok_bind (ident_of_name rfl hn.1.1) <|
        ok_bind (required_draft (toNode_draft source hc.1.2 hn.1.2)) <|
        ok_bind hss (by rw [hbody]; rfl)
  | .return span value, hc, hn => by
      simp only [Node.isComplete, Bool.or_eq_true] at hc
      simp only [Node.isNeat] at hn
      rw [toNode_of_kind (k := .return) rfl (by decide), Draft.convert.eq_def]
      have hvalue : value.isMissing = false → value.draft.toNode = .ok value := fun hm =>
        toNode_draft value (by simpa [hm] using hc) hn
      exact ok_bind (location_written rfl) <| ok_bind (optional_draft hvalue) rfl
  | .procedure decl, hc, hn => by
      simp only [Node.isComplete] at hc
      simp only [Node.isNeat] at hn
      rw [toNode_of_kind (k := .procedure) (by cases decl; rfl) (by decide)]
      exact convert_draft decl hc hn

theorem nodes_drafts : (ns : List Node) → Node.areComplete ns = true → Node.areNeat ns = true →
    nodes (Node.drafts ns) = .ok ns
  | [], _, _ => by
      rw [Node.drafts, nodes]
      rfl
  | n :: rest, hc, hn => by
      simp only [Node.areComplete, Bool.and_eq_true] at hc
      simp only [Node.areNeat, Bool.and_eq_true] at hn
      rw [Node.drafts, nodes_cons]
      exact ok_bind (toNode_draft n hc.1 hn.1) <| ok_bind (nodes_drafts rest hc.2 hn.2) rfl

theorem nodes_body {owner : Span} : (b : Block) → b.isComplete = true → b.isNeat owner = true →
    ∃ ss, nodes b.drafts = .ok ss ∧ b = .of owner ss
  | .missing, hc, _ => by simp [Block.isComplete] at hc
  | .of span statements, hc, hn => by
      simp only [Block.isComplete] at hc
      simp only [Block.isNeat, Bool.and_eq_true, beq_iff_eq] at hn
      exact ⟨statements, nodes_drafts statements hc hn.2, by rw [hn.1]⟩

theorem arms_drafts {parent : Draft} : (bs : List Branch) → Branch.areComplete bs = true →
    Branch.areNeat bs = true → arms parent (Branch.drafts bs) = .ok bs
  | [], _, _ => by
      rw [Branch.drafts, arms]
      rfl
  | .of cond body :: rest, hc, hn => by
      simp only [Branch.areComplete, Bool.and_eq_true, Bool.or_eq_true] at hc
      simp only [Branch.areNeat, Bool.and_eq_true, Bool.or_eq_true] at hn
      obtain ⟨ss, hss, hbody⟩ := nodes_body body hc.1.2 hn.1.2
      have hcond : cond.isMissing = false → cond.draft.toNode = .ok cond := fun hm =>
        toNode_draft cond (by simpa [hm] using hc.1.1) hn.1.1.2
      have hlast : ¬ (cond.isMissing && !(Branch.drafts rest).isEmpty) = true := by
        have helse := hn.1.1.1
        rw [isEmpty_drafts]
        cases hm : cond.isMissing <;> simp [hm] at helse ⊢
        simp [helse]
      rw [Branch.drafts, arms, Draft.arm]
      refine ok_bind (a := .of cond body) ?_ (ok_bind (arms_drafts rest hc.2 hn.2) rfl)
      exact ok_bind (location_written rfl) <| ok_bind (optional_draft hcond) <|
        ok_unless hlast <| ok_bind hss (by rw [hbody]; rfl)

theorem convert_draft : (p : Procedure) → p.isComplete = true → p.isNeat = true →
    p.draft.convert .procedure = .ok (.procedure p)
  | .of _ none _ _, hc, _ => by simp [Procedure.isComplete] at hc
  | .of span (some name) params body, hc, hn => by
      simp only [Procedure.isComplete, Bool.and_eq_true] at hc
      simp only [Procedure.isNeat, Bool.and_eq_true, Option.all_some] at hn
      obtain ⟨ss, hss, hbody⟩ := nodes_body body hc.2 hn.2
      have hparams : (params.map Ident.nameOf).map (fun p => some (⟨span, p⟩ : Ident)) = params :=
        params_written params hc.1.2 hn.1.2
      rw [Draft.convert.eq_def]
      refine ok_bind (location_written rfl) <| ok_bind (ident_of_name rfl hn.1.1) <|
        ok_bind hss ?_
      change Except.ok (Node.procedure (.of span (some name)
        ((params.map Ident.nameOf).map fun p => some (⟨span, p⟩ : Ident)) (.of span ss))) = _
      rw [hparams, hbody]

end

lemma toProcedure_draft {p : Procedure} (hc : p.isComplete = true) (hn : p.isNeat = true) :
    p.draft.toProcedure = .ok p := by
  have hkind : p.draft.kind? = some .procedure :=
    kind?_of_kind (by cases p; rfl) (by decide)
  unfold Draft.toProcedure
  refine ok_unless (fun h => ?_) (ok_bind (convert_draft p hc hn) rfl)
  simp only [Bool.and_eq_true, bne_iff_ne] at h
  exact h.2 hkind

lemma mapM_drafts {ps : List (Option Procedure)}
    (hc : ∀ q ∈ ps, q.any Procedure.isComplete = true)
    (hn : ∀ q ∈ ps, q.all Procedure.isNeat = true) :
    ∃ qs, ((ps.map (·.map Procedure.draft)).mapM fun
        | none => throw { reason := .emptyProcedure }
        | some d => Draft.toProcedure d : Except Error (List Procedure)) = .ok qs ∧
      qs.map some = ps := by
  induction ps with
  | nil => exact ⟨[], rfl, rfl⟩
  | cons q ps ih =>
      obtain ⟨hcq, hcs⟩ := List.forall_mem_cons.mp hc
      obtain ⟨hnq, hns⟩ := List.forall_mem_cons.mp hn
      obtain ⟨qs, hqs, rfl⟩ := ih hcs hns
      cases q with
      | none => simp at hcq
      | some q =>
          rw [Option.any_some] at hcq
          rw [Option.all_some] at hnq
          refine ⟨q :: qs, ?_, rfl⟩
          rw [List.map_cons, List.mapM_cons]
          exact ok_bind (toProcedure_draft hcq hnq) (ok_bind hqs rfl)

/-- Reading the document of a program gives the program. -/
theorem toProgram_outline {p : Program} (hc : p.isComplete = true) (hn : p.isNeat = true) :
    p.outline.toProgram = .ok p := by
  simp only [Program.isComplete, Bool.and_eq_true, List.all_eq_true] at hc
  simp only [Program.isNeat, Bool.and_eq_true, List.all_eq_true] at hn
  obtain ⟨qs, hqs, hps⟩ := mapM_drafts hc.2 hn.2
  refine ok_bind hqs (ok_bind (nodes_drafts p.statements hc.1 hn.1) ?_)
  rw [hps]
  rfl

/-- Documents describe the programs that are complete and neat. -/
theorem Outline.describes_iff (p : Program) :
    (∃ o : Outline, o.toProgram = .ok p) ↔ p.isComplete = true ∧ p.isNeat = true := by
  constructor
  · rintro ⟨o, ho⟩
    exact ⟨o.isComplete_toProgram ho, ((judged_toProgram o).ok p ho).2⟩
  · rintro ⟨hc, hn⟩
    exact ⟨p.outline, toProgram_outline hc hn⟩

/-- The names of parameters may be empty, unlike other names. -/
theorem Outline.describes_unnamed_parameter :
    ¬ ∀ (o : Outline) (p : Program), o.toProgram = .ok p →
      ∀ q, some q ∈ p.procedures → ∀ i, some i ∈ q.params → i.name ≠ "" := by
  intro h
  let span : Span := .point 2 5
  let q : Procedure := .of span (some ⟨span, "f"⟩) [some ⟨span, ""⟩] (.of span [])
  let p : Program := { procedures := [some q] }
  have hread : p.outline.toProgram = .ok p := toProgram_outline (by decide) (by decide)
  exact h _ p hread q List.mem_cons_self ⟨span, ""⟩ List.mem_cons_self rfl

end Document

end Pseudocode
