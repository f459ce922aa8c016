/-
# The grammar of documents

A document describes a program if each of its drafts suits the kind that it names, and the children
that this kind uses are drafts of nodes in turn.  What a kind uses and what it asks for is said here
kind by kind, apart from the order in which a conversion looks at it.  The other fields of a draft
are ignored.

A document that describes no program is refused with an error that tells the truth: it reports a
flaw of a draft that the document uses, or of a branch or target of such a draft, and has its place.
Only an empty entry in a list has no place.

The nodes that drafts become are neat: they do not lack names, and the names, parameters and blocks
in them have the spans of the nodes that they belong to.

The main results are

* `Document.judged_convert`: what a conversion finds of a draft;
* `Document.Outline.toProgram_accepts`: what has been said above.
-/
import Pseudocode.Proofs.Complete

namespace Pseudocode

/-! ### Neat trees -/

/-- Whether a name has the span of the node that it belongs to, and is not empty. -/
def Ident.isNeat (owner : Span) (i : Ident) : Bool := i.span == owner && i.name != ""

mutual

/-- Whether the names in a tree are not empty, its conditionals have branches of which only the last
may lack a condition, and its names, parameters and blocks have the spans of the nodes that they
belong to. -/
def Node.isNeat : Node → Bool
  | .missing | .pass _ | .literal _ _ => true
  | .assignment _ target value => target.isNeat && value.isNeat
  | .group _ inner => inner.isNeat
  | .binary _ _ left right => left.isNeat && right.isNeat
  | .negate _ operand => operand.isNeat
  | .not _ operand => operand.isNeat
  | .relation _ _ left right => left.isNeat && right.isNeat
  | .identifier _ name => name != ""
  | .element span list index => list.all (Ident.isNeat span) && index.isNeat
  | .list _ items => Node.areNeat items
  | .call span callee args => callee.all (Ident.isNeat span) && Node.areNeat args
  | .block body => body.isNeat body.span
  | .repeatTimes span count body => count.isNeat && body.isNeat span
  | .repeatUntil span cond body => cond.isNeat && body.isNeat span
  | .ifElse _ branches => !branches.isEmpty && Branch.areNeat branches
  | .forEach span var source body =>
      var.all (Ident.isNeat span) && source.isNeat && body.isNeat span
  | .return _ value => value.isNeat
  | .procedure decl => decl.isNeat

def Node.areNeat : List Node → Bool
  | [] => true
  | n :: rest => n.isNeat && Node.areNeat rest

/-- Whether a block has the span of the node that it belongs to, and its statements are neat. -/
def Block.isNeat (owner : Span) : Block → Bool
  | .missing => true
  | .of span statements => span == owner && Node.areNeat statements

def Branch.areNeat : List Branch → Bool
  | [] => true
  | .of cond body :: rest =>
      (!cond.isMissing || rest.isEmpty) && cond.isNeat && body.isNeat body.span &&
        Branch.areNeat rest

/-- Parameters have the span of their procedure, but their names are not looked at. -/
def Procedure.isNeat : Procedure → Bool
  | .of span name params body =>
      name.all (Ident.isNeat span) && params.all (·.all (·.span == span)) && body.isNeat span

end

def Program.isNeat (p : Program) : Bool :=
  Node.areNeat p.statements && p.procedures.all (·.all Procedure.isNeat)

/-- Whether nodes of a kind have a name. -/
def Kind.isNamed : Kind → Bool
  | .identifier | .listElement | .functionCall | .forEach | .procedure => true
  | _ => false

namespace Document

/-! ### What a kind uses and asks for -/

namespace Draft

variable (d : Draft)

/-- The kind that a draft names, if there is such a kind. -/
def kind? : Option Kind := Kind.ofName? d.kind.shown

/-- Whether the place of a node is left out or has two or four numbers. -/
def HasSpan : Prop := d.span.length = 0 ∨ d.span.length = 2 ∨ d.span.length = 4

/-- The children that nodes of a kind have to have, with what they are called. -/
def parts : Kind → List (String × Option Draft)
  | .assignment => [("a target", d.target), ("a value", d.value)]
  | .add | .sub | .mul | .div | .mod | .and | .or | .relation =>
      [("a left operand", d.left), ("a right operand", d.right)]
  | .negate | .not => [("an operand", d.operand)]
  | .listElement => [("an index", d.index)]
  | .repeatTimes => [("a count", d.count)]
  | .repeatUntil => [("a condition", d.cond)]
  | .forEach => [("a source list", d.source)]
  | _ => []

/-- The branches of a conditional, as far as they are there. -/
def arms : List Draft := d.branches.filterMap id

/-- The children that nodes of a kind may have or not. -/
def options : Kind → List (Option Draft)
  | .eval | .return => [d.value]
  | .ifElse => d.arms.map (·.cond)
  | _ => []

/-- The entries in the lists that nodes of a kind have. -/
def entries : Kind → List (Option Draft)
  | .list => d.items
  | .functionCall => d.args
  | .block | .repeatTimes | .repeatUntil | .forEach | .procedure => d.body
  | .ifElse => d.arms.flatMap (·.body)
  | _ => []

/-- All children that a kind uses. -/
def children (k : Kind) : List (Option Draft) :=
  (d.parts k).map (·.2) ++ d.options k ++ d.entries k

/-- Whether a draft can be that of a target. -/
def IsTarget : Prop := d.kind? = some .identifier ∨ d.kind? = some .listElement

/-- The six operators of relations. -/
def relations : List String := ["==", "!=", "<", "<=", ">", ">="]

/-- What some kinds ask for besides names and children. -/
def Special : Kind → Prop
  | .assignment => ∀ t, d.target = some t → t.IsTarget
  | .relation => d.op.shown ∈ relations
  | .eval => d.contents = 1
  | .ifElse => d.branches ≠ [] ∧ none ∉ d.branches ∧ (∀ b ∈ d.arms, b.HasSpan) ∧
      ∀ b, some b ∈ d.branches.dropLast → b.cond ≠ none
  | _ => True

/-- What a kind asks for, apart from what its children have to be. -/
structure Meets (k : Kind) : Prop where
  span : d.HasSpan
  name : k.isNamed = true → d.name ≠ ""
  parts : ∀ what, (what, none) ∉ d.parts k
  entries : none ∉ d.entries k
  special : d.Special k

/-- Whether a draft is that of a node of a kind. -/
inductive Conforms : Draft → Kind → Prop where
  | intro {d : Draft} {k : Kind} (meets : d.Meets k)
      (known : ∀ c, some c ∈ d.children k → c.kind? ≠ none)
      (children : ∀ c j, some c ∈ d.children k → c.kind? = some j → c.Conforms j) :
      Conforms d k

/-- Whether a draft is that of a node. -/
def IsNode : Prop := ∃ k, d.kind? = some k ∧ d.Conforms k

/-- Whether a draft is that of a procedure, for which the kind may be left out. -/
def IsProcedure : Prop :=
  (d.kind.isEmpty = true ∨ d.kind? = some .procedure) ∧ d.Conforms .procedure

variable {d} {k : Kind}

lemma conforms_iff : d.Conforms k ↔ d.Meets k ∧ ∀ c, some c ∈ d.children k → c.IsNode := by
  constructor
  · rintro ⟨meets, known, children⟩
    refine ⟨meets, fun c hc => ?_⟩
    obtain ⟨j, hj⟩ := Option.ne_none_iff_exists'.mp (known c hc)
    exact ⟨j, hj, children c j hc hj⟩
  · rintro ⟨meets, children⟩
    refine .intro meets (fun c hc => ?_) fun c j hc hj => ?_
    · obtain ⟨j, hj, -⟩ := children c hc
      simp [hj]
    · obtain ⟨i, hi, hconforms⟩ := children c hc
      cases hi.symm.trans hj
      exact hconforms

/-- A draft conforms if it has what the kind asks for and all that the kind uses are nodes. -/
lemma conforms_of (span : d.HasSpan) (name : k.isNamed = true → d.name ≠ "")
    (parts : ∀ part ∈ d.parts k, ∃ c, part.2 = some c ∧ c.IsNode)
    (options : ∀ c, some c ∈ d.options k → c.IsNode)
    (entries : ∀ child ∈ d.entries k, ∃ c, child = some c ∧ c.IsNode)
    (special : d.Special k) : d.Conforms k := by
  refine conforms_iff.mpr ⟨⟨span, name, fun what hpart => ?_, fun hnone => ?_, special⟩,
    fun c hc => ?_⟩
  · obtain ⟨c, hc, -⟩ := parts _ hpart
    cases hc
  · obtain ⟨c, hc, -⟩ := entries _ hnone
    cases hc
  · simp only [children, List.mem_append, List.mem_map] at hc
    rcases hc with (⟨part, hpart, hc⟩ | hc) | hc
    · obtain ⟨c', hc', hnode⟩ := parts _ hpart
      cases hc.symm.trans hc'
      exact hnode
    · exact options c hc
    · obtain ⟨c', hc', hnode⟩ := entries _ hc
      cases hc'
      exact hnode

lemma mem_arms {b : Draft} : b ∈ d.arms ↔ some b ∈ d.branches := by
  simp [arms]

end Draft

/-- The grammar of documents. -/
structure Outline.IsProper (o : Outline) : Prop where
  procedures : ∀ child ∈ o.procedures, ∃ d, child = some d ∧ d.IsProcedure
  statements : ∀ child ∈ o.statements, ∃ d, child = some d ∧ d.IsNode

/-! ### What errors report -/

mutual

/-- The document has the draft in the place of a node. -/
inductive Outline.Places (o : Outline) : Draft → Prop where
  | statement {d : Draft} (h : some d ∈ o.statements) : o.Places d
  | child {d c : Draft} {k : Kind} (h : o.Uses d k) (hc : some c ∈ d.children k) : o.Places c

/-- The document uses the draft for a node of the kind. -/
inductive Outline.Uses (o : Outline) : Draft → Kind → Prop where
  | procedure {d : Draft} (h : some d ∈ o.procedures) : o.Uses d .procedure
  | node {d : Draft} {k : Kind} (h : o.Places d) (hk : d.kind? = some k) : o.Uses d k

end

/-- The document has the draft in the place of a node, a procedure or a branch. -/
inductive Outline.Mentions (o : Outline) (d : Draft) : Prop where
  | node (h : o.Places d)
  | procedure (h : some d ∈ o.procedures)
  | arm {c : Draft} (h : o.Uses c .ifElse) (hd : d ∈ c.arms)

/-- No list that the document uses has an empty entry. -/
structure Outline.IsWhole (o : Outline) : Prop where
  procedures : none ∉ o.procedures
  statements : none ∉ o.statements
  entries : ∀ d k, o.Uses d k → none ∉ d.entries k

/-- What an error reports about a draft that is used for a node of a kind. -/
inductive Draft.Flaw (d : Draft) : Kind → Error → Prop where
  | span {k : Kind} (h : ¬ d.HasSpan) : d.Flaw k (d.error (.spanLength d.span.length))
  | name {k : Kind} (hk : k.isNamed = true) (h : d.name = "") :
      d.Flaw k (d.error (.lacks d.kind.shown "a name"))
  | part {k : Kind} {what : String} (h : (what, none) ∈ d.parts k) :
      d.Flaw k (d.error (.lacks d.kind.shown what))
  | entry {k : Kind} (h : none ∈ d.entries k) : d.Flaw k { reason := .emptyNode }
  | target {t : Draft} {j : Kind} (ht : d.target = some t) (hj : t.kind? = some j)
      (h : ¬ t.IsTarget) : d.Flaw .assignment (t.error (.badTarget j.name))
  | relation (h : d.op.shown ∉ relations) : d.Flaw .relation (d.error (.unknownRelation d.op))
  | content (h : d.contents ≠ 1) : d.Flaw .eval (d.error .notOneContent)
  | noBranch (h : d.branches = []) : d.Flaw .ifElse (d.error .noBranch)
  | emptyBranch (h : none ∈ d.branches) : d.Flaw .ifElse (d.error .emptyBranch)
  | armSpan {b : Draft} (hb : b ∈ d.arms) (h : ¬ b.HasSpan) :
      d.Flaw .ifElse (b.error (.spanLength b.span.length))
  | elseNotLast {b : Draft} (hb : some b ∈ d.branches.dropLast) (h : b.cond = none) :
      d.Flaw .ifElse (b.error .elseNotLast)

/-- What an error reports about a document. -/
inductive Outline.Blames (o : Outline) : Error → Prop where
  | emptyProcedure (h : none ∈ o.procedures) : o.Blames { reason := .emptyProcedure }
  | notAProcedure {d : Draft} (h : some d ∈ o.procedures) (hkind : d.kind.isEmpty = false)
      (hk : d.kind? ≠ some .procedure) : o.Blames (d.error (.notAProcedure d.kind))
  | emptyStatement (h : none ∈ o.statements) : o.Blames { reason := .emptyNode }
  | unknown {d : Draft} (h : o.Places d) (hk : d.kind? = none) :
      o.Blames (d.error (.unknownKind d.kind))
  | flaw {d : Draft} {k : Kind} {e : Error} (h : o.Uses d k) (hf : d.Flaw k e) : o.Blames e

lemma Draft.Flaw.not_meets {d : Draft} {k : Kind} {e : Error} (h : d.Flaw k e) : ¬ d.Meets k := by
  intro hm
  cases h with
  | span h => exact h hm.span
  | name hk h => exact hm.name hk h
  | part h => exact hm.parts _ h
  | entry h => exact hm.entries h
  | target ht _ h => exact h (hm.special _ ht)
  | relation h => exact h hm.special
  | content h => exact h hm.special
  | noBranch h => exact hm.special.1 h
  | emptyBranch h => exact hm.special.2.1 h
  | armSpan hb h => exact h (hm.special.2.2.1 _ hb)
  | elseNotLast hb h => exact hm.special.2.2.2 _ hb h

mutual

lemma Outline.IsProper.isNode {o : Outline} {d : Draft} (ho : o.IsProper) :
    o.Places d → d.IsNode
  | .statement h => by
      obtain ⟨d', hd, hnode⟩ := ho.statements _ h
      cases hd
      exact hnode
  | .child h hc => (Draft.conforms_iff.mp (ho.conforms h)).2 _ hc

lemma Outline.IsProper.conforms {o : Outline} {d : Draft} {k : Kind} (ho : o.IsProper) :
    o.Uses d k → d.Conforms k
  | .procedure h => by
      obtain ⟨d', hd, -, hconforms⟩ := ho.procedures _ h
      cases hd
      exact hconforms
  | .node h hk => by
      obtain ⟨j, hj, hconforms⟩ := ho.isNode h
      cases hk.symm.trans hj
      exact hconforms

end

section

variable {o : Outline} {e : Error}

/-- There is nothing to report about a proper document. -/
lemma Outline.IsProper.not_blames (ho : o.IsProper) : ¬ o.Blames e := by
  intro h
  cases h with
  | emptyProcedure h =>
      obtain ⟨d, hd, -⟩ := ho.procedures _ h
      cases hd
  | @notAProcedure d h hkind hk =>
      obtain ⟨d', hd, hprocedure, -⟩ := ho.procedures _ h
      cases hd
      rcases hprocedure with hempty | hprocedure
      · simp [hempty] at hkind
      · exact hk hprocedure
  | emptyStatement h =>
      obtain ⟨d, hd, -⟩ := ho.statements _ h
      cases hd
  | unknown h hk =>
      obtain ⟨j, hj, -⟩ := ho.isNode h
      simp [hk] at hj
  | flaw h hf => exact hf.not_meets (Draft.conforms_iff.mp (ho.conforms h)).1

/-- An error has the place of a draft in the document, unless it is that of an empty entry. -/
lemma Outline.Blames.located (h : o.Blames e) (hw : o.IsWhole) :
    ∃ d, o.Mentions d ∧ e.line = d.line ∧ e.column = d.column := by
  have hused : ∀ {d : Draft} {k : Kind}, o.Uses d k → o.Mentions d := by
    intro d k h
    cases h with
    | procedure h => exact .procedure h
    | node h _ => exact .node h
  cases h with
  | emptyProcedure h => exact absurd h hw.procedures
  | notAProcedure h _ _ => exact ⟨_, .procedure h, rfl, rfl⟩
  | emptyStatement h => exact absurd h hw.statements
  | unknown h _ => exact ⟨_, .node h, rfl, rfl⟩
  | flaw h hf =>
      cases hf with
      | entry hnone => exact absurd hnone (hw.entries _ _ h)
      | target ht _ _ =>
          exact ⟨_, .node (.child h (by simp [Draft.children, Draft.parts, ht])), rfl, rfl⟩
      | armSpan hb _ => exact ⟨_, .arm h hb, rfl, rfl⟩
      | elseNotLast hb _ =>
          exact ⟨_, .arm h (Draft.mem_arms.mpr (List.dropLast_subset _ hb)), rfl, rfl⟩
      | _ => exact ⟨_, hused h, rfl, rfl⟩

end

/-! ### What conversions find -/

/-- If a conversion succeeds it has a result like this, and if it fails an error like that. -/
structure Judged {α : Type} (x : Except Error α) (blames : Error → Prop) (finds : α → Prop) :
    Prop where
  ok : ∀ a, x = .ok a → finds a
  error : ∀ e, x = .error e → blames e

namespace Judged

variable {α β : Type} {x : Except Error α} {f : α → Except Error β} {blames blames' : Error → Prop}
  {finds finds' : α → Prop} {finds₂ : β → Prop} {a : α} {e : Error}

lemma of_ok (h : finds a) : Judged (.ok a) blames finds :=
  ⟨fun _ ha => Except.ok.inj ha ▸ h, fun _ he => nomatch he⟩

lemma of_error (h : blames e) : Judged (.error e) blames finds :=
  ⟨fun _ ha => (nomatch ha), fun _ he => Except.error.inj he ▸ h⟩

lemma mono (h : Judged x blames finds) (hb : ∀ e, blames e → blames' e)
    (hf : ∀ a, finds a → finds' a) : Judged x blames' finds' :=
  ⟨fun a ha => hf a (h.ok a ha), fun e he => hb e (h.error e he)⟩

lemma bind (h : Judged x blames finds) (hf : ∀ a, finds a → Judged (f a) blames finds₂) :
    Judged (x >>= f) blames finds₂ := by
  cases x with
  | error e => exact of_error (h.error e rfl)
  | ok a => exact hf a (h.ok a rfl)

/-- A check that throws an error unless a condition holds. -/
lemma guard {p : Prop} [Decidable p] {rest : Except Error β} (hp : p → blames e)
    (hrest : ¬ p → Judged rest blames finds₂) :
    Judged (if p then .error e else rest) blames finds₂ := by
  split
  · rename_i h
    exact of_error (hp h)
  · rename_i h
    exact hrest h

end Judged

/-- A draft as a node of the kind that it names. -/
def Draft.toNode (d : Draft) : Except Error Node := do d.convert (← d.knownKind)

/-- What a node has from its draft. -/
structure Draft.Becomes (d : Draft) (n : Node) : Prop where
  node : d.IsNode
  kind : n.kind? = d.kind?
  neat : n.isNeat = true

/-- An error reports what is wrong with any document that has the draft in the place of a node. -/
def Draft.Spoils (d : Draft) (e : Error) : Prop := ∀ o : Outline, o.Places d → o.Blames e

/-- An error reports what is wrong with any document that uses the draft for a node of the kind. -/
def Draft.SpoilsAs (d : Draft) (k : Kind) (e : Error) : Prop :=
  ∀ o : Outline, o.Uses d k → o.Blames e

section

variable {d : Draft} {k : Kind}

lemma Draft.Flaw.spoils {e : Error} (h : d.Flaw k e) : d.SpoilsAs k e := fun _ hd => .flaw hd h

lemma judged_location {blames : Error → Prop}
    (h : ¬ d.HasSpan → blames (d.error (.spanLength d.span.length))) :
    Judged d.location blames fun _ => d.HasSpan := by
  unfold Draft.location
  split
  · rename_i hspan
    exact .of_ok (.inl (by rw [hspan]; rfl))
  · rename_i hspan
    exact .of_ok (.inr (.inl (by rw [hspan]; rfl)))
  · rename_i hspan
    exact .of_ok (.inr (.inr (by rw [hspan]; rfl)))
  · rename_i h₀ h₂ h₄
    refine .of_error (h fun hspan => ?_)
    rcases hspan with hspan | hspan | hspan
    · exact h₀ (List.length_eq_zero_iff.mp hspan)
    · match hs : d.span, hspan with
      | [line, col], _ => exact h₂ line col hs
    · match hs : d.span, hspan with
      | [line, col, endLine, endCol], _ => exact h₄ line col endLine endCol hs

lemma judged_ident (hk : k.isNamed = true) (span : Span) :
    Judged (d.ident span) (d.SpoilsAs k) fun i => i = ⟨span, d.name⟩ ∧ d.name ≠ "" := by
  unfold Draft.ident
  exact .guard (fun h => (Draft.Flaw.name hk h).spoils) fun h => .of_ok ⟨rfl, h⟩

/-- The operators of relations are those that stand for one. -/
lemma isSome_ofText?_iff {op : String} :
    (Relation.ofText? op).isSome = true ↔ op ∈ Draft.relations := by
  constructor
  · intro h
    unfold Relation.ofText? at h
    split at h <;> simp_all [Draft.relations]
  · intro h
    simp only [Draft.relations, List.mem_cons, List.not_mem_nil, or_false] at h
    rcases h with rfl | rfl | rfl | rfl | rfl | rfl <;> rfl

lemma judged_relation :
    Judged d.relation (d.SpoilsAs .relation) fun _ => d.op.shown ∈ Draft.relations := by
  unfold Draft.relation
  dsimp only
  split
  · rename_i h
    exact .of_ok (isSome_ofText?_iff.mp h)
  · rename_i h
    exact .of_error (Draft.Flaw.relation fun hop => h (isSome_ofText?_iff.mpr hop)).spoils

lemma nodes_cons (c : Draft) (rest : List (Option Draft)) :
    nodes (some c :: rest) = c.toNode >>= fun n => nodes rest >>= fun ns => .ok (n :: ns) := by
  rw [nodes, Draft.toNode, bind_assoc]
  rfl

variable {children : List (Option Draft)} {blames : Error → Prop}

lemma judged_nodes (hnodes : ∀ c, some c ∈ children → Judged c.toNode blames c.Becomes)
    (hnone : none ∈ children → blames { reason := .emptyNode }) :
    Judged (nodes children) blames fun ns =>
      (∀ child ∈ children, ∃ c, child = some c ∧ c.IsNode) ∧ Node.areNeat ns = true := by
  induction children with
  | nil =>
      rw [nodes]
      exact .of_ok ⟨by simp, rfl⟩
  | cons child rest ih =>
      cases child with
      | none =>
          rw [nodes]
          exact .of_error (hnone List.mem_cons_self)
      | some d =>
          rw [nodes_cons]
          refine (hnodes d List.mem_cons_self).bind fun n hn => ?_
          refine (ih (fun c hc => hnodes c (List.mem_cons_of_mem _ hc))
            fun h => hnone (List.mem_cons_of_mem _ h)).bind fun ns hns => .of_ok ?_
          exact ⟨List.forall_mem_cons.mpr ⟨⟨d, rfl, hn.node⟩, hns.1⟩,
            by simp [Node.areNeat, hn.neat, hns.2]⟩

/-- The children that a draft uses for a kind become nodes. -/
def Draft.ChildrenJudged (d : Draft) (k : Kind) : Prop :=
  ∀ c, some c ∈ d.children k → Judged c.toNode c.Spoils c.Becomes

/-- What is wrong with a child is wrong with the draft that uses it. -/
lemma Draft.ChildrenJudged.child (h : d.ChildrenJudged k) {c : Draft}
    (hc : some c ∈ d.children k) : Judged c.toNode (d.SpoilsAs k) c.Becomes :=
  (h c hc).mono (fun _ he o ho => he o (.child ho hc)) fun _ hn => hn

lemma judged_required (h : d.ChildrenJudged k) {what : String} {child : Option Draft}
    (hpart : (what, child) ∈ d.parts k) :
    Judged (required d what child) (d.SpoilsAs k) fun n => ∃ c, child = some c ∧ c.Becomes n := by
  cases child with
  | none =>
      rw [required]
      exact .of_error (Draft.Flaw.part hpart).spoils
  | some c =>
      rw [required]
      have hc : some c ∈ d.children k := by
        simp only [Draft.children, List.mem_append, List.mem_map]
        exact .inl (.inl ⟨_, hpart, rfl⟩)
      exact (h.child hc).mono (fun _ he => he) fun _ hn => ⟨c, rfl, hn⟩

/-- A node has no kind only if it is missing. -/
lemma Draft.Becomes.not_missing {n : Node} (h : d.Becomes n) : n.isMissing = false := by
  obtain ⟨k, hk, -⟩ := h.node
  cases n <;> first | rfl | simp [Node.kind?, ← h.kind] at hk

/-- What is found of a child that may be absent. -/
structure OptionFound (child : Option Draft) (n : Node) : Prop where
  node : ∀ c, child = some c → c.IsNode
  missing : n.isMissing = true ↔ child = none
  neat : n.isNeat = true

lemma judged_optional (h : d.ChildrenJudged k) {child : Option Draft}
    (hoption : child ∈ d.options k) :
    Judged (optional child) (d.SpoilsAs k) (OptionFound child) := by
  cases child with
  | none =>
      rw [optional]
      exact .of_ok ⟨by simp, by simp [Node.isMissing], rfl⟩
  | some c =>
      rw [optional]
      have hc : some c ∈ d.children k := by simp [Draft.children, hoption]
      refine (h.child hc).mono (fun _ he => he) fun n hn => ⟨?_, by simp [hn.not_missing], hn.neat⟩
      rintro _ ⟨⟩
      exact hn.node

lemma judged_entries (h : d.ChildrenJudged k) (hentries : children ⊆ d.entries k) :
    Judged (nodes children) (d.SpoilsAs k) fun ns =>
      (∀ child ∈ children, ∃ c, child = some c ∧ c.IsNode) ∧ Node.areNeat ns = true :=
  judged_nodes (fun _ hc => h.child (by simp [Draft.children, hentries hc]))
    fun hnone => (Draft.Flaw.entry (hentries hnone)).spoils

/-- What is found of a branch of a conditional, of which only the last may lack a condition. -/
structure Draft.ArmFound (b : Draft) (last : Bool) (branch : Branch) : Prop where
  span : b.HasSpan
  elseLast : b.cond = none → last = true
  cond : ∀ c, b.cond = some c → c.IsNode
  body : ∀ child ∈ b.body, ∃ c, child = some c ∧ c.IsNode
  neat : ∀ rest, Branch.areNeat rest = true → rest.isEmpty = last →
    Branch.areNeat (branch :: rest) = true

lemma judged_arm (h : d.ChildrenJudged .ifElse) {b : Draft} {last : Bool} (hb : b ∈ d.arms)
    (hlast : last = false → some b ∈ d.branches.dropLast) :
    Judged (b.arm last) (d.SpoilsAs .ifElse) (b.ArmFound last) := by
  have hoption : b.cond ∈ d.options .ifElse := List.mem_map_of_mem hb
  have hbody : b.body ⊆ d.entries .ifElse := fun c hc => List.mem_flatMap.mpr ⟨b, hb, hc⟩
  rw [Draft.arm]
  refine (judged_location fun hs => (Draft.Flaw.armSpan hb hs).spoils).bind
    fun span hspan => (judged_optional h hoption).bind fun cond hcond => ?_
  refine .guard (fun helse => ?_) fun helse => ?_
  · simp only [Bool.and_eq_true, Bool.not_eq_true', hcond.missing] at helse
    exact (Draft.Flaw.elseNotLast (hlast helse.2) helse.1).spoils
  · simp only [Bool.and_eq_true, Bool.not_eq_true', hcond.missing, not_and,
      Bool.not_eq_false] at helse
    refine (judged_entries h hbody).bind fun statements hstatements => .of_ok ?_
    refine ⟨hspan, helse, hcond.node, hstatements.1, fun rest hrest hempty => ?_⟩
    have helse' : !cond.isMissing || rest.isEmpty := by
      cases hc : cond.isMissing with
      | false => rfl
      | true => simp [hempty, helse (hcond.missing.mp hc)]
    simp [Branch.areNeat, Block.isNeat, Block.span, helse', hcond.neat, hstatements.2, hrest]

/-- What is found of the branches of a conditional, or of the last of them. -/
structure Draft.ArmsFound (branches : List (Option Draft)) (bs : List Branch) : Prop where
  whole : none ∉ branches
  found : ∀ b, some b ∈ branches → b.HasSpan ∧ (∀ c, b.cond = some c → c.IsNode) ∧
    ∀ child ∈ b.body, ∃ c, child = some c ∧ c.IsNode
  elseLast : ∀ b, some b ∈ branches.dropLast → b.cond ≠ none
  length : bs.length = branches.length
  neat : Branch.areNeat bs = true

lemma judged_arms (h : d.ChildrenJudged .ifElse) {before branches : List (Option Draft)}
    (hbranches : d.branches = before ++ branches) :
    Judged (Document.arms d branches) (d.SpoilsAs .ifElse) (Draft.ArmsFound branches) := by
  induction branches generalizing before with
  | nil =>
      rw [Document.arms]
      exact .of_ok ⟨by simp, by simp, by simp, rfl, rfl⟩
  | cons child rest ih =>
      have hmem : child ∈ d.branches := by simp [hbranches]
      cases child with
      | none =>
          rw [Document.arms]
          exact .of_error (Draft.Flaw.emptyBranch hmem).spoils
      | some b =>
          have hlast : rest.isEmpty = false → some b ∈ d.branches.dropLast := by
            intro hne
            rw [hbranches, List.dropLast_append_of_ne_nil (by simp),
              List.dropLast_cons_of_ne_nil (by simpa using hne)]
            simp
          rw [Document.arms]
          refine (judged_arm h (Draft.mem_arms.mpr hmem) hlast).bind fun branch hbranch => ?_
          have hrest : d.branches = (before ++ [some b]) ++ rest := by simp [hbranches]
          refine (ih hrest).bind fun bs hbs => .of_ok ?_
          have hempty : bs.isEmpty = rest.isEmpty := by
            rw [Bool.eq_iff_iff, List.isEmpty_iff_length_eq_zero, List.isEmpty_iff_length_eq_zero,
              hbs.length]
          refine ⟨by simp [hbs.whole], fun b' hb' => ?_, fun b' hb' => ?_, by simp [hbs.length],
            hbranch.neat bs hbs.neat hempty⟩
          · rcases List.mem_cons.mp hb' with hb' | hb'
            · cases hb'
              exact ⟨hbranch.span, hbranch.cond, hbranch.body⟩
            · exact hbs.found b' hb'
          · cases rest with
            | nil => simp at hb'
            | cons next rest =>
                rw [List.dropLast_cons_of_ne_nil (by simp)] at hb'
                rcases List.mem_cons.mp hb' with hb' | hb'
                · cases hb'
                  exact fun hnone => by simpa using hbranch.elseLast hnone
                · exact hbs.elseLast b' hb'

/-- Children are smaller than the draft that uses them. -/
lemma Draft.sizeOf_child {c : Draft} (hc : some c ∈ d.children k) : sizeOf c < sizeOf d := by
  have hfields := sizeOf_fields d
  have hoption : ∀ {child : Option Draft}, child = some c → sizeOf child < sizeOf d →
      sizeOf c < sizeOf d := by
    rintro _ rfl hsize
    simp only [Option.some.sizeOf_spec] at hsize
    omega
  have hmem : ∀ {c : Draft} {cs : List (Option Draft)}, some c ∈ cs → sizeOf cs < sizeOf d →
      sizeOf c < sizeOf d := by
    intro c cs hc hsize
    have := List.sizeOf_lt_of_mem hc
    simp only [Option.some.sizeOf_spec] at this
    omega
  have harm : ∀ {b : Draft}, some b ∈ d.branches → some c = b.cond ∨ some c ∈ b.body →
      sizeOf c < sizeOf d := by
    intro b hb hc
    have hfields' := sizeOf_fields b
    have hsize : sizeOf b < sizeOf d := hmem hb (by omega)
    have : sizeOf (some c) < sizeOf b := by
      rcases hc with hc | hc
      · rw [hc]
        omega
      · have := List.sizeOf_lt_of_mem hc
        omega
    simp only [Option.some.sizeOf_spec] at this
    omega
  have hparts : ∀ part ∈ d.parts k, sizeOf part.2 < sizeOf d := by
    cases k <;> simp [parts] <;> omega
  simp only [children, List.mem_append, List.mem_map] at hc
  rcases hc with (⟨part, hpart, hchild⟩ | hc) | hc
  · exact hoption hchild (hparts part hpart)
  · cases k <;> simp only [options, List.mem_singleton, List.not_mem_nil] at hc
    case ifElse =>
      obtain ⟨b, hb, hc⟩ := List.mem_map.mp hc
      exact harm (mem_arms.mp hb) (.inl hc.symm)
    all_goals exact hoption hc.symm (by omega)
  · cases k <;> simp only [entries, List.not_mem_nil] at hc
    case ifElse =>
      obtain ⟨b, hb, hc⟩ := List.mem_flatMap.mp hc
      exact harm (mem_arms.mp hb) (.inr hc)
    all_goals exact hmem hc (by omega)

/-- What is found of a draft that is converted to a node of a kind. -/
structure Draft.Found (d : Draft) (k : Kind) (n : Node) : Prop where
  conforms : d.Conforms k
  kind : n.kind? = some k
  neat : n.isNeat = true

lemma toNode_of_kind? (hk : d.kind? = some k) : d.toNode = d.convert k := by
  unfold Draft.toNode Draft.knownKind
  rw [show Kind.ofName? d.kind.shown = some k from hk]
  rfl

lemma judged_toNode
    (h : ∀ k ∈ Kind.all, Judged (d.convert k) (d.SpoilsAs k) (d.Found k)) :
    Judged d.toNode d.Spoils d.Becomes := by
  unfold Draft.toNode Draft.knownKind
  cases hk : Kind.ofName? d.kind.shown with
  | none => exact .of_error fun o hd => .unknown hd hk
  | some k =>
      exact (h k (List.mem_of_find?_eq_some hk)).mono (fun e he o hd => he o (.node hd hk))
        fun n hn => ⟨⟨k, hk, hn.conforms⟩, hn.kind.trans hk.symm, hn.neat⟩

lemma Draft.Becomes.isTarget_iff {n : Node} (h : d.Becomes n) :
    isTarget n = true ↔ d.IsTarget := by
  simp [isTarget, Draft.IsTarget, h.kind]

lemma judged_assignment (hspan : d.HasSpan) (h : d.ChildrenJudged .assignment) (span : Span) :
    Judged (do
      let target ← required d "a target" d.target
      if !isTarget target then
        throw ((d.target.getD d).error (.badTarget target.kindName))
      return .assignment span target (← required d "a value" d.value))
    (d.SpoilsAs .assignment) (d.Found .assignment) := by
  refine (judged_required h (by simp [Draft.parts])).bind fun target ⟨t, ht, htarget⟩ =>
    .guard (fun hnot => ?_) fun hok =>
      (judged_required h (by simp [Draft.parts])).bind fun value ⟨v, hv, hvalue⟩ => .of_ok ?_
  · obtain ⟨j, hj, -⟩ := htarget.node
    have hname : target.kindName = j.name := by
      unfold Node.kindName
      rw [htarget.kind, hj]
    rw [ht, hname]
    exact (Draft.Flaw.target ht hj (by simpa [← htarget.isTarget_iff] using hnot)).spoils
  · have htn : t.IsTarget := by simpa [← htarget.isTarget_iff] using hok
    refine ⟨Draft.conforms_of hspan ?_ ?_ ?_ ?_ ?_, rfl, ?_⟩ <;>
    simp [Kind.isNamed, Draft.parts, Draft.options, Draft.entries, Draft.Special, Node.isNeat,
      ht, hv, htarget.node, hvalue.node, htarget.neat, hvalue.neat, htn]

lemma conforms_eval (hspan : d.HasSpan) (hcontents : d.contents = 1) {inner : Node}
    (hinner : OptionFound d.value inner) : d.Conforms .eval := by
  refine Draft.conforms_of hspan ?_ ?_ ?_ ?_ hcontents <;>
  simp [Kind.isNamed, Draft.parts, Draft.options, Draft.entries]
  exact fun c hc => hinner.node c hc.symm

lemma found_ifElse (hspan : d.HasSpan) (hne : d.branches ≠ []) {branches : List Branch}
    (hbranches : Draft.ArmsFound d.branches branches) (span : Span) :
    d.Found .ifElse (.ifElse span branches) := by
  have hfound : ∀ b ∈ d.arms, _ := fun b hb => hbranches.found b (Draft.mem_arms.mp hb)
  refine ⟨Draft.conforms_of hspan ?_ ?_ ?_ ?_ ?_, rfl, ?_⟩
  · simp [Kind.isNamed]
  · simp [Draft.parts]
  · intro c hc
    obtain ⟨b, hb, hc⟩ := List.mem_map.mp hc
    exact (hfound b hb).2.1 c hc
  · intro child hchild
    obtain ⟨b, hb, hchild⟩ := List.mem_flatMap.mp hchild
    exact (hfound b hb).2.2 child hchild
  · exact ⟨hne, hbranches.whole, fun b hb => (hfound b hb).1, hbranches.elseLast⟩
  · have hne' : branches ≠ [] := by
      rintro rfl
      exact hne (List.length_eq_zero_iff.mp hbranches.length.symm)
    simp [Node.isNeat, hne', hbranches.neat]

/-- What a conversion finds of a draft: a flaw of something that the draft uses, or that it conforms
to the kind. -/
theorem judged_convert (size : Nat) : ∀ (d : Draft) (k : Kind), sizeOf d < size → k ∈ Kind.all →
    Judged (d.convert k) (d.SpoilsAs k) (d.Found k) := by
  induction size with
  | zero => exact fun d k hd => absurd hd (Nat.not_lt_zero _)
  | succ size ih =>
      intro d k hd hk
      have h : d.ChildrenJudged k := fun c hc =>
        judged_toNode fun j hj => ih c j (by have := Draft.sizeOf_child hc; omega) hj
      rw [Draft.convert.eq_def]
      refine (judged_location fun hs => (Draft.Flaw.span hs).spoils).bind fun span hspan => ?_
      cases k with
      | pass =>
          refine .of_ok ⟨Draft.conforms_of hspan ?_ ?_ ?_ ?_ ?_, rfl, rfl⟩ <;>
          simp [Kind.isNamed, Draft.parts, Draft.options, Draft.entries, Draft.Special]
      | assignment => exact judged_assignment hspan h span
      | eval =>
          refine (judged_optional h (by simp [Draft.options])).bind fun inner hinner => ?_
          refine .guard (fun hcontents => ?_) fun hcontents => ?_
          · exact (Draft.Flaw.content (by simpa using hcontents)).spoils
          · have hconforms := conforms_eval hspan (by simpa using hcontents) hinner
            dsimp only
            split
            · exact .of_ok ⟨hconforms, rfl, rfl⟩
            · exact .of_ok ⟨hconforms, rfl, hinner.neat⟩
      | add | sub | mul | div | mod | and | or =>
          refine (judged_required h (by simp [Draft.parts])).bind ?_
          rintro left ⟨l, hl, hleft⟩
          refine (judged_required h (by simp [Draft.parts])).bind ?_
          rintro right ⟨r, hr, hright⟩
          refine .of_ok ⟨Draft.conforms_of hspan ?_ ?_ ?_ ?_ ?_, rfl, ?_⟩ <;>
          simp [Kind.isNamed, Draft.parts, Draft.options, Draft.entries, Draft.Special, Node.isNeat,
            hl, hr, hleft.node, hright.node, hleft.neat, hright.neat]
      | negate | not =>
          refine (judged_required h (by simp [Draft.parts])).bind ?_
          rintro inner ⟨c, hc, hinner⟩
          refine .of_ok ⟨Draft.conforms_of hspan ?_ ?_ ?_ ?_ ?_, rfl, ?_⟩ <;>
          simp [Kind.isNamed, Draft.parts, Draft.options, Draft.entries, Draft.Special, Node.isNeat,
            hc, hinner.node, hinner.neat]
      | relation =>
          refine judged_relation.bind fun op hop => ?_
          refine (judged_required h (by simp [Draft.parts])).bind ?_
          rintro left ⟨l, hl, hleft⟩
          refine (judged_required h (by simp [Draft.parts])).bind ?_
          rintro right ⟨r, hr, hright⟩
          refine .of_ok ⟨Draft.conforms_of hspan ?_ ?_ ?_ ?_ ?_, rfl, ?_⟩ <;>
          simp [Kind.isNamed, Draft.parts, Draft.options, Draft.entries, Draft.Special, Node.isNeat,
            hop, hl, hr, hleft.node, hright.node, hleft.neat, hright.neat]
      | identifier =>
          refine (judged_ident rfl span).bind ?_
          rintro _ ⟨hident, hname⟩
          refine .of_ok ⟨Draft.conforms_of hspan ?_ ?_ ?_ ?_ ?_, rfl, ?_⟩ <;>
          simp [Kind.isNamed, Draft.parts, Draft.options, Draft.entries, Draft.Special, Node.isNeat,
            hident, hname]
      | listElement =>
          refine (judged_ident rfl span).bind ?_
          rintro _ ⟨hident, hname⟩
          refine (judged_required h (by simp [Draft.parts])).bind ?_
          rintro index ⟨c, hc, hindex⟩
          refine .of_ok ⟨Draft.conforms_of hspan ?_ ?_ ?_ ?_ ?_, rfl, ?_⟩ <;>
          simp [Kind.isNamed, Draft.parts, Draft.options, Draft.entries, Draft.Special, Node.isNeat,
            Ident.isNeat, hident, hname, hc, hindex.node, hindex.neat]
      | list =>
          refine (judged_entries h (List.Subset.refl _)).bind fun items hitems => ?_
          refine .of_ok ⟨Draft.conforms_of hspan ?_ ?_ ?_ hitems.1 ?_, rfl, ?_⟩ <;>
          simp [Kind.isNamed, Draft.parts, Draft.options, Draft.Special, Node.isNeat, hitems.2]
      | functionCall =>
          refine (judged_ident rfl span).bind ?_
          rintro _ ⟨hident, hname⟩
          refine (judged_entries h (List.Subset.refl _)).bind fun args hargs => ?_
          refine .of_ok ⟨Draft.conforms_of hspan ?_ ?_ ?_ hargs.1 ?_, rfl, ?_⟩ <;>
          simp [Kind.isNamed, Draft.parts, Draft.options, Draft.Special, Node.isNeat,
            Ident.isNeat, hident, hname, hargs.2]
      | block =>
          refine (judged_entries h (List.Subset.refl _)).bind fun body hbody => ?_
          refine .of_ok ⟨Draft.conforms_of hspan ?_ ?_ ?_ hbody.1 ?_, rfl, ?_⟩ <;>
          simp [Kind.isNamed, Draft.parts, Draft.options, Draft.Special, Node.isNeat,
            Block.isNeat, Block.span, hbody.2]
      | repeatTimes | repeatUntil =>
          refine (judged_required h (by simp [Draft.parts])).bind ?_
          rintro first ⟨c, hc, hfirst⟩
          refine (judged_entries h (List.Subset.refl _)).bind fun body hbody => ?_
          refine .of_ok ⟨Draft.conforms_of hspan ?_ ?_ ?_ hbody.1 ?_, rfl, ?_⟩ <;>
          simp [Kind.isNamed, Draft.parts, Draft.options, Draft.Special, Node.isNeat,
            Block.isNeat, hc, hfirst.node, hfirst.neat, hbody.2]
      | ifElse =>
          refine .guard (fun hempty => ?_) fun hempty => ?_
          · exact (Draft.Flaw.noBranch (by simpa using hempty)).spoils
          · refine (judged_arms h (List.nil_append _).symm).bind fun branches hbranches => ?_
            exact .of_ok (found_ifElse hspan (by simpa using hempty) hbranches span)
      | forEach =>
          refine (judged_ident rfl span).bind ?_
          rintro _ ⟨hident, hname⟩
          refine (judged_required h (by simp [Draft.parts])).bind ?_
          rintro source ⟨c, hc, hsource⟩
          refine (judged_entries h (List.Subset.refl _)).bind fun body hbody => ?_
          refine .of_ok ⟨Draft.conforms_of hspan ?_ ?_ ?_ hbody.1 ?_, rfl, ?_⟩ <;>
          simp [Kind.isNamed, Draft.parts, Draft.options, Draft.Special, Node.isNeat,
            Block.isNeat, Ident.isNeat, hident, hname, hc, hsource.node, hsource.neat, hbody.2]
      | «return» =>
          refine (judged_optional h (by simp [Draft.options])).bind fun value hvalue => ?_
          refine .of_ok ⟨Draft.conforms_of hspan ?_ ?_ ?_ ?_ ?_, rfl, hvalue.neat⟩ <;>
          simp [Kind.isNamed, Draft.parts, Draft.options, Draft.entries, Draft.Special]
          exact fun c hc => hvalue.node c hc.symm
      | procedure =>
          refine (judged_ident rfl span).bind ?_
          rintro _ ⟨hident, hname⟩
          refine (judged_entries h (List.Subset.refl _)).bind fun body hbody => ?_
          refine .of_ok ⟨Draft.conforms_of hspan ?_ ?_ ?_ hbody.1 ?_, rfl, ?_⟩ <;>
          simp [Kind.isNamed, Draft.parts, Draft.options, Draft.Special, Node.isNeat,
            Procedure.isNeat, Block.isNeat, Ident.isNeat, hident, hname, hbody.2]
      | other code => simp [Kind.all] at hk

/-- A draft that is converted to a procedure. -/
lemma judged_procedure :
    Judged (d.convert .procedure) (d.SpoilsAs .procedure) fun n =>
      d.Conforms .procedure ∧ ∃ p, n = .procedure p ∧ p.isNeat = true := by
  have hconvert := judged_convert _ d .procedure (Nat.lt_succ_self _) (by simp [Kind.all])
  refine ⟨fun n hn => ⟨(hconvert.ok n hn).conforms, ?_⟩, hconvert.error⟩
  have hkind := (hconvert.ok n hn).kind
  have hneat := (hconvert.ok n hn).neat
  -- a node with two operands could have any kind, but a complete one has that of an operator
  have hcomplete := isComplete_convert _ d .procedure n (Nat.lt_succ_self _) hn
  cases n with
  | procedure p => exact ⟨p, rfl, by simpa [Node.isNeat] using hneat⟩
  | binary span op left right =>
      cases Option.some.inj hkind
      simp [Node.isComplete, Kind.operators] at hcomplete
  | _ => simp [Node.kind?] at hkind

/-- An error reports what is wrong with any document that has the child among its procedures. -/
def SpoilsProcedures (child : Option Draft) (e : Error) : Prop :=
  ∀ o : Outline, child ∈ o.procedures → o.Blames e

lemma judged_toProcedure :
    Judged d.toProcedure (SpoilsProcedures (some d)) fun p => d.IsProcedure ∧ p.isNeat = true := by
  refine .guard (fun hkind => ?_) fun hkind => ?_
  · simp only [Bool.and_eq_true, Bool.not_eq_true', bne_iff_ne] at hkind
    exact fun o hd => .notAProcedure hd hkind.1 hkind.2
  · refine (judged_procedure.mono (fun e he o hd => he o (.procedure hd)) fun n hn => hn).bind
      fun n ⟨hconforms, p, hp, hneat⟩ => ?_
    subst hp
    refine .of_ok ⟨⟨?_, hconforms⟩, hneat⟩
    cases h : d.kind.isEmpty with
    | true => exact .inl rfl
    | false => exact .inr (by simpa [h, Draft.kind?] using hkind)

end

lemma judged_procedures {children : List (Option Draft)} {blames : Error → Prop}
    (h : ∀ child ∈ children, ∀ e, SpoilsProcedures child e → blames e) :
    Judged (children.mapM fun
        | none => throw { reason := .emptyProcedure }
        | some d => d.toProcedure) blames fun ps =>
      (∀ child ∈ children, ∃ d, child = some d ∧ d.IsProcedure) ∧
        ∀ p ∈ ps, Procedure.isNeat p = true := by
  induction children with
  | nil => exact .of_ok ⟨by simp, by simp⟩
  | cons child rest ih =>
      rw [List.mapM_cons]
      have hrest := ih fun c hc => h c (List.mem_cons_of_mem _ hc)
      cases child with
      | none => exact .of_error (h none List.mem_cons_self _ fun o ho => .emptyProcedure ho)
      | some d =>
          refine (judged_toProcedure.mono (h _ List.mem_cons_self) fun p hp => hp).bind
            fun p hp => hrest.bind fun ps hps => .of_ok ?_
          exact ⟨List.forall_mem_cons.mpr ⟨⟨d, rfl, hp.1⟩, hps.1⟩,
            List.forall_mem_cons.mpr ⟨hp.2, hps.2⟩⟩

/-- What the conversion of a document finds. -/
theorem judged_toProgram (o : Outline) :
    Judged o.toProgram o.Blames fun p => o.IsProper ∧ p.isNeat = true := by
  refine (judged_procedures fun child hchild e he => he o hchild).bind fun ps hps => ?_
  have hnode : ∀ d, some d ∈ o.statements → Judged d.toNode o.Blames d.Becomes := fun d hd =>
    (judged_toNode fun k hk => judged_convert _ d k (Nat.lt_succ_self _) hk).mono
      (fun e he => he o (.statement hd)) fun n hn => hn
  refine (judged_nodes hnode fun hnone => .emptyStatement hnone).bind fun ns hns => .of_ok ?_
  refine ⟨⟨hps.1, hns.1⟩, ?_⟩
  simpa [Program.isNeat, hns.2] using hps.2

/-! ### The fields that a kind uses -/

namespace Draft

/-- What every kind uses. -/
def bare (d : Draft) : Draft :=
  { line := d.line, column := d.column, kind := d.kind, span := d.span }

/-- What a conditional uses of a branch. -/
def armUsed (d : Draft) : Draft :=
  { line := d.line, column := d.column, span := d.span, cond := d.cond, body := d.body }

/-- A draft with only the fields that a kind uses. -/
def used (d : Draft) : Kind → Draft
  | .pass | .other _ => d.bare
  | .assignment => { d.bare with target := d.target, value := d.value }
  | .eval => { d.bare with number := d.number, text := d.text, bool := d.bool, value := d.value }
  | .add | .sub | .mul | .div | .mod | .and | .or =>
      { d.bare with left := d.left, right := d.right }
  | .negate | .not => { d.bare with operand := d.operand }
  | .relation => { d.bare with op := d.op, left := d.left, right := d.right }
  | .identifier => { d.bare with name := d.name }
  | .listElement => { d.bare with name := d.name, index := d.index }
  | .list => { d.bare with items := d.items }
  | .functionCall => { d.bare with name := d.name, args := d.args }
  | .block => { d.bare with body := d.body }
  | .repeatTimes => { d.bare with count := d.count, body := d.body }
  | .repeatUntil => { d.bare with cond := d.cond, body := d.body }
  | .ifElse => { d.bare with branches := d.branches.map (·.map armUsed) }
  | .forEach => { d.bare with name := d.name, source := d.source, body := d.body }
  | .return => { d.bare with value := d.value }
  | .procedure => { d.bare with name := d.name, params := d.params, body := d.body }

variable (d : Draft)

lemma arm_armUsed (last : Bool) : d.armUsed.arm last = d.arm last := by
  rw [Draft.arm, Draft.arm]
  rfl

end Draft

lemma required_congr {d d' : Draft} (hline : d'.line = d.line) (hcolumn : d'.column = d.column)
    (hkind : d'.kind = d.kind) (what : String) (child : Option Draft) :
    required d' what child = required d what child := by
  cases child with
  | none => simp [required, Draft.error, hline, hcolumn, hkind]
  | some c => simp [required]

lemma arms_used (d d' : Draft) (hline : d'.line = d.line) (hcolumn : d'.column = d.column)
    (branches : List (Option Draft)) :
    arms d' (branches.map (·.map Draft.armUsed)) = arms d branches := by
  induction branches with
  | nil => simp [arms]
  | cons child rest ih =>
      cases child with
      | none => simp [arms, Draft.error, hline, hcolumn]
      | some b => simp [arms, ih, Draft.arm_armUsed]

/-- The other fields are ignored. -/
theorem Draft.convert_used (d : Draft) (k : Kind) : (d.used k).convert k = d.convert k := by
  have hline : (d.used k).line = d.line := by cases k <;> rfl
  have hcolumn : (d.used k).column = d.column := by cases k <;> rfl
  have hkind : (d.used k).kind = d.kind := by cases k <;> rfl
  have hrequired := required_congr hline hcolumn hkind
  have harms := arms_used d (d.used k) hline hcolumn
  rw [Draft.convert.eq_def, Draft.convert.eq_def d k]
  cases k with
  | assignment =>
      have htarget : ∀ reason, (d.target.getD (d.used .assignment)).error reason =
          (d.target.getD d).error reason := by
        intro reason
        cases d.target <;> rfl
      have hfields : (d.used .assignment).target = d.target := rfl
      simp only [hrequired, hfields, htarget]
      rfl
  | ifElse =>
      have hbranches : (d.used .ifElse).branches = d.branches.map (·.map Draft.armUsed) := rfl
      simp only [hbranches, harms, List.isEmpty_map]
      rfl
  | _ =>
      simp only [hrequired]
      rfl

/-! ### Which documents are accepted -/

/-- Documents are accepted according to the grammar.  An error tells the truth about the document,
and if no list has an empty entry it has the place of a draft in the document.  Fields that a kind
does not use are ignored. -/
theorem Outline.toProgram_accepts (o : Outline) :
    ((∃ p, o.toProgram = .ok p) ↔ o.IsProper) ∧
      (∀ e, o.toProgram = .error e → o.Blames e) ∧
      (o.IsWhole → ∀ e, o.toProgram = .error e →
        ∃ d, o.Mentions d ∧ e.line = d.line ∧ e.column = d.column) ∧
      ∀ (d : Draft) (k : Kind), (d.used k).convert k = d.convert k := by
  have hjudged := judged_toProgram o
  refine ⟨⟨fun ⟨p, hp⟩ => (hjudged.ok p hp).1, fun ho => ?_⟩, hjudged.error,
    fun hw e he => (hjudged.error e he).located hw, Draft.convert_used⟩
  cases h : o.toProgram with
  | ok p => exact ⟨p, rfl⟩
  | error e => exact absurd (hjudged.error e h) ho.not_blames

mutual

/-- What holds of the drafts at the roots and is handed on to children holds of all that is used. -/
lemma Outline.Uses.of_closed {o : Outline} {S : Draft → Kind → Prop}
    (hprocedures : ∀ d, some d ∈ o.procedures → S d .procedure)
    (hstatements : ∀ d k, some d ∈ o.statements → d.kind? = some k → S d k)
    (hchildren : ∀ d k c j, S d k → some c ∈ d.children k → c.kind? = some j → S c j)
    {d : Draft} {k : Kind} : o.Uses d k → S d k
  | .procedure h => hprocedures d h
  | .node h hk => h.of_closed hprocedures hstatements hchildren hk

lemma Outline.Places.of_closed {o : Outline} {S : Draft → Kind → Prop}
    (hprocedures : ∀ d, some d ∈ o.procedures → S d .procedure)
    (hstatements : ∀ d k, some d ∈ o.statements → d.kind? = some k → S d k)
    (hchildren : ∀ d k c j, S d k → some c ∈ d.children k → c.kind? = some j → S c j)
    {d : Draft} {k : Kind} : o.Places d → d.kind? = some k → S d k
  | .statement h, hk => hstatements d k h hk
  | .child h hc, hk =>
      hchildren _ _ _ _ (h.of_closed hprocedures hstatements hchildren) hc hk

end

/-- A block with a name that is empty is refused at the place of the name. -/
theorem Outline.toProgram_accepts_unnamed :
    let name : Draft := { line := 4, column := 9, kind := "identifier", text := some "ignored" }
    let o : Outline :=
      { statements := [some { line := 2, column := 5, kind := "Block", body := [some name] }] }
    o.toProgram = .error ⟨4, 9, .lacks "identifier" "a name"⟩ ∧ ¬ o.IsProper ∧
      ∃ d, o.Mentions d ∧ d.line = 4 ∧ d.column = 9 := by
  intro name o
  have hname : name.kind? = some .identifier := by decide
  have hblock : Draft.kind? { line := 2, column := 5, kind := "Block", body := [some name] } =
      some .block := by decide
  have hinner : name.toNode = .error ⟨4, 9, .lacks "identifier" "a name"⟩ := by
    rw [toNode_of_kind? hname, Draft.convert.eq_def]
    rfl
  have houter : Draft.toNode { line := 2, column := 5, kind := "Block", body := [some name] } =
      .error ⟨4, 9, .lacks "identifier" "a name"⟩ := by
    rw [toNode_of_kind? hblock, Draft.convert.eq_def]
    change (nodes [some name] >>= _) = _
    rw [nodes_cons, hinner]
    rfl
  have herror : o.toProgram = .error ⟨4, 9, .lacks "identifier" "a name"⟩ := by
    change (nodes o.statements >>= _) = _
    rw [nodes_cons, houter]
    rfl
  have hwhole : o.IsWhole := by
    refine ⟨by simp [o], by simp [o], fun d k hd => ?_⟩
    -- the document uses the block, and of that the name
    have hused : d.children k = [some name] ∧ none ∉ d.entries k ∨ d = name ∧ k = .identifier := by
      refine hd.of_closed (S := fun d k => d.children k = [some name] ∧ none ∉ d.entries k ∨
        d = name ∧ k = .identifier) (by simp [o]) (fun d k hd hk => ?_) fun d k c j hd hc hj => ?_
      · cases List.mem_singleton.mp hd
        cases hblock.symm.trans hk
        exact .inl ⟨rfl, by simp [Draft.entries]⟩
      · rcases hd with ⟨hchildren, -⟩ | ⟨rfl, rfl⟩
        · rw [hchildren] at hc
          cases List.mem_singleton.mp hc
          cases hname.symm.trans hj
          exact .inr ⟨rfl, rfl⟩
        · cases hc
    rcases hused with ⟨-, hentries⟩ | ⟨rfl, rfl⟩
    · exact hentries
    · simp [Draft.entries]
  obtain ⟨haccepts, -, hplace, -⟩ := o.toProgram_accepts
  obtain ⟨d, hd, hline, hcolumn⟩ := hplace hwhole _ herror
  refine ⟨herror, fun hproper => ?_, d, hd, hline.symm, hcolumn.symm⟩
  obtain ⟨p, hp⟩ := haccepts.mpr hproper
  cases herror.symm.trans hp

end Document

end Pseudocode
