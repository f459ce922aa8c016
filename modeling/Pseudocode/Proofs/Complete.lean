/-
# Programs that lack nothing

A program tree may lack any of its parts, and running it then fails at the part that is missing.
A tree is complete if it lacks nothing that running it may ask for: a value may be left out of a
return and a condition out of a branch, but no other part, operators and relations are known ones,
constants have a value, and what is assigned to can be assigned to.

The trees that documents describe are complete, since a draft only becomes a node if the fields that
its kind needs are there.  And a complete program can always be started.

The main results are

* `Document.Outline.isComplete_toProgram`: what a document describes is complete;
* `Session.exists_launch`: a session can start every complete program.
-/
import Mathlib.Tactic.Lemma
import Pseudocode.Document.Conversion
import Pseudocode.Run.Session

namespace Pseudocode

/-! ### Complete trees -/

/-- The kinds of the operators with two operands. -/
def Kind.operators : List Kind := [.add, .sub, .mul, .div, .mod, .and, .or]

/-- Whether a constant has a value. -/
def Literal.isSupported : Literal → Bool
  | .unsupported _ => false
  | _ => true

mutual

/-- Whether a node is there and lacks nothing. -/
def Node.isComplete : Node → Bool
  | .missing => false
  | .pass _ => true
  | .assignment _ target value =>
      Document.isTarget target && target.isComplete && value.isComplete
  | .literal _ lit => lit.isSupported
  | .group _ inner => inner.isComplete
  | .binary _ op left right => Kind.operators.contains op && left.isComplete && right.isComplete
  | .negate _ operand => operand.isComplete
  | .not _ operand => operand.isComplete
  | .relation _ op left right =>
      (Relation.ofText? op).isSome && left.isComplete && right.isComplete
  | .identifier _ _ => true
  | .element _ list index => list.isSome && index.isComplete
  | .list _ items => Node.areComplete items
  | .call _ callee args => callee.isSome && Node.areComplete args
  | .block body => body.isComplete
  | .repeatTimes _ count body => count.isComplete && body.isComplete
  | .repeatUntil _ cond body => cond.isComplete && body.isComplete
  | .ifElse _ branches => Branch.areComplete branches
  | .forEach _ var source body => var.isSome && source.isComplete && body.isComplete
  | .return _ value => value.isMissing || value.isComplete
  | .procedure decl => decl.isComplete

/-- Whether none of the nodes is missing or lacks anything. -/
def Node.areComplete : List Node → Bool
  | [] => true
  | n :: rest => n.isComplete && Node.areComplete rest

/-- Whether a block is there and lacks nothing. -/
def Block.isComplete : Block → Bool
  | .missing => false
  | .of _ statements => Node.areComplete statements

/-- Whether the branches lack nothing but conditions. -/
def Branch.areComplete : List Branch → Bool
  | [] => true
  | .of cond body :: rest =>
      (cond.isMissing || cond.isComplete) && body.isComplete && Branch.areComplete rest

/-- Whether a procedure has a name, parameters that are all there, and a body. -/
def Procedure.isComplete : Procedure → Bool
  | .of _ name params body => name.isSome && params.all Option.isSome && body.isComplete

end

/-- Whether no statement and no procedure of a program is missing or lacks anything. -/
def Program.isComplete (p : Program) : Bool :=
  Node.areComplete p.statements && p.procedures.all fun q => q.any Procedure.isComplete

/-! ### Starting complete programs -/

namespace Registry

/-- A complete procedure can be declared. -/
lemma exists_declare (r : Registry) {p : Procedure} (hp : p.isComplete = true) :
    ∃ r', declare r (some p) = .ok r' := by
  obtain ⟨span, name, params, body⟩ := p
  simp only [Procedure.isComplete, Bool.and_eq_true, List.all_eq_true] at hp
  obtain ⟨⟨hname, hparams⟩, hbody⟩ := hp
  obtain ⟨name, rfl⟩ := Option.isSome_iff_exists.mp hname
  have hnames : ∃ names, paramNames? params = some names := by
    clear hname hbody
    induction params with
    | nil => exact ⟨[], rfl⟩
    | cons param params ih =>
        obtain ⟨param, rfl⟩ := Option.isSome_iff_exists.mp (hparams param List.mem_cons_self)
        obtain ⟨names, hnames⟩ := ih fun q hq => hparams q (List.mem_cons_of_mem _ hq)
        refine ⟨param.name :: names, ?_⟩
        simp only [paramNames?, List.mapM_cons, Option.map_some] at hnames ⊢
        rw [hnames]
        rfl
  obtain ⟨names, hnames⟩ := hnames
  cases body with
  | missing => simp [Block.isComplete] at hbody
  | of bodySpan statements =>
      simp only [declare, hnames]
      exact ⟨_, rfl⟩

lemma exists_declareAll (r : Registry) {procedures : List (Option Procedure)}
    (h : ∀ q ∈ procedures, q.any Procedure.isComplete = true) :
    ∃ r', declareAll r procedures = .ok r' := by
  induction procedures generalizing r with
  | nil => exact ⟨r, rfl⟩
  | cons q procedures ih =>
      have hq := h q List.mem_cons_self
      cases q with
      | none => simp at hq
      | some p =>
          obtain ⟨r', hr'⟩ := exists_declare r hq
          obtain ⟨r'', hr''⟩ := ih r' fun q' hq' => h q' (List.mem_cons_of_mem _ hq')
          refine ⟨r'', ?_⟩
          simp only [declareAll, List.foldlM_cons, hr']
          exact hr''

end Registry

/-- A session can start every complete program. -/
theorem Session.exists_launch (s : Session) {program : Program}
    (h : program.isComplete = true) (l : Launch) : ∃ t, s.launch program l = .ok t := by
  simp only [Program.isComplete, Bool.and_eq_true, List.all_eq_true] at h
  obtain ⟨functions, hfunctions⟩ :=
    Registry.exists_declareAll (Plugin.addFunctions l.plugins {}) h.2
  have hmachine : ∃ machine, s.freshMachine program l = .ok machine := by
    unfold freshMachine
    rw [hfunctions]
    exact ⟨_, rfl⟩
  obtain ⟨machine, hmachine⟩ := hmachine
  unfold launch
  rw [hmachine]
  exact ⟨_, rfl⟩

/-! ### Converting drafts -/

namespace Document

lemma exists_of_bind {α β : Type} {x : Except Error α} {f : α → Except Error β} {b : β}
    (h : (x >>= f) = .ok b) : ∃ a, x = .ok a ∧ f a = .ok b := by
  cases x with
  | error e => cases h
  | ok a => exact ⟨a, rfl, h⟩

/-- Drafts of less than a given size are converted to complete nodes. -/
def CompleteBelow (size : Nat) : Prop :=
  ∀ (d : Draft) (k : Kind) (n : Node), sizeOf d < size → d.convert k = .ok n → n.isComplete = true

variable {size : Nat}

lemma CompleteBelow.known (h : CompleteBelow size) {d : Draft} {n : Node} (hd : sizeOf d < size)
    (hn : (do d.convert (← d.knownKind)) = .ok n) : n.isComplete = true := by
  obtain ⟨k, -, hk⟩ := exists_of_bind hn
  exact h d k n hd hk

/-- A child that has to be there is complete. -/
lemma CompleteBelow.required (h : CompleteBelow size) {parent : Draft} {what : String}
    {child : Option Draft} {n : Node} (hsize : sizeOf child < size)
    (hn : required parent what child = .ok n) : n.isComplete = true := by
  cases child with
  | none =>
      rw [Document.required] at hn
      cases hn
  | some d =>
      rw [Document.required] at hn
      exact h.known (by simp at hsize; omega) hn

/-- A child that may be absent is complete if it is there. -/
lemma CompleteBelow.optional (h : CompleteBelow size) {child : Option Draft} {n : Node}
    (hsize : sizeOf child < size) (hn : optional child = .ok n) :
    child = none ∧ n = .missing ∨ child.isSome = true ∧ n.isComplete = true := by
  cases child with
  | none =>
      rw [Document.optional] at hn
      cases hn
      exact .inl ⟨rfl, rfl⟩
  | some d =>
      rw [Document.optional] at hn
      exact .inr ⟨rfl, h.known (by simp at hsize; omega) hn⟩

lemma CompleteBelow.nodes (h : CompleteBelow size) {children : List (Option Draft)}
    {ns : List Node} (hsize : sizeOf children < size) (hns : nodes children = .ok ns) :
    Node.areComplete ns = true := by
  induction children generalizing ns with
  | nil =>
      rw [Document.nodes] at hns
      cases hns
      rfl
  | cons child rest ih =>
      cases child with
      | none =>
          rw [Document.nodes] at hns
          cases hns
      | some d =>
          rw [Document.nodes] at hns
          obtain ⟨k, -, hns⟩ := exists_of_bind hns
          obtain ⟨n, hn, hns⟩ := exists_of_bind hns
          obtain ⟨rest', hrest, hns⟩ := exists_of_bind hns
          cases hns
          simp only [List.cons.sizeOf_spec, Option.some.sizeOf_spec] at hsize
          have hhead := h d k n (by omega) hn
          have htail := ih (by omega) hrest
          simp [Node.areComplete, hhead, htail]

lemma CompleteBelow.arm (h : CompleteBelow size) {d : Draft} {last : Bool} {b : Branch}
    (hsize : sizeOf d ≤ size) (hb : d.arm last = .ok b) : Branch.areComplete [b] = true := by
  -- an arm is no draft of a node, and so its own size need not be below the bound
  have hcond : sizeOf d.cond < sizeOf d := by cases d; simp +arith
  have hbody : sizeOf d.body < sizeOf d := by cases d; simp +arith
  rw [Draft.arm] at hb
  obtain ⟨span, -, hb⟩ := exists_of_bind hb
  obtain ⟨cond, hc, hb⟩ := exists_of_bind hb
  dsimp only at hb
  split at hb
  · cases hb
  · obtain ⟨statements, hs, hb⟩ := exists_of_bind hb
    cases hb
    have hstatements := h.nodes (by omega) hs
    rcases h.optional (by omega) hc with ⟨-, rfl⟩ | ⟨-, hcond'⟩
    · simp [Branch.areComplete, Block.isComplete, hstatements, Node.isMissing]
    · simp [Branch.areComplete, Block.isComplete, hstatements, hcond']

lemma CompleteBelow.arms (h : CompleteBelow size) {parent : Draft}
    {branches : List (Option Draft)} {bs : List Branch} (hsize : sizeOf branches < size)
    (hbs : arms parent branches = .ok bs) : Branch.areComplete bs = true := by
  induction branches generalizing bs with
  | nil =>
      rw [Document.arms] at hbs
      cases hbs
      rfl
  | cons child rest ih =>
      cases child with
      | none =>
          rw [Document.arms] at hbs
          cases hbs
      | some d =>
          rw [Document.arms] at hbs
          obtain ⟨b, hb, hbs⟩ := exists_of_bind hbs
          obtain ⟨rest', hrest, hbs⟩ := exists_of_bind hbs
          cases hbs
          simp only [List.cons.sizeOf_spec, Option.some.sizeOf_spec] at hsize
          have hhead := h.arm (by omega) hb
          have htail := ih (by omega) hrest
          cases b with
          | of cond body =>
              simp only [Branch.areComplete, Bool.and_true] at hhead ⊢
              rw [hhead, htail]
              rfl

/-- The fields of a draft are smaller than the draft. -/
lemma sizeOf_fields (d : Draft) :
    sizeOf d.target < sizeOf d ∧ sizeOf d.value < sizeOf d ∧ sizeOf d.left < sizeOf d ∧
      sizeOf d.right < sizeOf d ∧ sizeOf d.operand < sizeOf d ∧ sizeOf d.index < sizeOf d ∧
      sizeOf d.count < sizeOf d ∧ sizeOf d.cond < sizeOf d ∧ sizeOf d.source < sizeOf d ∧
      sizeOf d.items < sizeOf d ∧ sizeOf d.args < sizeOf d ∧ sizeOf d.body < sizeOf d ∧
      sizeOf d.branches < sizeOf d := by
  cases d
  simp +arith

/-- An evaluation without a constant has a value, since it has one of the two. -/
lemma isSome_value_of_contents {d : Draft} (hcontents : d.contents = 1)
    (hliteral : d.literal? = none) : d.value.isSome = true := by
  unfold Draft.contents at hcontents
  unfold Draft.literal? at hliteral
  cases hb : d.bool with
  | some b => simp [hb] at hliteral
  | none =>
      cases ht : d.text with
      | some t => simp [hb, ht] at hliteral
      | none =>
          cases hn : d.number with
          | some n => simp [hb, ht, hn] at hliteral
          | none =>
              cases hv : d.value with
              | none => simp [hb, ht, hn, hv] at hcontents
              | some v => rfl

/-- The constant of a draft has a value. -/
lemma isSupported_of_literal? {d : Draft} {l : Literal} (h : d.literal? = some l) :
    l.isSupported = true := by
  unfold Draft.literal? at h
  cases hb : d.bool with
  | some b =>
      simp [hb] at h
      rw [← h]
      rfl
  | none =>
      cases ht : d.text with
      | some t =>
          simp [hb, ht] at h
          rw [← h]
          rfl
      | none =>
          cases hn : d.number with
          | some n =>
              simp [hb, ht, hn] at h
              rw [← h]
              rfl
          | none => simp [hb, ht, hn] at h

/-- The relation of a draft is a known one. -/
lemma isSome_of_relation {d : Draft} {op : String} (h : d.relation = .ok op) :
    (Relation.ofText? op).isSome = true := by
  unfold Draft.relation at h
  dsimp only at h
  split at h
  · rename_i hknown
    cases h
    exact hknown
  · cases h

/-- A draft that can be converted becomes a complete node. -/
theorem isComplete_convert (size : Nat) : CompleteBelow size := by
  induction size with
  | zero => exact fun d k n hd => absurd hd (Nat.not_lt_zero _)
  | succ size ih =>
      intro d k n hd hn
      obtain ⟨htarget, hvalue, hleft, hright, hoperand, hindex, hcount, hcond, hsource, hitems,
        hargs, hbody, hbranches⟩ := sizeOf_fields d
      have hrequired : ∀ {what : String} {child : Option Draft} {n : Node},
          sizeOf child < sizeOf d → required d what child = .ok n → n.isComplete = true :=
        fun hsize hn => ih.required (by omega) hn
      have hnodes : ∀ {children : List (Option Draft)} {ns : List Node},
          sizeOf children < sizeOf d → nodes children = .ok ns → Node.areComplete ns = true :=
        fun hsize hns => ih.nodes (by omega) hns
      -- each kind asks for its fields in turn, and gives up at the first that is not there
      rw [Draft.convert.eq_def] at hn
      obtain ⟨span, -, hn⟩ := exists_of_bind hn
      cases k with
      | pass =>
          cases hn
          rfl
      | assignment =>
          obtain ⟨target, ht, hn⟩ := exists_of_bind hn
          dsimp only at hn
          split at hn
          · cases hn
          · rename_i hok
            obtain ⟨value, hv, hn⟩ := exists_of_bind hn
            cases hn
            simpa [Node.isComplete, hrequired htarget ht, hrequired hvalue hv] using hok
      | eval =>
          obtain ⟨inner, hi, hn⟩ := exists_of_bind hn
          dsimp only at hn
          split at hn
          · cases hn
          · rename_i hcontents
            split at hn
            · rename_i l hl
              cases hn
              simp [Node.isComplete, isSupported_of_literal? hl]
            · rename_i hl
              cases hn
              have hsome := isSome_value_of_contents (by simpa using hcontents) hl
              rcases ih.optional (by omega) hi with ⟨hnone, -⟩ | ⟨-, hinner⟩
              · simp [hnone] at hsome
              · simp [Node.isComplete, hinner]
      | add | sub | mul | div | mod | and | or =>
          obtain ⟨left, hl, hn⟩ := exists_of_bind hn
          obtain ⟨right, hr, hn⟩ := exists_of_bind hn
          cases hn
          simp [Node.isComplete, Kind.operators, hrequired hleft hl, hrequired hright hr]
      | negate | not =>
          obtain ⟨operand, ho, hn⟩ := exists_of_bind hn
          cases hn
          simp [Node.isComplete, hrequired hoperand ho]
      | relation =>
          obtain ⟨op, ho, hn⟩ := exists_of_bind hn
          obtain ⟨left, hl, hn⟩ := exists_of_bind hn
          obtain ⟨right, hr, hn⟩ := exists_of_bind hn
          cases hn
          simp [Node.isComplete, isSome_of_relation ho, hrequired hleft hl, hrequired hright hr]
      | identifier =>
          obtain ⟨name, -, hn⟩ := exists_of_bind hn
          cases hn
          rfl
      | listElement =>
          obtain ⟨list, -, hn⟩ := exists_of_bind hn
          obtain ⟨index, hi, hn⟩ := exists_of_bind hn
          cases hn
          simp [Node.isComplete, hrequired hindex hi]
      | list =>
          obtain ⟨items, hi, hn⟩ := exists_of_bind hn
          cases hn
          simp [Node.isComplete, hnodes hitems hi]
      | functionCall =>
          obtain ⟨callee, -, hn⟩ := exists_of_bind hn
          obtain ⟨args, ha, hn⟩ := exists_of_bind hn
          cases hn
          simp [Node.isComplete, hnodes hargs ha]
      | block =>
          obtain ⟨body, hb, hn⟩ := exists_of_bind hn
          cases hn
          simp [Node.isComplete, Block.isComplete, hnodes hbody hb]
      | repeatTimes =>
          obtain ⟨count, hc, hn⟩ := exists_of_bind hn
          obtain ⟨body, hb, hn⟩ := exists_of_bind hn
          cases hn
          simp [Node.isComplete, Block.isComplete, hrequired hcount hc, hnodes hbody hb]
      | repeatUntil =>
          obtain ⟨cond, hc, hn⟩ := exists_of_bind hn
          obtain ⟨body, hb, hn⟩ := exists_of_bind hn
          cases hn
          simp [Node.isComplete, Block.isComplete, hrequired hcond hc, hnodes hbody hb]
      | ifElse =>
          dsimp only at hn
          split at hn
          · cases hn
          · obtain ⟨branches, hb, hn⟩ := exists_of_bind hn
            cases hn
            simpa [Node.isComplete] using ih.arms (by omega) hb
      | forEach =>
          obtain ⟨var, -, hn⟩ := exists_of_bind hn
          obtain ⟨source, hs, hn⟩ := exists_of_bind hn
          obtain ⟨body, hb, hn⟩ := exists_of_bind hn
          cases hn
          simp [Node.isComplete, Block.isComplete, hrequired hsource hs, hnodes hbody hb]
      | «return» =>
          obtain ⟨value, hv, hn⟩ := exists_of_bind hn
          cases hn
          rcases ih.optional (by omega) hv with ⟨-, rfl⟩ | ⟨-, hvalue⟩
          · rfl
          · simp [Node.isComplete, hvalue]
      | procedure =>
          obtain ⟨name, -, hn⟩ := exists_of_bind hn
          obtain ⟨body, hb, hn⟩ := exists_of_bind hn
          cases hn
          simp [Node.isComplete, Procedure.isComplete, Block.isComplete, hnodes hbody hb]
      | other code => cases hn

lemma isComplete_toProcedure {d : Draft} {p : Procedure} (h : d.toProcedure = .ok p) :
    p.isComplete = true := by
  unfold Draft.toProcedure at h
  dsimp only at h
  split at h
  · cases h
  · obtain ⟨n, hn, h⟩ := exists_of_bind h
    have hcomplete := isComplete_convert (sizeOf d + 1) d .procedure n (by omega) hn
    split at h
    · cases h
      simpa [Node.isComplete] using hcomplete
    · cases h

/-- What is found of every element is found of all that a list is mapped to. -/
lemma forall_of_mapM {α β : Type} {f : α → Except Error β} {P : β → Prop}
    (hf : ∀ a b, f a = .ok b → P b) {as : List α} {bs : List β} (h : as.mapM f = .ok bs) :
    ∀ b ∈ bs, P b := by
  induction as generalizing bs with
  | nil =>
      cases h
      simp
  | cons a as ih =>
      rw [List.mapM_cons] at h
      obtain ⟨b, hb, h⟩ := exists_of_bind h
      obtain ⟨rest, hrest, h⟩ := exists_of_bind h
      cases h
      exact List.forall_mem_cons.mpr ⟨hf a b hb, ih hrest⟩

/-- A program that a document describes is complete. -/
theorem Outline.isComplete_toProgram {o : Outline} {program : Program}
    (h : o.toProgram = .ok program) : program.isComplete = true := by
  obtain ⟨procedures, hp, h⟩ := exists_of_bind h
  obtain ⟨statements, hs, h⟩ := exists_of_bind h
  cases h
  have hprocedures : ∀ p ∈ procedures, p.isComplete = true := by
    refine forall_of_mapM (fun child p hchild => ?_) hp
    cases child with
    | none => cases hchild
    | some d => exact isComplete_toProcedure hchild
  have hstatements := (isComplete_convert (sizeOf o.statements + 1)).nodes (by omega) hs
  simpa [Program.isComplete, hstatements] using hprocedures

end Document

end Pseudocode
