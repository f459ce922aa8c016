/-
# The configuration in effect

Seven settings say how a program is run and what is logged.  Each of them has a flag and a key in
one of the two tables of a configuration text.  This file says where the value of a setting comes
from: the flag that was given last, or else the text of the configuration file, or else the
standard.  The answer is the same for all settings, so a setting is a member of a finite type, with
its flag, its table, its key, and how it is read off a configuration, and what is said holds of each
of them.

A configuration is also written as such a text, and read back it is the same.  So a configuration
that has been printed may be used as the file of a later run, and is in effect there.

The main results are

* `Config.load_dump`: a configuration is read back as it was written;
* `Config.settled_of_load`: where the settings of a file come from;
* `Config.settled_and_reproduced`: the configuration in effect.
-/
import Pseudocode.Command.Plan
import Pseudocode.Proofs.Arguments
import Pseudocode.Proofs.Documents
import Pseudocode.Proofs.Keys

namespace Pseudocode

open Toml (Scalar)

/-- What a configuration settles. -/
inductive Setting where
  | step | speed | maxSteps | maxDepth | seed | verbose | noColor
deriving DecidableEq, Repr

namespace Setting

/-- The table of a configuration text where a setting stands. -/
def table : Setting → String
  | verbose | noColor => "Logging"
  | _ => "Run"

/-- The key of a setting in its table. -/
def key : Setting → String
  | step => "Step"
  | speed => "Speed"
  | maxSteps => "MaxSteps"
  | maxDepth => "MaxDepth"
  | seed => "Seed"
  | verbose => "Verbose"
  | noColor => "NoColor"

/-- The flag of a setting. -/
def flag : Setting → String
  | step => "s"
  | speed => "speed"
  | maxSteps => "max-steps"
  | maxDepth => "max-depth"
  | seed => "seed"
  | verbose => "v"
  | noColor => "n"

lemma key_injective {s s' : Setting} (h : s.key = s'.key) : s = s' := by
  cases s <;> cases s' <;> first | rfl | exact absurd h (by decide)

/-- What a configuration says of a setting. -/
def of : Setting → Config → Scalar
  | step, c => .flag c.run.step
  | speed, c => .whole c.run.speed
  | maxSteps, c => .whole c.run.maxSteps
  | maxDepth, c => .whole c.run.maxDepth
  | seed, c => .whole c.run.seed
  | verbose, c => .flag c.logging.verbose
  | noColor, c => .flag c.logging.noColor

/-- What the text of a flag says of a setting. -/
def readFlag? (s : Setting) (text : String) : Option Scalar :=
  match s with
  | step | verbose | noColor => (Flags.readBool? text).map .flag
  | speed | maxSteps | maxDepth | seed => (Flags.readInt64? text).map .whole

end Setting

/-- A scalar that is no number of more than 64 bits. -/
def Toml.Scalar.Fits : Scalar → Prop
  | .flag _ => True
  | .whole i => Number.fitsInt64 i = true

/-- What a value of a configuration text stands for, if it is a truth value or a whole number. -/
def Toml.Value.scalar? : Toml.Value → Option Scalar
  | .bool b => some (.flag b)
  | .integer digits => (Number.intInRadix? 10 digits.toList).map .whole
  | _ => none

namespace Config

/-- A configuration of which all numbers have at most 64 bits. -/
def Fits (c : Config) : Prop := ∀ s : Setting, (s.of c).Fits

lemma ext_of {c c' : Config} (h : ∀ s : Setting, s.of c = s.of c') : c = c' := by
  obtain ⟨⟨_, _, _, _, _⟩, ⟨_, _⟩⟩ := c
  obtain ⟨⟨_, _, _, _, _⟩, ⟨_, _⟩⟩ := c'
  have h₁ := h .step; have h₂ := h .speed; have h₃ := h .maxSteps; have h₄ := h .maxDepth
  have h₅ := h .seed; have h₆ := h .verbose; have h₇ := h .noColor
  simp_all [Setting.of]

lemma fits_standard : standard.Fits := by
  intro s
  cases s <;> trivial

/-! ### A configuration that has been written -/

/-- The rows of settings. -/
def rows (settings : List Setting) (c : Config) : List Toml.Row :=
  settings.map fun s => (s.key, s.of c)

/-- The table of the run options. -/
def runSection (c : Config) : Toml.Section :=
  ("Run", rows [.step, .speed, .maxSteps, .maxDepth, .seed] c)

/-- The table of the log options. -/
def logSection (c : Config) : Toml.Section := ("Logging", rows [.verbose, .noColor] c)

lemma dump_eq_written (c : Config) :
    c.dump = String.ofList (Toml.written c.runSection [c.logSection]) := by
  apply String.toList_inj.1
  unfold dump line
  simp [Toml.written, runSection, logSection, rows, Setting.key, Setting.of, Toml.Section.chars,
    Toml.Row.chars, Toml.Scalar.text]

lemma bare_key (s : Setting) : Toml.Bare s.key := by
  cases s <;> exact ⟨by decide, List.all_eq_true.1 rfl⟩

lemma bare_rows {settings : List Setting} {c : Config} : ∀ r ∈ rows settings c, Toml.Bare r.1 := by
  intro r hr
  obtain ⟨s, -, rfl⟩ := List.mem_map.1 hr
  exact bare_key s

lemma bare_sections (c : Config) : ∀ s ∈ [c.runSection, c.logSection], s.Bare := by
  have hrun : Toml.Bare "Run" := ⟨by decide, List.all_eq_true.1 rfl⟩
  have hlog : Toml.Bare "Logging" := ⟨by decide, List.all_eq_true.1 rfl⟩
  intro s hs
  simp only [List.mem_cons, List.not_mem_nil, or_false] at hs
  rcases hs with rfl | rfl
  · exact ⟨hrun, bare_rows⟩
  · exact ⟨hlog, bare_rows⟩

/-- A whole number of at most 64 bits is read as it was printed. -/
lemma readInt_value {i : Int} (h : Number.fitsInt64 i = true) (wanted : String) :
    readInt wanted (.integer i.repr) = .ok i := by
  have hread : Number.intInRadix? 10 i.repr.toList = some i := Number.intInRadix_toString i
  rw [readInt, hread]
  simp [h]

/-- A configuration is read back as it was written. -/
theorem load_dump {c : Config} (hc : c.Fits) (file : String) :
    load file (some c.dump) = .ok c := by
  obtain ⟨t, ht, hfields⟩ := Toml.Table.ofText_written c.bare_sections
    (by simp [runSection, logSection]) (by simp [runSection, logSection, rows, Setting.key])
  rw [← dump_eq_written] at ht
  simp only [List.forall₂_cons_left_iff, List.forall₂_nil_left_iff] at hfields
  obtain ⟨_, _, ⟨run, rfl, hrun⟩, ⟨_, _, ⟨log, rfl, hlog⟩, rfl, rfl⟩, hfields⟩ := hfields
  obtain ⟨runLine, hrun⟩ := Toml.Table.HasRows.exists_lines hrun
  obtain ⟨logLine, hlog⟩ := Toml.Table.HasRows.exists_lines hlog
  -- all fields are set, one after the other
  have hsetRun (o : RunOptions) :
      readTable "Run" "config.RunConfig" RunOptions.setField o (.table run) = .ok c.run := by
    simp only [readTable, hrun]
    simp [runSection, rows, Setting.key, Setting.of, Toml.Scalar.value, RunOptions.setField,
      readField, readBool, readInt_value (hc .speed), readInt_value (hc .maxSteps),
      readInt_value (hc .maxDepth), readInt_value (hc .seed), Except.mapError]
    rfl
  have hsetLog (o : LogOptions) :
      readTable "Logging" "config.LogConfig" LogOptions.setField o (.table log) =
        .ok c.logging := by
    simp only [readTable, hlog]
    simp [logSection, rows, Setting.key, Setting.of, Toml.Scalar.value, LogOptions.setField,
      readField, readBool, Except.mapError]
    rfl
  rw [load, ofText, ht]
  simp [hfields, runSection, logSection, setTable, hsetRun, hsetLog]
  rfl

/-! ### Where the settings of a file come from -/

lemma exists_of_readField {α : Type} {owner name wanted : String}
    {read : Toml.Value → Except Refusal α} {f : Toml.Field} {a : α}
    (e : readField owner name wanted read f = .ok a) :
    ∃ w line, f = .value w line ∧ read w = .ok a := by
  cases f with
  | value w line =>
      refine ⟨w, line, rfl, ?_⟩
      simp only [readField] at e
      cases h : read w with
      | ok b => rw [h] at e; exact congrArg _ (Except.ok.inj e)
      | error r => rw [h] at e; exact nomatch e
  | table t => exact nomatch e
  | tables first others => exact nomatch e

lemma scalar_of_readBool {w : Toml.Value} {b : Bool} (e : readBool w = .ok b) :
    w.scalar? = some (.flag b) := by
  cases w with
  | bool b' => exact congrArg (some ∘ Scalar.flag) (Except.ok.inj e)
  | _ => exact nomatch e

lemma scalar_of_readInt {wanted : String} {w : Toml.Value} {i : Int}
    (e : readInt wanted w = .ok i) : w.scalar? = some (.whole i) ∧ (Scalar.whole i).Fits := by
  cases w with
  | integer digits =>
      rw [readInt] at e
      split at e
      · rename_i j hj
        split at e
        · rename_i hfits
          obtain rfl := Except.ok.inj e
          exact ⟨by simp [Toml.Value.scalar?, hj], hfits⟩
        · exact nomatch e
      · exact nomatch e
  | _ => exact nomatch e

/-- A setting that is set by a key of its own: it gets the value, and no other setting changes. -/
def Sets (old new : Setting → Scalar) (name : String) (f : Toml.Field) : Prop :=
  ∃ s w line v, name = Setting.key s ∧ f = .value w line ∧ Toml.Value.scalar? w = some v ∧
    v.Fits ∧ ∀ s', new s' = if s' = s then v else old s'

lemma sets_of_readBool {owner name : String} {f : Toml.Field} {b : Bool} {s : Setting}
    {old new : Setting → Scalar} (e : readField owner name "bool" readBool f = .ok b)
    (hname : name = s.key) (hnew : ∀ s', new s' = if s' = s then .flag b else old s') :
    Sets old new name f := by
  obtain ⟨w, line, rfl, hw⟩ := exists_of_readField e
  exact ⟨s, w, line, _, hname, rfl, scalar_of_readBool hw, trivial, hnew⟩

lemma sets_of_readInt {owner name wanted wanted' : String} {f : Toml.Field} {i : Int} {s : Setting}
    {old new : Setting → Scalar} (e : readField owner name wanted (readInt wanted') f = .ok i)
    (hname : name = s.key) (hnew : ∀ s', new s' = if s' = s then .whole i else old s') :
    Sets old new name f := by
  obtain ⟨w, line, rfl, hw⟩ := exists_of_readField e
  obtain ⟨hv, hfits⟩ := scalar_of_readInt hw
  exact ⟨s, w, line, _, hname, rfl, hv, hfits, hnew⟩

lemma sets_of_runField {o o' : RunOptions} {name : String} {f : Toml.Field}
    (e : o.setField name f = .ok o') (logging : LogOptions) :
    Sets (Setting.of · ⟨o, logging⟩) (Setting.of · ⟨o', logging⟩) name f := by
  simp only [RunOptions.setField] at e
  split at e
  · obtain ⟨b, hb, e⟩ := Toml.exists_of_bind_ok e
    obtain rfl := Except.ok.inj e
    exact sets_of_readBool (s := .step) hb rfl fun s' => by cases s' <;> rfl
  · obtain ⟨i, hi, e⟩ := Toml.exists_of_bind_ok e
    obtain rfl := Except.ok.inj e
    exact sets_of_readInt (s := .speed) hi rfl fun s' => by cases s' <;> rfl
  · obtain ⟨i, hi, e⟩ := Toml.exists_of_bind_ok e
    obtain rfl := Except.ok.inj e
    exact sets_of_readInt (s := .maxSteps) hi rfl fun s' => by cases s' <;> rfl
  · obtain ⟨i, hi, e⟩ := Toml.exists_of_bind_ok e
    obtain rfl := Except.ok.inj e
    exact sets_of_readInt (s := .maxDepth) hi rfl fun s' => by cases s' <;> rfl
  · obtain ⟨i, hi, e⟩ := Toml.exists_of_bind_ok e
    obtain rfl := Except.ok.inj e
    exact sets_of_readInt (s := .seed) hi rfl fun s' => by cases s' <;> rfl
  · exact nomatch e

lemma sets_of_logField {o o' : LogOptions} {name : String} {f : Toml.Field}
    (e : o.setField name f = .ok o') (run : RunOptions) :
    Sets (Setting.of · ⟨run, o⟩) (Setting.of · ⟨run, o'⟩) name f := by
  simp only [LogOptions.setField] at e
  split at e
  · obtain ⟨b, hb, e⟩ := Toml.exists_of_bind_ok e
    obtain rfl := Except.ok.inj e
    exact sets_of_readBool (s := .verbose) hb rfl fun s' => by cases s' <;> rfl
  · obtain ⟨b, hb, e⟩ := Toml.exists_of_bind_ok e
    obtain rfl := Except.ok.inj e
    exact sets_of_readBool (s := .noColor) hb rfl fun s' => by cases s' <;> rfl
  · exact nomatch e

/-- Something that one name alone changes, when fields of distinct names are set: it is as it was
before if there is no field of the name, and else as it is made by that field. -/
lemma foldlM_see {σ V ε : Type} {set : σ → String → Toml.Field → Except ε σ} {key : String}
    (see : σ → V)
    (hother : ∀ o name f o', name ≠ key → set o name f = .ok o' → see o' = see o) :
    ∀ {fields : List (String × Toml.Field)} {o o' : σ}, (fields.map Prod.fst).Nodup →
      fields.foldlM (fun o (name, f) => set o name f) o = .ok o' →
      (fields.lookup key = none ∧ see o' = see o) ∨
        ∃ f o₁ o₂, fields.lookup key = some f ∧ set o₁ key f = .ok o₂ ∧ see o₁ = see o ∧
          see o' = see o₂ := by
  intro fields
  induction fields with
  | nil =>
      intro o o' _ e
      obtain rfl := Except.ok.inj e
      exact .inl ⟨rfl, rfl⟩
  | cons field fields ih =>
      obtain ⟨name, f⟩ := field
      intro o o' hnames e
      rw [List.map_cons, List.nodup_cons] at hnames
      rw [List.foldlM_cons] at e
      obtain ⟨o₁, e₁, e⟩ := Toml.exists_of_bind_ok e
      by_cases hname : name = key
      · subst hname
        refine .inr ⟨f, o, o₁, by simp, e₁, rfl, ?_⟩
        -- the name does not come again
        rcases ih hnames.2 e with ⟨-, h⟩ | ⟨f', _, _, hf', -⟩
        · exact h
        · obtain ⟨l₁, l₂, hl, -⟩ := List.lookup_eq_some_iff.1 hf'
          exact absurd (show name ∈ fields.map Prod.fst by simp [hl]) hnames.1
      · have hlookup : ((name, f) :: fields).lookup key = fields.lookup key := by
          rw [List.lookup_cons, show (key == name) = false by simpa using Ne.symm hname]
        have hsee := hother o name f o₁ hname e₁
        rw [hlookup, ← hsee]
        exact ih hnames.2 e

/-- What a table says of a setting: nothing, and then nothing has changed, or a value. -/
def Says (u : Toml.Table) (s : Setting) (old new : Scalar) : Prop :=
  (u.get? s.key = none ∧ new = old) ∨
    ∃ w line, u.get? s.key = some (.value w line) ∧ w.scalar? = some new ∧ new.Fits

lemma says_of_sets {σ : Type} {set : σ → String → Toml.Field → Except Error σ}
    {u : Toml.Table} {o o' : σ} (see : σ → Setting → Scalar)
    (hset : ∀ o name f o', set o name f = .ok o' → Sets (see o) (see o') name f)
    (hu : u.Distinct)
    (e : u.fields.foldlM (fun o (name, f) => set o name f) o = .ok o') (s : Setting) :
    Says u s (see o s) (see o' s) := by
  have hother : ∀ o name f o', name ≠ s.key → set o name f = .ok o' → see o' s = see o s := by
    intro o name f o' hname e
    obtain ⟨s', w, line, v, rfl, -, -, -, hnew⟩ := hset o name f o' e
    rw [hnew, if_neg fun h => hname (by rw [h])]
  rcases foldlM_see (see · s) hother (hu 1).1 e with h | ⟨f, o₁, o₂, hf, e₂, -, hsee⟩
  · exact .inl h
  · obtain ⟨s', w, line, v, hs', rfl, hv, hfits, hnew⟩ := hset o₁ s.key f o₂ e₂
    obtain rfl := Setting.key_injective hs'
    rw [hnew, if_pos rfl] at hsee
    exact .inr ⟨w, line, hf, hsee ▸ hv, hsee ▸ hfits⟩

lemma exists_of_readTable {α : Type} {name wanted : String}
    {set : α → String → Toml.Field → Except Error α} {old new : α} {f : Toml.Field}
    (e : readTable name wanted set old f = .ok new) :
    ∃ u, f = .table u ∧ u.fields.foldlM (fun o (name, f) => set o name f) old = .ok new := by
  cases f with
  | table u => exact ⟨u, rfl, e⟩
  | value w line => exact nomatch e
  | tables first others => exact nomatch e

/-- A table of a configuration text changes what stands in it, and nothing else. -/
lemma says_of_setTable {c c' : Config} {name : String} {f : Toml.Field}
    (e : setTable c name f = .ok c') :
    ∃ u, f = .table u ∧ ∀ s : Setting,
      (name ≠ s.table → s.of c' = s.of c) ∧
      (name = s.table → u.Distinct → Says u s (s.of c) (s.of c')) := by
  unfold setTable at e
  split at e
  · obtain ⟨run, hrun, e⟩ := Toml.exists_of_bind_ok e
    obtain rfl := Except.ok.inj e
    obtain ⟨u, rfl, hu⟩ := exists_of_readTable hrun
    refine ⟨u, rfl, fun s => ⟨fun h => ?_, fun _ hd => ?_⟩⟩
    · cases s <;> first | rfl | exact absurd rfl h
    · exact says_of_sets (fun o s => s.of ⟨o, c.logging⟩)
        (fun o name f o' e => sets_of_runField e c.logging) hd hu s
  · obtain ⟨log, hlog, e⟩ := Toml.exists_of_bind_ok e
    obtain rfl := Except.ok.inj e
    obtain ⟨u, rfl, hu⟩ := exists_of_readTable hlog
    refine ⟨u, rfl, fun s => ⟨fun h => ?_, fun _ hd => ?_⟩⟩
    · cases s <;> first | rfl | exact absurd rfl h
    · exact says_of_sets (fun o s => s.of ⟨c.run, o⟩)
        (fun o name f o' e => sets_of_logField e c.run) hd hu s
  · exact nomatch e

end Config

/-- A text gives a setting a value: there is a table that has its key. -/
def Setting.GivenBy (s : Setting) (t : Toml.Table) (v : Scalar) : Prop :=
  ∃ u w line, t.get? s.table = some (.table u) ∧ u.get? s.key = some (.value w line) ∧
    w.scalar? = some v

/-- A text does not mention a setting. -/
def Setting.AbsentFrom (s : Setting) (t : Toml.Table) : Prop :=
  ∀ u, t.get? s.table = some (.table u) → u.get? s.key = none

namespace Config

/-- The configuration of a file has the values that are given in the file, and is standard
otherwise.  All numbers in it fit. -/
theorem settled_of_load {file text : String} {c : Config} (h : load file (some text) = .ok c) :
    c.Fits ∧ ∃ t, Toml.Table.ofText text = .ok t ∧ ∀ s : Setting,
      s.GivenBy t (s.of c) ∨ (s.AbsentFrom t ∧ s.of c = s.of standard) := by
  have htext : ofText text = .ok c := by
    rw [load] at h
    cases hc : ofText text with
    | ok c' => rw [hc] at h; exact congrArg _ (Except.ok.inj h)
    | error e => rw [hc] at h; exact nomatch h
  rw [ofText] at htext
  cases ht : Toml.Table.ofText text with
  | error e => rw [ht] at htext; exact nomatch htext
  | ok t =>
      rw [ht] at htext
      have hd := Toml.Table.ofText_distinct ht
      have hother (s : Setting) : ∀ c name f c', name ≠ s.table → setTable c name f = .ok c' →
          s.of c' = s.of c := by
        intro c name f c' hname e
        obtain ⟨u, rfl, hu⟩ := says_of_setTable e
        exact (hu s).1 hname
      have hsettled (s : Setting) : (s.GivenBy t (s.of c) ∧ (s.of c).Fits) ∨
          (s.AbsentFrom t ∧ s.of c = s.of standard) := by
        rcases foldlM_see s.of (hother s) (hd 1).1 htext with
          ⟨hnone, hsee⟩ | ⟨f, c₁, c₂, hf, e, hsee₁, hsee₂⟩
        · exact .inr ⟨fun u hu => absurd hu (by rw [Toml.Table.get?, hnone]; simp), hsee⟩
        · obtain ⟨u, rfl, hu⟩ := says_of_setTable e
          have hu' : u.Distinct := fun depth => (hd (depth + 1)).of_get? hf .table
          rw [hsee₂]
          rcases (hu s).2 rfl hu' with ⟨hnone, hsame⟩ | ⟨w, line, hw, hv, hfits⟩
          · refine .inr ⟨fun u' hf' => ?_, hsame.trans hsee₁⟩
            obtain rfl : u = u' := by simpa [Toml.Table.get?, hf] using hf'
            exact hnone
          · exact .inl ⟨⟨u, w, line, hf, hw, hv⟩, hfits⟩
      refine ⟨fun s => ?_, t, rfl, fun s => (hsettled s).imp And.left id⟩
      rcases hsettled s with ⟨-, hfits⟩ | ⟨-, e⟩
      · exact hfits
      · rw [e]
        exact fits_standard s

end Config

/-! ### The flags that were given -/

namespace Flags

/-- The text that a flag was given last. -/
def lastGiven (given : List (String × String)) (name : String) : Option String :=
  given.reverse.lookup name

lemma lastGiven_concat (given : List (String × String)) (g : String × String) (name : String) :
    lastGiven (given ++ [g]) name = if name = g.1 then some g.2 else lastGiven given name := by
  rw [lastGiven, List.reverse_append, List.reverse_singleton, List.singleton_append]
  split
  · next h => rw [h, List.lookup_cons_self]
  · next h =>
      rw [List.lookup_cons, show (name == g.1) = false by simpa using h]
      rfl

variable {f f' flags : Flags} {name value : String} {given : List (String × String)}

/-- A flag sets its own setting, and the flag for the file sets the file. -/
lemma assign_cases (e : f.assign? name value = some f') :
    f'.given = f.given ∧
      f'.configFile = (if name = "config" then value else f.configFile) ∧
      ∀ s : Setting, if name = s.flag then s.readFlag? value = some (s.of f'.config)
        else s.of f'.config = s.of f.config := by
  unfold assign? at e
  split at e
  case h_3 =>
    obtain rfl := Option.some.inj e
    exact ⟨rfl, rfl, fun s => by cases s <;> rfl⟩
  case h_11 => exact nomatch e
  all_goals
    obtain ⟨a, ha, rfl⟩ := Option.map_eq_some_iff.1 e
    exact ⟨rfl, rfl, fun s => by cases s <;> simp [Setting.flag, Setting.readFlag?, Setting.of, ha]⟩

/-- The values of flags are those that were given last, and standard where none was given. -/
structure Agrees (flags : Flags) (given : List (String × String)) : Prop where
  noted (name : String) : name ∈ flags.given ↔ (lastGiven given name).isSome = true
  file : flags.configFile = (lastGiven given "config").getD ""
  setting (s : Setting) : match lastGiven given s.flag with
    | some text => s.readFlag? text = some (s.of flags.config)
    | none => s.of flags.config = s.of .standard

lemma agrees_nil : Agrees {} [] where
  noted := fun name => by simp [lastGiven]
  file := rfl
  setting := fun s => rfl

lemma Agrees.give (h : Agrees f given) (e : f.give name value = .ok f') :
    Agrees f' (given ++ [(name, value)]) := by
  rw [Flags.give] at e
  split at e
  · rename_i g hg
    obtain rfl := Except.ok.inj e
    obtain ⟨hgiven, hfile, hset⟩ := assign_cases hg
    constructor
    case noted =>
      intro n
      have hn := h.noted n
      rw [lastGiven_concat]
      split <;> simp_all
    case file =>
      have hf := h.file
      rw [lastGiven_concat]
      split <;> simp_all [eq_comm]
    case setting =>
      intro s
      have hs := h.setting s
      have hnew := hset s
      rw [lastGiven_concat]
      by_cases hname : name = s.flag
      · subst hname
        simpa using hnew
      · rw [if_neg fun hn => hname hn.symm]
        rw [if_neg hname] at hnew
        show match lastGiven given s.flag with
          | some text => s.readFlag? text = some (s.of g.config)
          | none => s.of g.config = s.of .standard
        rw [hnew]
        exact hs
  · exact nomatch e

lemma Agrees.giveAll : ∀ {given' : List (String × String)} {f : Flags}, Agrees f given →
    f.giveAll given' = .ok flags → Agrees flags (given ++ given') := by
  intro given'
  induction given' generalizing given with
  | nil =>
      intro f h e
      obtain rfl := Except.ok.inj e
      simpa using h
  | cons g given' ih =>
      intro f h e
      rw [Flags.giveAll, List.foldlM_cons] at e
      obtain ⟨f', hf', e⟩ := Toml.exists_of_bind_ok e
      simpa using ih (h.give hf') e

/-- The flags that are taken from arguments have the values that are spelled there. -/
lemma agrees_of_take {arguments others : List String} (hspells : Spells arguments given others)
    (h : take {} arguments = .ok (flags, others)) : Agrees flags given := by
  rw [take_of_spells hspells] at h
  cases hgive : Flags.giveAll {} given with
  | error e => rw [hgive] at h; exact nomatch h
  | ok flags' =>
      rw [hgive] at h
      obtain rfl : flags' = flags := congrArg Prod.fst (Except.ok.inj h)
      simpa using agrees_nil.giveAll hgive

/-- A flag that was given wins over the file. -/
lemma of_withFile (f : Flags) (file : Config) (s : Setting) :
    s.of (f.withFile file) = if s.flag ∈ f.given then s.of f.config else s.of file := by
  by_cases h : s.flag ∈ f.given <;> cases s <;>
    simp_all [Flags.withFile, Setting.of, Setting.flag]


end Flags

/-! ### The configuration in effect -/

open Flags (lastGiven Spells)

/-- Where the value of a setting comes from: from the flag, from the configuration file, or, if none
of them gives it, from the standard. -/
inductive Setting.Settled (s : Setting) (given : List (String × String))
    (files : String → Option String) : Scalar → Prop
  | flag {text : String} {v : Scalar} (h : lastGiven given s.flag = some text)
      (hv : s.readFlag? text = some v) : Settled s given files v
  | file {file text : String} {t : Toml.Table} {v : Scalar} (h : lastGiven given s.flag = none)
      (hfile : lastGiven given "config" = some file) (hne : file ≠ "")
      (htext : files file = some text) (ht : Toml.Table.ofText text = .ok t)
      (hv : s.GivenBy t v) : Settled s given files v
  | silent {file text : String} {t : Toml.Table} (h : lastGiven given s.flag = none)
      (hfile : lastGiven given "config" = some file) (hne : file ≠ "")
      (htext : files file = some text) (ht : Toml.Table.ofText text = .ok t)
      (hv : s.AbsentFrom t) : Settled s given files (s.of .standard)
  | standard (h : lastGiven given s.flag = none) (hfile : (lastGiven given "config").getD "" = "") :
      Settled s given files (s.of .standard)

lemma Setting.fits_of_readFlag {s : Setting} {text : String} {v : Scalar}
    (h : s.readFlag? text = some v) : v.Fits := by
  cases s with
  | step | verbose | noColor =>
      obtain ⟨b, -, rfl⟩ := Option.map_eq_some_iff.1 h
      trivial
  | speed | maxSteps | maxDepth | seed =>
      obtain ⟨i, hi, rfl⟩ := Option.map_eq_some_iff.1 h
      exact (Option.filter_eq_some_iff.1 hi).2

namespace Config

variable {flags : Flags} {given : List (String × String)} {files : String → Option String}
  {config : Config}

lemma fits_of_agrees (h : flags.Agrees given) : flags.config.Fits := by
  intro s
  have hs := h.setting s
  split at hs
  · exact Setting.fits_of_readFlag hs
  · rw [hs]
    exact fits_standard s

/-- Without a configuration file, a setting is as its flag says, or standard. -/
lemma settled_without_file (h : flags.Agrees given) (hfile : flags.configFile = "") (s : Setting) :
    s.Settled given files (s.of flags.config) := by
  have hs := h.setting s
  split at hs
  · next text ht => exact .flag ht hs
  · next hnone =>
      rw [hs]
      exact .standard hnone (h.file.symm.trans hfile)

/-- The configuration in effect has every setting from where it is to come, and its numbers fit. -/
theorem settled_of_configOf (h : flags.Agrees given)
    (e : Plan.configOf flags files = .ok config) :
    config.Fits ∧ ∀ s : Setting, s.Settled given files (s.of config) := by
  rw [Plan.configOf] at e
  split at e
  · next hfile =>
      obtain rfl := Except.ok.inj e
      exact ⟨fits_of_agrees h, settled_without_file h hfile⟩
  · next hfile =>
      cases hload : load flags.configFile (files flags.configFile) with
      | error e' => rw [hload] at e; exact nomatch e
      | ok c =>
          rw [hload] at e
          obtain rfl := Except.ok.inj e
          -- there is such a file, and it was named by the flag
          obtain ⟨text, htext⟩ : ∃ text, files flags.configFile = some text := by
            cases htext : files flags.configFile with
            | none => rw [htext] at hload; exact nomatch hload
            | some text => exact ⟨text, rfl⟩
          have hname : lastGiven given "config" = some flags.configFile := by
            have hf := h.file
            cases hg : lastGiven given "config" with
            | none => exact absurd (by simpa [hg] using hf) hfile
            | some file => simpa [hg] using hf.symm
          rw [htext] at hload
          obtain ⟨hfits, t, ht, hsettled⟩ := settled_of_load hload
          have hwins (s : Setting) : (s.of (flags.withFile c)).Fits ∧
              s.Settled given files (s.of (flags.withFile c)) := by
            have hs := h.setting s
            have hnoted := h.noted s.flag
            rw [Flags.of_withFile]
            cases hg : lastGiven given s.flag with
            | some text' =>
                rw [if_pos (hnoted.2 (by simp [hg]))]
                rw [hg] at hs
                exact ⟨Setting.fits_of_readFlag hs, .flag hg hs⟩
            | none =>
                rw [if_neg fun hn => by simpa [hg] using hnoted.1 hn]
                refine ⟨hfits s, ?_⟩
                rcases hsettled s with hv | ⟨habsent, hv⟩
                · exact .file hg hname hfile htext ht hv
                · rw [hv]
                  exact .silent hg hname hfile htext ht habsent
          exact ⟨fun s => (hwins s).1, fun s => (hwins s).2⟩

/-- A configuration that has been printed is in effect where it is the file and no flag gives a
setting. -/
theorem configOf_dump {file : String} (h : flags.Agrees given) (hc : config.Fits)
    (hfile : lastGiven given "config" = some file) (hne : file ≠ "")
    (htext : files file = some config.dump)
    (hflags : ∀ s : Setting, lastGiven given s.flag = none) :
    Plan.configOf flags files = .ok config := by
  have hname : flags.configFile = file := by rw [h.file, hfile, Option.getD_some]
  rw [Plan.configOf, hname, if_neg hne, htext, load_dump hc]
  refine congrArg Except.ok (ext_of fun s => ?_)
  rw [Flags.of_withFile, if_neg fun hn => by simpa [hflags s] using (h.noted s.flag).1 hn]

lemma ok_of_toOption {ε α : Type} {x : Except ε α} {a : α} (h : x.toOption = some a) :
    x = .ok a := by
  cases x with
  | error e => exact nomatch h
  | ok b => exact congrArg _ (Option.some.inj h)

/-- A configuration is read back as it was written.  Where flags are given in the arguments, and the
configuration file is accepted, every setting in effect comes from its flag, or else from the file,
or else from the standard.  So where the configuration is to be printed, it is the one in effect
that is printed, and it is in effect again wherever that text is the configuration file and no flag
gives a setting. -/
theorem settled_and_reproduced :
    (∀ (c : Config) (file : String), c.Fits → load file (some c.dump) = .ok c) ∧
    ∀ (arguments others : List String) (flags : Flags),
      Flags.take {} arguments = .ok (flags, others) →
      (∃ given, Spells arguments given others) ∧
      ∀ given, Spells arguments given others →
        ∀ (files : String → Option String) (config : Config),
          Plan.configOf flags files = .ok config →
          (∀ s : Setting, s.Settled given files (s.of config)) ∧
          (flags.help = false → flags.dumpConfig = true →
            ∀ styled, Plan.ofArguments arguments files styled = .finish 0 config.dump []) ∧
          ∀ (file : String) (files' : String → Option String) (arguments' others' : List String)
            (given' : List (String × String)) (flags' : Flags), file ≠ "" →
            files' file = some config.dump → Spells arguments' given' others' →
            Flags.take {} arguments' = .ok (flags', others') →
            lastGiven given' "config" = some file →
            (∀ s : Setting, lastGiven given' s.flag = none) →
            ∀ styled, Plan.ofArguments arguments' files' styled
              = Plan.ofConfig flags' config styled others' := by
  refine ⟨fun c file hc => load_dump hc file, fun arguments others flags htake => ?_⟩
  refine ⟨(Flags.exists_spells htake).imp fun _ h => h.1, fun given hspells files config e => ?_⟩
  obtain ⟨hfits, hsettled⟩ := settled_of_configOf (Flags.agrees_of_take hspells htake) e
  refine ⟨hsettled, fun hhelp hdump styled => ?_, ?_⟩
  · rw [Plan.ofArguments, htake]
    simp [e, Plan.ofConfig, hhelp, hdump]
  · intro file files' arguments' others' given' flags' hne htext hspells' htake' hfile hflags styled
    have hagain := configOf_dump (Flags.agrees_of_take hspells' htake') hfits hfile hne htext hflags
    rw [Plan.ofArguments, htake']
    simp [hagain]

/-- A seed that is given by a flag, over a file that asks for steps: both are in effect, and again
when the text that is printed is the file. -/
theorem settled_seed_over_file :
    ∃ file config : Config, file.run.step = true ∧ config.run.step = true ∧ config.run.seed = 7 ∧
      (∀ s : Setting, s.Settled [("seed", "7"), ("config", "a"), ("dumpconfig", "true")]
        (fun _ => some file.dump) (s.of config)) ∧
      Plan.ofArguments ["-seed=7", "-config", "a", "--dumpconfig"] (fun _ => some file.dump) true
        = .finish 0 config.dump [] ∧
      Plan.ofArguments ["-config", "b", "p.yaml"] (fun _ => some config.dump) true
        = .run { file := "p.yaml", run := config.run, verbose := false, styled := true } := by
  let file : Config := { run := { step := true, maxDepth := 3 } }
  let config : Config := { run := { step := true, maxDepth := 3, seed := 7 } }
  let flags : Flags :=
    { dumpConfig := true, configFile := "a", given := ["dumpconfig", "config", "seed"]
      config := { run := { Config.standard.run with seed := 7 } } }
  have hfits : file.Fits := fun s => by cases s <;> trivial
  obtain ⟨hload, hflags⟩ := settled_and_reproduced
  have hconfig : Plan.configOf flags (fun _ => some file.dump) = .ok config := by
    rw [Plan.configOf, if_neg (by decide), hload file _ hfits]
    rfl
  have hspells : Spells ["-seed=7", "-config", "a", "--dumpconfig"]
      [("seed", "7"), ("config", "a"), ("dumpconfig", "true")] [] := by
    rw [show "-seed=7" = "-" ++ "seed" ++ "=" ++ "7" by decide,
      show "-config" = "-" ++ "config" by decide,
      show "--dumpconfig" = "--" ++ "dumpconfig" by decide]
    exact .equals (.inl rfl) rfl (.next (.inl rfl) rfl (.switch (.inr rfl) rfl .nothing))
  have hspells' : Spells ["-config", "b", "p.yaml"] [("config", "b")] ["p.yaml"] := by
    rw [show "-config" = "-" ++ "config" by decide]
    refine .next (.inl rfl) rfl (.other [] fun c cs h => ?_)
    rw [show "p.yaml".toList = ['p', '.', 'y', 'a', 'm', 'l'] by decide] at h
    exact absurd (List.cons.inj h).1 (by decide)
  have htake : Flags.take {} ["-seed=7", "-config", "a", "--dumpconfig"] = .ok (flags, []) :=
    ok_of_toOption (by decide +kernel)
  have htake' : Flags.take {} ["-config", "b", "p.yaml"]
      = .ok ({ configFile := "b", given := ["config"] }, ["p.yaml"]) :=
    ok_of_toOption (by decide +kernel)
  obtain ⟨hsettled, hprinted, hagain⟩ := (hflags _ _ _ htake).2 _ hspells _ config hconfig
  refine ⟨file, config, rfl, rfl, rfl, hsettled, hprinted rfl rfl true, ?_⟩
  rw [hagain "b" (fun _ => some config.dump) _ _ _ _ (by decide) rfl hspells' htake' (by decide)
    (fun s => by cases s <;> decide) true]
  rfl

end Config

end Pseudocode
