/-
# The flags in the arguments

A flag is an argument with one hyphen or two before its name.  Its value is the text after an equals
sign or the next argument, and a truth value without a text is true.  The flags come before the
other arguments; two hyphens alone stand between them, or the first argument that is no flag.

`Flags.Spells` says this of the arguments alone.  The main results are

* `Flags.exists_spells`: what is taken from the arguments is spelled there;
* `Flags.take_of_spells`: what is spelled in the arguments is taken from there.
-/
import Mathlib.Data.List.TakeWhile
import Mathlib.Tactic.Lemma
import Pseudocode.Command.Flags

namespace Pseudocode

namespace Flags

/-- The arguments give flags their values, in this order, and then come the others.  A flag has one
hyphen or two; a truth value without a text after an equals sign is true. -/
inductive Spells : (arguments : List String) → (given : List (String × String)) →
    (others : List String) → Prop
  | nothing : Spells [] [] []
  | dashes (others : List String) : Spells ("--" :: others) [] others
  | other {argument : String} (others : List String)
      (h : ∀ c cs, argument.toList ≠ '-' :: c :: cs) :
      Spells (argument :: others) [] (argument :: others)
  | switch {dash name : String} {rest others : List String} {given : List (String × String)}
      (hdash : dash = "-" ∨ dash = "--") (h : isSwitch? name = some true)
      (hrest : Spells rest given others) :
      Spells ((dash ++ name) :: rest) ((name, "true") :: given) others
  | equals {dash name value : String} {rest others : List String}
      {given : List (String × String)} (hdash : dash = "-" ∨ dash = "--")
      (h : (isSwitch? name).isSome) (hrest : Spells rest given others) :
      Spells ((dash ++ name ++ "=" ++ value) :: rest) ((name, value) :: given) others
  | next {dash name value : String} {rest others : List String} {given : List (String × String)}
      (hdash : dash = "-" ∨ dash = "--") (h : isSwitch? name = some false)
      (hrest : Spells rest given others) :
      Spells ((dash ++ name) :: value :: rest) ((name, value) :: given) others

/-- Gives flags their values, one after the other. -/
def giveAll (f : Flags) (given : List (String × String)) : Except FlagError Flags :=
  given.foldlM (fun f g => f.give g.1 g.2) f

lemma splitValue_cons (c : Char) (rest : List Char) :
    splitValue (c :: rest) =
      match rest.dropWhile (· != '=') with
      | [] => (String.ofList (c :: rest.takeWhile (· != '=')), none)
      | _ :: value =>
          (String.ofList (c :: rest.takeWhile (· != '=')), some (String.ofList value)) := by
  have hdrop : rest.drop (rest.takeWhile (· != '=')).length = rest.dropWhile (· != '=') := by
    calc rest.drop (rest.takeWhile (· != '=')).length
        = (rest.takeWhile (· != '=') ++ rest.dropWhile (· != '=')).drop
            (rest.takeWhile (· != '=')).length := by rw [List.takeWhile_append_dropWhile]
      _ = rest.dropWhile (· != '=') := List.drop_left
  cases hd : rest.dropWhile (· != '=') with
  | nil => simp only [splitValue, List.length_cons, Nat.add_sub_cancel, hdrop, hd]
  | cons x value => simp only [splitValue, List.length_cons, Nat.add_sub_cancel, hdrop, hd]

/-- The text of a flag without its hyphens: its name, or its name and a value with an equals sign
between them. -/
def flagText (name : String) (value? : Option String) : String :=
  name ++ (value?.elim "" fun value => "=" ++ value)

lemma eq_of_splitValue {cs : List Char} {name : String} {value? : Option String}
    (h : splitValue cs = (name, value?)) : String.ofList cs = flagText name value? := by
  rw [flagText]
  apply String.toList_inj.1
  cases cs with
  | nil =>
      obtain ⟨rfl, rfl⟩ := Prod.mk.inj h
      simp
  | cons c cs =>
      have hsplit := List.takeWhile_append_dropWhile (p := (· != '=')) (l := cs)
      rw [splitValue_cons] at h
      cases hd : cs.dropWhile (· != '=') with
      | nil =>
          rw [hd] at h hsplit
          obtain ⟨rfl, rfl⟩ := Prod.mk.inj h
          simpa using hsplit.symm
      | cons x value =>
          have hx : x = '=' := by
            have := List.head_dropWhile_not (· != '=') (l := cs) (by simp [hd])
            simpa [hd] using this
          rw [hd] at h hsplit
          obtain ⟨rfl, rfl⟩ := Prod.mk.inj h
          subst hx
          simpa using hsplit.symm

/-- The names of flags are words. -/
lemma name_of_isSwitch {name : String} (h : (isSwitch? name).isSome) :
    ∃ c cs, name.toList = c :: cs ∧ c ≠ '-' ∧ ∀ x ∈ c :: cs, x ≠ '=' := by
  have hall {cs : List Char} (h : cs.all (· != '=') = true) : ∀ x ∈ cs, x ≠ '=' := by
    simpa using h
  unfold isSwitch? at h
  split at h <;> first | exact ⟨_, _, rfl, by decide, hall rfl⟩ | exact absurd h (by simp)

lemma splitValue_name {name : String} (h : (isSwitch? name).isSome) :
    splitValue name.toList = (name, none) := by
  obtain ⟨c, cs, hname, -, hcs⟩ := name_of_isSwitch h
  have hall : ∀ x ∈ cs, (x != '=') = true := fun x hx => by
    simpa using hcs x (List.mem_cons_of_mem _ hx)
  rw [hname, splitValue_cons, List.dropWhile_eq_nil_iff.2 hall, List.takeWhile_eq_self_iff.2 hall,
    ← hname, String.ofList_toList]

lemma splitValue_equals {name value : String} (h : (isSwitch? name).isSome) :
    splitValue (name.toList ++ '=' :: value.toList) = (name, some value) := by
  obtain ⟨c, cs, hname, -, hcs⟩ := name_of_isSwitch h
  have hall : ∀ x ∈ cs, (x != '=') = true := fun x hx => by
    simpa using hcs x (List.mem_cons_of_mem _ hx)
  rw [hname, List.cons_append, splitValue_cons, List.dropWhile_append_of_pos hall,
    List.takeWhile_append_of_pos hall]
  simp [← hname]

/-- The hyphens before a flag are taken off. -/
lemma exists_dash {argument : String} {c : Char} {cs : List Char}
    (h : argument.toList = '-' :: c :: cs) :
    ∃ dash, (dash = "-" ∨ dash = "--") ∧
      argument = dash ++ String.ofList (if c == '-' then cs else c :: cs) := by
  by_cases hc : c = '-'
  · refine ⟨"--", .inr rfl, String.toList_inj.1 ?_⟩
    simp [h, hc]
  · refine ⟨"-", .inl rfl, String.toList_inj.1 ?_⟩
    simp [h, hc]

/-- When a flag has been given its value, the others are taken from the rest of the arguments. -/
lemma exists_given {f flags : Flags} {name value : String} {rest others : List String}
    (h : (do take (← f.give name value) rest) = .ok (flags, others))
    (ih : ∀ f', take f' rest = .ok (flags, others) →
      ∃ given, Spells rest given others ∧ f'.giveAll given = .ok flags) :
    ∃ given, Spells rest given others ∧ f.giveAll ((name, value) :: given) = .ok flags := by
  cases hf : f.give name value with
  | error e => rw [hf] at h; exact nomatch h
  | ok f' =>
      rw [hf] at h
      obtain ⟨given, hspells, hgive⟩ := ih f' h
      refine ⟨given, hspells, ?_⟩
      rw [giveAll, List.foldlM_cons, hf]
      exact hgive

lemma spells_equals {dash name value : String} {rest others : List String}
    {given : List (String × String)} (hdash : dash = "-" ∨ dash = "--")
    (h : (isSwitch? name).isSome) (hrest : Spells rest given others) :
    Spells ((dash ++ flagText name (some value)) :: rest) ((name, value) :: given) others := by
  rw [flagText, Option.elim_some, ← String.append_assoc, ← String.append_assoc]
  exact .equals hdash h hrest

/-- The flags that are taken from the arguments are those that are spelled there. -/
theorem exists_spells {f flags : Flags} {arguments others : List String}
    (h : take f arguments = .ok (flags, others)) :
    ∃ given, Spells arguments given others ∧ f.giveAll given = .ok flags := by
  fun_induction take f arguments with
  | case1 f =>
      obtain ⟨rfl, rfl⟩ := Prod.mk.inj (Except.ok.inj h)
      exact ⟨[], .nothing, rfl⟩
  | case2 f argument rest harg =>
      obtain ⟨rfl, rfl⟩ := Prod.mk.inj (Except.ok.inj h)
      obtain rfl : argument = "--" := String.toList_inj.1 harg
      exact ⟨[], .dashes rest, rfl⟩
  | case3 | case4 | case8 => exact nomatch h
  | case5 f argument c cs _ harg body hbody name value? rest hswitch hsplit ih =>
      obtain ⟨given, hspells, hgive⟩ := exists_given h ih
      obtain ⟨dash, hdash, rfl⟩ := exists_dash harg
      refine ⟨_, ?_, hgive⟩
      rw [eq_of_splitValue hsplit]
      cases value? with
      | none => simpa [flagText] using .switch hdash hswitch hspells
      | some value => exact spells_equals hdash (by rw [hswitch]; rfl) hspells
  | case6 f argument c cs _ harg body hbody name value rest hswitch hsplit ih =>
      obtain ⟨given, hspells, hgive⟩ := exists_given h ih
      obtain ⟨dash, hdash, rfl⟩ := exists_dash harg
      refine ⟨_, ?_, hgive⟩
      rw [eq_of_splitValue hsplit]
      exact spells_equals hdash (by rw [hswitch]; rfl) hspells
  | case7 f argument c cs _ harg body hbody name value rest hswitch hsplit ih =>
      obtain ⟨given, hspells, hgive⟩ := exists_given h ih
      obtain ⟨dash, hdash, rfl⟩ := exists_dash harg
      refine ⟨_, ?_, hgive⟩
      rw [eq_of_splitValue hsplit]
      simpa [flagText] using .next hdash hswitch hspells
  | case9 f argument rest hdashes hflag =>
      obtain ⟨rfl, rfl⟩ := Prod.mk.inj (Except.ok.inj h)
      exact ⟨[], .other rest hflag, rfl⟩

lemma splitValue_flagText {name : String} (h : (isSwitch? name).isSome) (value? : Option String) :
    splitValue (flagText name value?).toList = (name, value?) := by
  cases value? with
  | none => simpa [flagText] using splitValue_name h
  | some value =>
      have hsplit : splitValue (name.toList ++ '=' :: value.toList) = (name, some value) :=
        splitValue_equals h
      simpa [flagText] using hsplit

/-- With the hyphens taken off, a flag is split into its name and a value. -/
lemma take_flag {dash name : String} (hdash : dash = "-" ∨ dash = "--")
    (h : (isSwitch? name).isSome) (value? : Option String) (f : Flags) (rest : List String) :
    take f ((dash ++ flagText name value?) :: rest) =
      match isSwitch? name, value?, rest with
      | none, _, _ => .error (if name == "help" then .helpAsked else .unknown name)
      | some true, value?, rest => do take (← f.give name (value?.getD "true")) rest
      | some false, some value, rest => do take (← f.give name value) rest
      | some false, none, value :: rest => do take (← f.give name value) rest
      | some false, none, [] => .error (.noValue name) := by
  have hsplit := splitValue_flagText h value?
  obtain ⟨c, cs, hname, hc, hcs⟩ := name_of_isSwitch h
  obtain ⟨cs', hcs'⟩ : ∃ cs', (flagText name value?).toList = c :: cs' := by
    simp [flagText, hname]
  have hc' : c ≠ '=' := hcs c (by simp)
  rw [hcs'] at hsplit
  -- either way the hyphens are gone, and the name begins
  have hbody : ∃ c₁ cs₁, (dash ++ flagText name value?).toList = '-' :: c₁ :: cs₁ ∧
      ¬ (c₁ = '-' ∧ cs₁ = []) ∧ (if c₁ == '-' then cs₁ else c₁ :: cs₁) = c :: cs' := by
    rcases hdash with rfl | rfl
    · exact ⟨c, cs', by simp [hcs'], fun e => hc e.1, by simp [hc]⟩
    · exact ⟨'-', c :: cs', by simp [hcs'], by simp, by simp⟩
  obtain ⟨c₁, cs₁, harg, hne, hbody⟩ := hbody
  rw [take.eq_def]
  simp only [harg]
  split
  · rename_i e
    exact absurd (by simpa using e) hne
  · rename_i e
    obtain ⟨rfl, rfl⟩ : c₁ = _ ∧ cs₁ = _ := by simpa using e
    simp only [hbody]
    have hform : ¬ ((c :: cs').head?.any fun c => c == '-' || c == '=') = true := by
      simp [hc, hc']
    refine (if_neg hform).trans ?_
    exact hsplit ▸ rfl
  · rename_i hother
    exact absurd rfl (hother c₁ cs₁)

/-- Flags that are spelled in the arguments are taken from there. -/
theorem take_of_spells {arguments others : List String} {given : List (String × String)}
    (h : Spells arguments given others) :
    ∀ f, take f arguments = (giveAll f given).map (·, others) := by
  have hgive {f : Flags} {name value : String} {given : List (String × String)}
      {rest others : List String}
      (ih : ∀ f, take f rest = (giveAll f given).map (·, others)) :
      (do take (← f.give name value) rest)
        = (giveAll f ((name, value) :: given)).map (·, others) := by
    rw [giveAll, List.foldlM_cons]
    cases f.give name value with
    | error e => rfl
    | ok f' => exact ih f'
  induction h with
  | nothing => exact fun f => rfl
  | dashes others => exact fun f => by rw [take]; rfl
  | @other argument others h =>
      intro f
      rw [take.eq_def]
      simp only
      split
      · rename_i e; exact absurd e (h _ _)
      · rename_i e; exact absurd e (h _ _)
      · rfl
  | @switch dash name rest others given hdash h hrest ih =>
      intro f
      have e := take_flag hdash (by rw [h]; rfl) none f rest
      rw [h, flagText, Option.elim_none, String.append_empty] at e
      exact e.trans (hgive ih)
  | @equals dash name value rest others given hdash h hrest ih =>
      intro f
      have e := take_flag hdash h (some value) f rest
      obtain ⟨b, hb⟩ := Option.isSome_iff_exists.1 h
      rw [hb, flagText, Option.elim_some, ← String.append_assoc, ← String.append_assoc] at e
      cases b <;> exact e.trans (hgive ih)
  | @next dash name value rest others given hdash h hrest ih =>
      intro f
      have e := take_flag hdash (by rw [h]; rfl) none f (value :: rest)
      rw [h, flagText, Option.elim_none, String.append_empty] at e
      exact e.trans (hgive ih)

end Flags

end Pseudocode
