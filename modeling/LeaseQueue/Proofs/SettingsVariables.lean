import Mathlib.Data.List.Induction
import Mathlib.Data.List.Nodup
import LeaseQueue.Settings.Variables
import LeaseQueue.Proofs.TextForms

/-!
# Settings in variables

Only some names are looked at when settings are read from variables (`Recognised`), and of each of
them only the last value counts (`get?_fields`, `get?_parameters`).  So two lists with the same last
values give the same settings or the same error, whatever their order and their other variables
(`ofVariables_congr`).

Settings in whole milliseconds are written in the variables of `toVariables`.  A list that has these
variables, in any order and among any others that are not looked at, gives the settings back
(`ofVariables_carried`).
-/

set_option autoImplicit false

namespace LeaseQueue.Settings

open Text

/-! ## Names -/

/-- The keys of the variables that hold fields. -/
def fieldKeys : List String :=
  ["NO_TASK_TIMEOUT_MS", "BETWEEN_TASK_TIMEOUT_MS", "FATAL_CRASH_TIMEOUT_MS", "PROCESSING_MODE",
    "RETRY_TYPE", "REENQUEUE_RETRY_TYPE"]

/-- The names that are looked at: those of fields and those of parameters with a key. -/
inductive Recognised (stem : String) : String → Prop
  | field {key : String} (h : key ∈ fieldKeys) : Recognised stem (stem ++ key)
  | parameter {key : String} (h : key ≠ "") : Recognised stem (stem ++ "SETTING_" ++ key)

variable {stem given name key value : String} {vars vars' : List (String × String)} {s : Settings}

/-- A key stands behind a stem when the name is the two of them. -/
theorem behind?_eq_some_iff : behind? stem name = some key ↔ name = stem ++ key := by
  unfold behind?
  constructor
  · intro h
    split at h
    · next hprefix =>
      cases h
      obtain ⟨rest, hrest⟩ := List.isPrefixOf_iff_prefix.1 hprefix
      rw [← String.toList_inj, String.toList_append, String.toList_ofList, ← hrest,
        ← String.length_toList, List.drop_left]
    · cases h
  · rintro rfl
    have hprefix : stem.toList.isPrefixOf (stem ++ key).toList = true := by
      rw [List.isPrefixOf_iff_prefix, String.toList_append]
      exact List.prefix_append _ _
    rw [if_pos hprefix, String.toList_append, ← String.length_toList, List.drop_left,
      String.ofList_toList]

/-- No key stands behind a stem when the name does not begin with it. -/
theorem behind?_eq_none_iff : behind? stem name = none ↔ ∀ key, name ≠ stem ++ key := by
  simp only [Option.eq_none_iff_forall_ne_some, ne_eq, behind?_eq_some_iff]

instance : DecidablePred (Recognised stem) := fun name =>
  decidable_of_iff ((∃ key ∈ fieldKeys, name = stem ++ key) ∨
      ∃ key ∈ behind? (stem ++ "SETTING_") name, key ≠ "") <| by
    constructor
    · rintro (⟨key, hkey, rfl⟩ | ⟨key, hname, hkey⟩)
      · exact .field hkey
      · rw [behind?_eq_some_iff.1 hname]
        exact .parameter hkey
    · rintro (hkey | hkey)
      · exact .inl ⟨_, hkey, rfl⟩
      · exact .inr ⟨_, behind?_eq_some_iff.2 rfl, hkey⟩

/-- No key of a field looks like that of a parameter. -/
theorem behind?_of_mem_fieldKeys (h : key ∈ fieldKeys) : behind? "SETTING_" key = none := by
  have hall : ∀ key ∈ fieldKeys, behind? "SETTING_" key = none := by decide
  exact hall key h

/-- A stem ends in exactly one underscore. -/
theorem stemOf_spec (given : String) : ∃ (base : String) (k : Nat),
    given = base ++ String.ofList (List.replicate k '_') ∧ base.toList.getLast? ≠ some '_' ∧
    stemOf given = base ++ "_" := by
  obtain ⟨k, hk⟩ := exists_ending '_' given.toList
  refine ⟨String.ofList (given.toList.reverse.dropWhile (· == '_')).reverse, k, ?_, ?_, rfl⟩
  · rw [← String.toList_inj, String.toList_append, String.toList_ofList, String.toList_ofList, ← hk]
  · rw [String.toList_ofList, List.getLast?_reverse]
    intro hlast
    have hnot := List.head?_dropWhile_not (· == '_') given.toList.reverse
    simp [hlast] at hnot

/-! ## Last values -/

/-- The value of the last variable of a name. -/
def lastValue? (vars : List (String × String)) (name : String) : Option String :=
  vars.reverse.lookup name

/-- The last of several values counts. -/
theorem lastValue?_concat (a : String) :
    lastValue? (vars ++ [(name, value)]) a = if a = name then some value else lastValue? vars a := by
  rw [lastValue?, List.reverse_append, List.reverse_singleton, List.singleton_append,
    List.lookup_cons]
  by_cases h : a = name
  · simp [h]
  · simp [h, beq_false_of_ne h, lastValue?]

/-- The last value of a name is one of its values. -/
theorem mem_of_lastValue? (h : lastValue? vars name = some value) : (name, value) ∈ vars := by
  obtain ⟨before, after, hvars, -⟩ := List.lookup_eq_some_iff.1 h
  rw [← List.mem_reverse, hvars]
  simp

/-- A name that has a value has a last one. -/
theorem exists_lastValue? (h : (name, value) ∈ vars) : ∃ v, lastValue? vars name = some v := by
  rw [← Option.isSome_iff_exists, lastValue?, List.lookup_isSome_iff]
  exact ⟨(name, value), by simpa using h, by simp⟩

/-! ## Bindings -/

namespace Bindings

/-- A variable is a parameter's, with a key or without, or it may be a field's, or it has another
stem. -/
theorem add_cases (stem : String) (b : Bindings) (name value : String) :
    (∃ key, name = stem ++ "SETTING_" ++ key ∧
      add stem b (name, value) =
        if key.isEmpty then b else { b with parameters := b.parameters.insert key value }) ∨
    (∃ key, name = stem ++ key ∧ behind? "SETTING_" key = none ∧
      add stem b (name, value) = { b with fields := b.fields.insert key value }) ∨
    ((∀ key, name ≠ stem ++ key) ∧ add stem b (name, value) = b) := by
  unfold add
  dsimp only
  cases hparameter : behind? (stem ++ "SETTING_") name with
  | some key => exact .inl ⟨key, behind?_eq_some_iff.1 hparameter, rfl⟩
  | none =>
    right
    cases hfield : behind? stem name with
    | some key =>
      obtain rfl := behind?_eq_some_iff.1 hfield
      refine .inl ⟨key, rfl, ?_, rfl⟩
      rw [behind?_eq_none_iff] at hparameter ⊢
      rintro rest rfl
      exact hparameter rest String.append_assoc.symm
    | none => exact .inr ⟨behind?_eq_none_iff.1 hfield, rfl⟩

/-- The variables are taken up one after the other. -/
theorem ofVariables_concat (v : String × String) :
    ofVariables stem (vars ++ [v]) = add stem (ofVariables stem vars) v := by
  simp [ofVariables]

/-- A field has the last value under its name. -/
theorem get?_fields (hkey : behind? "SETTING_" key = none) :
    (ofVariables stem vars).fields.get? key = lastValue? vars (stem ++ key) := by
  induction vars using List.reverseRecOn with
  | nil => rfl
  | append_singleton vars v ih =>
    obtain ⟨name, value⟩ := v
    rw [ofVariables_concat, lastValue?_concat, ← ih]
    rcases add_cases stem (ofVariables stem vars) name value with
      ⟨rest, rfl, hadd⟩ | ⟨rest, rfl, -, hadd⟩ | ⟨hname, hadd⟩ <;> rw [hadd]
    · have hne : stem ++ key ≠ stem ++ "SETTING_" ++ rest := by
        rw [String.append_assoc, ne_eq, String.append_right_inj]
        exact behind?_eq_none_iff.1 hkey rest
      rw [if_neg hne]
      split <;> rfl
    · simp only [OrderedMap.get?_insert, String.append_right_inj]
    · rw [if_neg (hname key).symm]

/-- A parameter has the last value under its name, and there is none without a key. -/
theorem get?_parameters : (ofVariables stem vars).parameters.get? key =
    if key = "" then none else lastValue? vars (stem ++ "SETTING_" ++ key) := by
  induction vars using List.reverseRecOn with
  | nil => simp [ofVariables, lastValue?]
  | append_singleton vars v ih =>
    obtain ⟨name, value⟩ := v
    rw [ofVariables_concat, lastValue?_concat]
    rcases add_cases stem (ofVariables stem vars) name value with
      ⟨rest, rfl, hadd⟩ | ⟨rest, rfl, hrest, hadd⟩ | ⟨hname, hadd⟩ <;> rw [hadd]
    · by_cases hempty : rest = ""
      · subst hempty
        by_cases hkey : key = ""
        · subst hkey
          simpa using ih
        · simp [hkey, ih]
      · simp only [String.isEmpty_iff, hempty, if_false, OrderedMap.get?_insert, ih,
          String.append_right_inj]
        by_cases hkey : key = rest
        · simp [hkey, hempty]
        · simp [hkey]
    · have hne : stem ++ "SETTING_" ++ key ≠ stem ++ rest := by
        rw [String.append_assoc, ne_eq, String.append_right_inj]
        exact fun h => behind?_eq_none_iff.1 hrest key h.symm
      rw [if_neg hne, ih]
    · have hne : stem ++ "SETTING_" ++ key ≠ name := by
        rw [String.append_assoc]
        exact fun h => hname _ h.symm
      rw [if_neg hne, ih]

end Bindings

/-- Lists with the same last values of the names that are looked at give the same settings or the
same error. -/
theorem ofVariables_congr
    (h : ∀ name, Recognised (stemOf given) name → lastValue? vars name = lastValue? vars' name) :
    ofVariables given vars = ofVariables given vars' := by
  have hfields : ∀ key ∈ fieldKeys, (Bindings.ofVariables (stemOf given) vars).fields.get? key =
      (Bindings.ofVariables (stemOf given) vars').fields.get? key := by
    intro key hkey
    rw [Bindings.get?_fields (behind?_of_mem_fieldKeys hkey),
      Bindings.get?_fields (behind?_of_mem_fieldKeys hkey), h _ (.field hkey)]
  have hparameters : (Bindings.ofVariables (stemOf given) vars).parameters =
      (Bindings.ofVariables (stemOf given) vars').parameters := by
    apply OrderedMap.ext_get?
    intro key
    rw [Bindings.get?_parameters, Bindings.get?_parameters]
    split
    · rfl
    · next hkey => exact h _ (.parameter hkey)
  simp only [fieldKeys, List.forall_mem_cons] at hfields
  simp only [ofVariables, Bindings.millis, Bindings.millis?, Bindings.choice?, hfields, hparameters]

/-! ## Written settings -/

/-- Whole milliseconds of 64 bits. -/
def WholeMillis (d : Duration) : Prop :=
  ∃ n, n ≤ maxWord64 ∧ d.nanos = n * nanosPerMilli

/-- Settings that variables can hold: waits in whole milliseconds, and no parameter without a
key. -/
structure Writable (s : Settings) : Prop where
  noTask : WholeMillis s.noTaskTimeout
  betweenTask : WholeMillis s.betweenTaskTimeout
  fatalCrash : WholeMillis s.fatalCrashTimeout
  keys : s.parameter? "" = none

/-- The texts of the fields: milliseconds in decimal, and names. -/
def fieldTexts (s : Settings) : List (String × String) :=
  [("NO_TASK_TIMEOUT_MS", s.noTaskTimeout.millis.repr),
    ("BETWEEN_TASK_TIMEOUT_MS", s.betweenTaskTimeout.millis.repr),
    ("FATAL_CRASH_TIMEOUT_MS", s.fatalCrashTimeout.millis.repr),
    ("PROCESSING_MODE", Named.name s.mode),
    ("RETRY_TYPE", Named.name s.leaseKind),
    ("REENQUEUE_RETRY_TYPE", Named.name s.reenqueueKind)]

/-- The variables of the fields and of the parameters. -/
def toVariables (stem : String) (s : Settings) : List (String × String) :=
  s.fieldTexts.map (fun e => (stem ++ e.1, e.2)) ++
    s.parameters.entries.map fun e => (stem ++ "SETTING_" ++ e.1, e.2)

/-- A list has all variables of the settings, and no other one that is looked at. -/
structure Carries (stem : String) (vars : List (String × String)) (s : Settings) : Prop where
  all : ∀ v ∈ s.toVariables stem, v ∈ vars
  only : ∀ v ∈ vars, Recognised stem v.1 → v ∈ s.toVariables stem

/-- The settings are written under the keys that are read. -/
theorem keys_fieldTexts (s : Settings) : s.fieldTexts.map Prod.fst = fieldKeys := rfl

/-- A field is written in one way. -/
theorem fieldTexts_unique {value' : String} (h : (key, value) ∈ s.fieldTexts)
    (h' : (key, value') ∈ s.fieldTexts) : value = value' := by
  have hnodup : (s.fieldTexts.map Prod.fst).Nodup := by
    rw [keys_fieldTexts]
    decide
  have hpair := List.inj_on_of_nodup_map hnodup h h' rfl
  exact congrArg Prod.snd hpair

/-- The variable of a field holds the field's text and nothing else. -/
theorem mem_toVariables_field (hkey : key ∈ fieldKeys) :
    (stem ++ key, value) ∈ s.toVariables stem ↔ (key, value) ∈ s.fieldTexts := by
  have hother : ∀ rest, stem ++ "SETTING_" ++ rest ≠ stem ++ key := by
    intro rest h
    rw [String.append_assoc, String.append_right_inj] at h
    exact behind?_eq_none_iff.1 (behind?_of_mem_fieldKeys hkey) rest h.symm
  simp [toVariables, String.append_right_inj, hother]

/-- The variable of a parameter holds the parameter and nothing else. -/
theorem mem_toVariables_parameter :
    (stem ++ "SETTING_" ++ key, value) ∈ s.toVariables stem ↔ s.parameter? key = some value := by
  have hother : ∀ e ∈ s.fieldTexts, stem ++ e.1 ≠ stem ++ "SETTING_" ++ key := by
    intro e he h
    have hrest : e.1 ∈ fieldKeys := keys_fieldTexts s ▸ List.mem_map_of_mem he
    rw [String.append_assoc, String.append_right_inj] at h
    exact behind?_eq_none_iff.1 (behind?_of_mem_fieldKeys hrest) key h
  simp only [toVariables, List.mem_append, List.mem_map, Prod.mk.injEq]
  rw [parameter?, ← OrderedMap.mem_entries]
  constructor
  · rintro (⟨e, he, h, -⟩ | ⟨e, he, hkey, rfl⟩)
    · exact absurd h (hother e he)
    · rw [String.append_right_inj] at hkey
      rwa [← hkey]
  · exact fun he => .inr ⟨_, he, rfl, rfl⟩

/-- Each of the names has one value. -/
theorem toVariables_unique {value' : String} (hname : Recognised stem name)
    (h : (name, value) ∈ s.toVariables stem) (h' : (name, value') ∈ s.toVariables stem) :
    value = value' := by
  cases hname with
  | field hkey =>
    rw [mem_toVariables_field hkey] at h h'
    exact fieldTexts_unique h h'
  | parameter hkey =>
    rw [mem_toVariables_parameter] at h h'
    exact Option.some.inj (h.symm.trans h')

/-- The last value of a name that is looked at is the one of the settings. -/
theorem Carries.lastValue?_eq_some_iff (h : Carries stem vars s) (hname : Recognised stem name) :
    lastValue? vars name = some value ↔ (name, value) ∈ s.toVariables stem := by
  constructor
  · exact fun hvalue => h.only _ (mem_of_lastValue? hvalue) hname
  · intro hmem
    obtain ⟨v, hv⟩ := exists_lastValue? (h.all _ hmem)
    rw [hv, toVariables_unique hname (h.only _ (mem_of_lastValue? hv) hname) hmem]

/-! ## Reading what was written -/

/-- A type whose names are read back. -/
class LawfulNamed (α : Type) [Named α] : Prop where
  read_name : ∀ a : α, Named.read (Named.name a) = .ok a

instance : LawfulNamed ProcessingMode where
  read_name a := by cases a <;> rfl

instance : LawfulNamed LeaseKind where
  read_name a := by cases a <;> rfl

instance : LawfulNamed ReenqueueKind where
  read_name a := by cases a <;> rfl

/-- A number of 64 bits is read back from its digits. -/
theorem readNumeral_trim_repr {n : Nat} (h : n ≤ maxWord64) :
    readNumeral maxWord64 (trim n.repr) = .ok n := by
  have hdigit : ∀ c ∈ n.repr.toList, c.isDigit = true := by
    rw [Nat.toList_repr]
    exact fun c hc => Nat.isDigit_of_mem_toDigits (by decide) (by decide) hc
  have hne : n.repr.toList ≠ [] := by
    rw [Nat.toList_repr]
    exact Nat.toDigits_ne_nil
  rw [trim_of_forall (fun c hc => (of_isDigit (hdigit c hc)).2) hne, readNumeral]
  have hread : readDigits maxWord64 0 n.repr.toList = .ok n := by
    rw [readDigits_eq_ok_iff (Nat.zero_le _)]
    refine ⟨hdigit, h, ?_⟩
    rw [Nat.toList_repr, Nat.ofDigitChars_ten_toDigits]
  split
  · next hnil => exact absurd hnil hne
  · next hsign => simp [hsign] at hdigit
  · next hsign => simp [hsign] at hdigit
  · exact hread

/-- A duration of whole milliseconds is read back from their number. -/
theorem WholeMillis.ofMillis_millis {d : Duration} (h : WholeMillis d) :
    d.millis ≤ maxWord64 ∧ Duration.ofMillis d.millis = d := by
  obtain ⟨n, hn, hnanos⟩ := h
  have hmillis : d.millis = n := by
    rw [Duration.millis, hnanos, Nat.mul_div_cancel _ (by decide)]
  rw [hmillis]
  refine ⟨hn, Duration.ext ?_⟩
  rw [Duration.ofMillis, Duration.nanos_ofNanos, ← hnanos, Nat.min_eq_left d.nanos_le_longest]

namespace Bindings

variable {b : Bindings}

/-- An optional duration that was written in milliseconds is read back. -/
theorem millis?_written {d : Duration} (hd : WholeMillis d)
    (h : b.fields.get? key = some d.millis.repr) : b.millis? stem key = .ok (some d) := by
  obtain ⟨hle, hd⟩ := hd.ofMillis_millis
  rw [millis?, h]
  simp only [readNumeral_trim_repr hle, hd]

/-- A duration that was written in milliseconds is read back. -/
theorem millis_written {d : Duration} (hd : WholeMillis d)
    (h : b.fields.get? key = some d.millis.repr) : b.millis stem key = .ok d := by
  rw [millis, millis?_written hd h]
  rfl

/-- A choice that was written by its name is read back. -/
theorem choice?_written {α : Type} [Named α] [LawfulNamed α] {a : α}
    (h : b.fields.get? key = some (Named.name a)) : b.choice? stem key = .ok (some a) := by
  rw [choice?, h]
  simp only [LawfulNamed.read_name]

end Bindings

/-- Settings are read back from any list that carries them. -/
theorem ofVariables_carried (hs : s.Writable) (h : Carries (stemOf given) vars s) :
    ofVariables given vars = .ok s := by
  have hfields : ∀ e ∈ s.fieldTexts,
      (Bindings.ofVariables (stemOf given) vars).fields.get? e.1 = some e.2 := by
    intro e he
    have hkey : e.1 ∈ fieldKeys := keys_fieldTexts s ▸ List.mem_map_of_mem he
    rw [Bindings.get?_fields (behind?_of_mem_fieldKeys hkey),
      h.lastValue?_eq_some_iff (.field hkey), mem_toVariables_field hkey]
    exact he
  have hparameters : (Bindings.ofVariables (stemOf given) vars).parameters = s.parameters := by
    apply OrderedMap.ext_get?
    intro key
    rw [Bindings.get?_parameters]
    split
    · next hkey => rw [hkey]; exact hs.keys.symm
    · next hkey =>
      ext value
      rw [h.lastValue?_eq_some_iff (.parameter hkey), mem_toVariables_parameter, parameter?]
  simp only [fieldTexts, List.forall_mem_cons] at hfields
  obtain ⟨hnoTask, hbetweenTask, hcrash, hmode, hlease, hreenqueue, -⟩ := hfields
  simp only [ofVariables, Bindings.millis_written hs.noTask hnoTask,
    Bindings.millis_written hs.betweenTask hbetweenTask,
    Bindings.millis?_written hs.fatalCrash hcrash, Bindings.choice?_written hmode,
    Bindings.choice?_written hlease, Bindings.choice?_written hreenqueue, hparameters]
  rfl

/-- Settings survive in variables, whatever the order of the variables and whichever others there
are, and only the last values of the names that are looked at count.  Underscores at the end of the
given text make no difference to these names. -/
theorem ofVariables_survives (given : String) :
    (∃ (base : String) (k : Nat), given = base ++ String.ofList (List.replicate k '_') ∧
      base.toList.getLast? ≠ some '_' ∧ stemOf given = base ++ "_") ∧
    (∀ s vars, s.Writable → Carries (stemOf given) vars s → ofVariables given vars = .ok s) ∧
    ∀ vars vars',
      (∀ name, Recognised (stemOf given) name → lastValue? vars name = lastValue? vars' name) →
      ofVariables given vars = ofVariables given vars' :=
  ⟨stemOf_spec given, fun _ _ => ofVariables_carried, fun _ _ => ofVariables_congr⟩

/-- Settings with a parameter under a key that is a field's as well. -/
def nightly : Settings where
  noTaskTimeout := .ofMillis 5000
  betweenTaskTimeout := .ofMillis 250
  fatalCrashTimeout := .ofMillis 18446744073709551615
  mode := .wrapInTransaction
  leaseKind := .fixedInterval
  reenqueueKind := .sequential
  parameters := .ofList [("RETRY_TYPE", " as it is ")]

/-- An environment with these settings in it. -/
def environment : List (String × String) :=
  [("PATH", "/bin"),
    ("JOBS_SETTING_RETRY_TYPE", " as it is "),
    ("JOBS_REENQUEUE_RETRY_TYPE", "SEQUENTIAL"),
    ("JOBS_SETTING_", "no key"),
    ("JOBS_FATAL_CRASH_TIMEOUT_MS", "18446744073709551615"),
    ("JOBS_RETRY_TYPE", "FIXED_INTERVAL"),
    ("JOBS_PROCESSING_MODE", "WRAP_IN_TRANSACTION"),
    ("JOBS_COLOUR", "red"),
    ("JOBS_BETWEEN_TASK_TIMEOUT_MS", "250"),
    ("JOBS_NO_TASK_TIMEOUT_MS", "5000")]

/-- What `ofVariables_survives` says of this environment, and of the same one with a value in front
that does not count. -/
theorem ofVariables_environment :
    nightly.Writable ∧ Carries (stemOf "JOBS__") environment nightly ∧
    ofVariables "JOBS__" environment = .ok nightly ∧
    ofVariables "JOBS__" (("JOBS_NO_TASK_TIMEOUT_MS", "soon") :: environment) = .ok nightly := by
  have hwritable : nightly.Writable :=
    ⟨⟨5000, by decide⟩, ⟨250, by decide⟩, ⟨18446744073709551615, by decide⟩, by decide⟩
  have hcarries : Carries (stemOf "JOBS__") environment nightly := ⟨by decide, by decide⟩
  obtain ⟨-, hread, hlast⟩ := ofVariables_survives "JOBS__"
  refine ⟨hwritable, hcarries, hread _ _ hwritable hcarries, ?_⟩
  rw [← hread _ _ hwritable hcarries]
  apply hlast
  intro name _
  by_cases hname : name = "JOBS_NO_TASK_TIMEOUT_MS"
  · subst hname
    decide
  · rw [lastValue?, List.reverse_cons, List.lookup_append]
    simp [beq_false_of_ne hname, lastValue?]

end LeaseQueue.Settings
