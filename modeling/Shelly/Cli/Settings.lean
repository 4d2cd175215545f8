import Shelly.Framework.Toml

namespace Shelly.Cli

section Config

structure ScrollbackEncryptionConfig where
  enabled : Bool
  deriving DecidableEq

structure TelemetryConfig where
  optIn : Bool
  deriving DecidableEq

/-- `extra` collects the keys that are not named. -/
structure TerminalConfig (S : Type*) where
  detachPrefix : String
  extra : TomlTable S

structure UserConfig (S : Type*) where
  scrollbackEncryption : ScrollbackEncryptionConfig
  telemetry : TelemetryConfig
  terminal : TerminalConfig S
  extra : TomlTable S

/-- What is read where a section is not a table, such as the fields in order from an array. The
theorems hold whatever it is. -/
structure LooseSections (S : Type*) where
  scrollbackEncryption : Toml S → Option ScrollbackEncryptionConfig
  telemetry : Toml S → Option TelemetryConfig
  terminal : Toml S → Option (TerminalConfig S)

variable {S : Type*}

def defaultDetachPrefix : String := "ctrl-b"

def ScrollbackEncryptionConfig.default : ScrollbackEncryptionConfig := ⟨true⟩

def TelemetryConfig.default : TelemetryConfig := ⟨false⟩

def TerminalConfig.default : TerminalConfig S := ⟨defaultDetachPrefix, []⟩

def UserConfig.default : UserConfig S := ⟨.default, .default, .default, []⟩

/-- A field with a default. -/
def readField {A : Type*} (name : String) (absent : A) (read : Toml S → Option A)
    (entries : TomlTable S) : Option A :=
  match entries.lookup name with
  | some value => read value
  | none => some absent

def readBool : Toml S → Option Bool
  | .boolean b => some b
  | _ => none

def readString : Toml S → Option String
  | .string s => some s
  | _ => none

def ScrollbackEncryptionConfig.read (loose : LooseSections S) :
    Toml S → Option ScrollbackEncryptionConfig
  | .table entries => (readField "enabled" true readBool entries).map .mk
  | value => loose.scrollbackEncryption value

def TelemetryConfig.read (loose : LooseSections S) : Toml S → Option TelemetryConfig
  | .table entries => (readField "opt_in" false readBool entries).map .mk
  | value => loose.telemetry value

def TerminalConfig.read (loose : LooseSections S) : Toml S → Option (TerminalConfig S)
  | .table entries => (readField "detach_prefix" defaultDetachPrefix readString entries).map
      fun detachPrefix => ⟨detachPrefix, Toml.without ["detach_prefix"] entries⟩
  | value => loose.terminal value

def sections : List String := ["scrollback_encryption", "telemetry", "terminal"]

def UserConfig.read (loose : LooseSections S) (entries : TomlTable S) : Option (UserConfig S) :=
  (readField "scrollback_encryption" ScrollbackEncryptionConfig.default
    (ScrollbackEncryptionConfig.read loose) entries).bind fun scrollbackEncryption =>
  (readField "telemetry" TelemetryConfig.default (TelemetryConfig.read loose) entries).bind
    fun telemetry =>
  (readField "terminal" TerminalConfig.default (TerminalConfig.read loose) entries).map
    fun terminal =>
  ⟨scrollbackEncryption, telemetry, terminal, Toml.without sections entries⟩

def ScrollbackEncryptionConfig.toToml (c : ScrollbackEncryptionConfig) : Toml S :=
  .table [("enabled", .boolean c.enabled)]

def TelemetryConfig.toToml (c : TelemetryConfig) : Toml S := .table [("opt_in", .boolean c.optIn)]

def TerminalConfig.toToml (c : TerminalConfig S) : Toml S :=
  .table (("detach_prefix", .string c.detachPrefix) :: c.extra)

def UserConfig.toToml (c : UserConfig S) : TomlTable S :=
  ("scrollback_encryption", c.scrollbackEncryption.toToml) ::
    ("telemetry", c.telemetry.toToml) :: ("terminal", c.terminal.toToml) :: c.extra

/-- A settings file is the tree it parses to. Without one there are the defaults. -/
def readConfig (loose : LooseSections S) : Option (TomlTable S) → Option (UserConfig S)
  | some entries => UserConfig.read loose entries
  | none => some .default

/-- The file that is written, if the one that was there can be read. -/
def setTelemetry (loose : LooseSections S) (enabled : Bool) (file : Option (TomlTable S)) :
    Option (TomlTable S) :=
  (readConfig loose file).map fun c => { c with telemetry := ⟨enabled⟩ }.toToml

def setScrollbackEncryption (loose : LooseSections S) (enabled : Bool)
    (file : Option (TomlTable S)) : Option (TomlTable S) :=
  (readConfig loose file).map fun c => { c with scrollbackEncryption := ⟨enabled⟩ }.toToml

end Config

variable {S : Type*} {loose : LooseSections S} {old new : TomlTable S} {c : UserConfig S}

/-- The file that is written when there is none. -/
def defaults : Toml S := .table UserConfig.default.toToml

/-- The old file, with one value set and the defaults where it had nothing. -/
def Lossless (path : List String) (enabled : Bool) (old new : TomlTable S) : Prop :=
  Toml.KeepsBut path (.boolean enabled) defaults (.table old) (.table new)

/-- A section that is there is a table, with keys that `named` allows. -/
def Fits (name : String) (named : String → Prop) (old : TomlTable S) : Prop :=
  ∀ value, old.lookup name = some value →
    ∃ entries, value = .table entries ∧ ∀ key, (entries.lookup key).isSome = true → named key

/-- Every section is a table, and only `terminal` has keys its struct does not name. -/
structure Fitting (old : TomlTable S) : Prop where
  scrollbackEncryption : Fits "scrollback_encryption" (· = "enabled") old
  telemetry : Fits "telemetry" (· = "opt_in") old
  terminal : Fits "terminal" (fun _ => True) old

section Fields

variable {A : Type*} {name : String} {absent a : A} {read : Toml S → Option A}
  {entries : TomlTable S}

theorem readField_eq_some (h : readField name absent read entries = some a) :
    (∃ value, entries.lookup name = some value ∧ read value = some a) ∨
      (entries.lookup name = none ∧ a = absent) := by
  unfold readField at h
  split at h
  · rename_i value hvalue
    exact .inl ⟨value, hvalue, h⟩
  · rename_i hnone
    exact .inr ⟨hnone, (Option.some.inj h).symm⟩

theorem readBool_eq_some {value : Toml S} {b : Bool} (h : readBool value = some b) :
    value = .boolean b := by
  cases value with
  | boolean b' =>
    cases h
    rfl
  | _ => cases h

theorem readString_eq_some {value : Toml S} {s : String} (h : readString value = some s) :
    value = .string s := by
  cases value with
  | string s' =>
    cases h
    rfl
  | _ => cases h

/-- A Boolean field is as it was in the table, or its default. -/
theorem lookup_of_readBool {absent b : Bool} (h : readField name absent readBool entries = some b) :
    entries.lookup name = some (.boolean b) ∨
      entries.lookup name = none ∧ (.boolean b : Toml S) = .boolean absent := by
  rcases readField_eq_some h with ⟨value, hvalue, hread⟩ | ⟨hnone, rfl⟩
  · exact .inl (readBool_eq_some hread ▸ hvalue)
  · exact .inr ⟨hnone, rfl⟩

theorem lookup_of_readString {absent s : String}
    (h : readField name absent readString entries = some s) :
    entries.lookup name = some (.string s) ∨
      entries.lookup name = none ∧ (.string s : Toml S) = .string absent := by
  rcases readField_eq_some h with ⟨value, hvalue, hread⟩ | ⟨hnone, rfl⟩
  · exact .inl (readString_eq_some hread ▸ hvalue)
  · exact .inr ⟨hnone, rfl⟩

end Fields

section Read

theorem ScrollbackEncryptionConfig.keeps {entries : TomlTable S} {t : ScrollbackEncryptionConfig}
    (h : ScrollbackEncryptionConfig.read loose (.table entries) = some t)
    (hall : ∀ key, (entries.lookup key).isSome = true → key = "enabled") :
    Toml.Keeps ScrollbackEncryptionConfig.default.toToml (.table entries) t.toToml := by
  obtain ⟨b, hb, rfl⟩ := Option.map_eq_some_iff.mp h
  refine Toml.keeps_struct (Toml.leaf_boolean _) (Toml.leaf_boolean _) (lookup_of_readBool hb) ?_
  intro key hkey
  exact (Option.not_isSome_iff_eq_none.mp (mt (hall key) hkey)).symm

theorem TelemetryConfig.keeps {entries : TomlTable S} {t : TelemetryConfig}
    (h : TelemetryConfig.read loose (.table entries) = some t)
    (hall : ∀ key, (entries.lookup key).isSome = true → key = "opt_in") :
    Toml.Keeps TelemetryConfig.default.toToml (.table entries) t.toToml := by
  obtain ⟨b, hb, rfl⟩ := Option.map_eq_some_iff.mp h
  refine Toml.keeps_struct (Toml.leaf_boolean _) (Toml.leaf_boolean _) (lookup_of_readBool hb) ?_
  intro key hkey
  exact (Option.not_isSome_iff_eq_none.mp (mt (hall key) hkey)).symm

/-- The one section that collects what it does not name. -/
theorem TerminalConfig.keeps {entries : TomlTable S} {t : TerminalConfig S}
    (h : TerminalConfig.read loose (.table entries) = some t) :
    Toml.Keeps TerminalConfig.default.toToml (.table entries) t.toToml := by
  obtain ⟨s, hs, rfl⟩ := Option.map_eq_some_iff.mp h
  refine Toml.keeps_struct (Toml.leaf_string _) (Toml.leaf_string _) (lookup_of_readString hs) ?_
  intro key hkey
  simp [Toml.lookup_without, hkey]

/-- A section is kept, or written with its defaults. -/
theorem section_kept {A : Type*} {name : String} {absent t : A} {read : Toml S → Option A}
    {write : A → Toml S} {named : String → Prop}
    (hread : ∀ entries, read (.table entries) = some t →
      (∀ key, (entries.lookup key).isSome = true → named key) →
      Toml.Keeps (write absent) (.table entries) (write t))
    (h : readField name absent read old = some t) (hfits : Fits name named old)
    (path : List String) :
    (write t).node path = ((old.lookup name).bind (Toml.node path)).or
      ((write absent).node path) := by
  rcases readField_eq_some h with ⟨value, hvalue, ht⟩ | ⟨hnone, rfl⟩
  · obtain ⟨entries, rfl, hnamed⟩ := hfits value hvalue
    rw [hvalue, Option.bind_some]
    exact hread entries ht hnamed path
  · rw [hnone, Option.bind_none, Option.none_or]

theorem read_eq_some (h : UserConfig.read loose old = some c) :
    readField "scrollback_encryption" ScrollbackEncryptionConfig.default
        (ScrollbackEncryptionConfig.read loose) old = some c.scrollbackEncryption ∧
      readField "telemetry" TelemetryConfig.default (TelemetryConfig.read loose) old =
        some c.telemetry ∧
      readField "terminal" TerminalConfig.default (TerminalConfig.read loose) old =
        some c.terminal ∧
      c.extra = Toml.without sections old := by
  obtain ⟨scrollbackEncryption, hs, h⟩ := Option.bind_eq_some_iff.mp h
  obtain ⟨telemetry, ht, h⟩ := Option.bind_eq_some_iff.mp h
  obtain ⟨terminal, hp, rfl⟩ := Option.map_eq_some_iff.mp h
  exact ⟨hs, ht, hp, rfl⟩

theorem readConfig_eq (file : Option (TomlTable S)) :
    readConfig loose file = UserConfig.read loose (file.getD []) := by
  cases file <;> rfl

theorem lookup_toToml {key : String} (c : UserConfig S) (h : key ∉ sections) :
    c.toToml.lookup key = c.extra.lookup key := by
  simp only [sections, List.mem_cons, List.not_mem_nil, or_false, not_or] at h
  obtain ⟨hs, ht, hp⟩ := h
  have hs : (key == "scrollback_encryption") = false := beq_eq_false_iff_ne.mpr hs
  have ht : (key == "telemetry") = false := beq_eq_false_iff_ne.mpr ht
  have hp : (key == "terminal") = false := beq_eq_false_iff_ne.mpr hp
  simp [UserConfig.toToml, List.lookup_cons, hs, ht, hp]

/-- What is read from sections that fit is written as it was. -/
theorem toToml_keeps (h : UserConfig.read loose old = some c) (hfits : Fitting old) :
    Toml.Keeps defaults (.table old) (.table c.toToml) := by
  obtain ⟨hs, ht, hp, hextra⟩ := read_eq_some h
  refine Toml.keeps_table fun key path => ?_
  by_cases hkey : key ∈ sections
  · simp only [sections, List.mem_cons, List.not_mem_nil, or_false] at hkey
    rcases hkey with rfl | rfl | rfl
    · exact section_kept (fun _ => ScrollbackEncryptionConfig.keeps) hs hfits.scrollbackEncryption
        path
    · exact section_kept (fun _ => TelemetryConfig.keeps) ht hfits.telemetry path
    · exact section_kept (fun _ h _ => TerminalConfig.keeps h) hp hfits.terminal path
  · rw [lookup_toToml c hkey, lookup_toToml _ hkey, hextra, Toml.lookup_without, if_neg hkey]
    simp [UserConfig.default]

end Read

section Lossless

variable {path : List String} {name : String} {named : String → Prop} {written : TomlTable S}
  {enabled : Bool}

/-- Where nothing is lost, a section was a table with keys that are written back. -/
theorem fits_of_lossless (h : Lossless path enabled old new)
    (hnew : new.lookup name = some (.table written))
    (hnamed : ∀ key, (written.lookup key).isSome = true → named key)
    (hpath : ∀ key, path = [name, key] → named key) (hne : path ≠ [name]) :
    Fits name named old := by
  intro value hvalue
  have hnode : (Toml.table old).node [name] = value.node [] := by simp [hvalue]
  have hnil : value.node [] = some none := by
    obtain ⟨x, hx⟩ := Option.isSome_iff_exists.mp (Toml.isSome_node_nil value)
    have hkept := h.kept hne.symm (hnode.trans hx)
    simp only [Toml.node_cons_table, hnew, Option.bind_some, Toml.node_nil_table] at hkept
    rw [hx, ← hkept]
  obtain ⟨entries, rfl⟩ := Toml.node_nil_eq_table hnil
  refine ⟨entries, rfl, fun key hkey => ?_⟩
  by_cases hset : path = [name, key]
  · exact hpath key hset
  · obtain ⟨inner, hinner⟩ := Option.isSome_iff_exists.mp hkey
    obtain ⟨x, hx⟩ := Option.isSome_iff_exists.mp (Toml.isSome_node_nil inner)
    have hold : (Toml.table old).node [name, key] = some x := by simp [hvalue, hinner, hx]
    have hkept := h.kept (Ne.symm hset) hold
    refine hnamed key ?_
    cases hwritten : written.lookup key with
    | none => simp [hnew, hwritten] at hkept
    | some inner => rfl

/-- A file that is written back without a loss had sections that fit. -/
theorem fitting_of_lossless (h : Lossless path enabled old c.toToml)
    (hpath : path = ["telemetry", "opt_in"] ∨ path = ["scrollback_encryption", "enabled"]) :
    Fitting old := by
  refine ⟨fits_of_lossless h rfl ?_ ?_ ?_, fits_of_lossless h rfl ?_ ?_ ?_,
    fits_of_lossless h rfl (fun _ _ => trivial) (fun _ _ => trivial) ?_⟩
  · intro key hkey
    simpa using hkey
  · rintro key rfl
    simpa using hpath
  · rintro rfl
    simp at hpath
  · intro key hkey
    simpa using hkey
  · rintro key rfl
    simpa using hpath
  · rintro rfl
    simp at hpath
  · rintro rfl
    simp at hpath

/-- Setting a value loses nothing exactly when every section is a table, and those that do not
collect the keys they do not name have none. -/
theorem settings_lossless_iff (enabled : Bool) (file : Option (TomlTable S))
    (hread : (readConfig loose file).isSome = true) :
    (∃ new, setTelemetry loose enabled file = some new ∧
      (Lossless ["telemetry", "opt_in"] enabled (file.getD []) new ↔ Fitting (file.getD []))) ∧
    (∃ new, setScrollbackEncryption loose enabled file = some new ∧
      (Lossless ["scrollback_encryption", "enabled"] enabled (file.getD []) new ↔
        Fitting (file.getD []))) := by
  obtain ⟨c, hc⟩ := Option.isSome_iff_exists.mp hread
  have hold : UserConfig.read loose (file.getD []) = some c := (readConfig_eq file).symm.trans hc
  constructor
  · refine ⟨{ c with telemetry := ⟨enabled⟩ }.toToml, by rw [setTelemetry, hc]; rfl, ?_, ?_⟩
    · intro h
      exact fitting_of_lossless h (.inl rfl)
    · intro hfits
      refine (toToml_keeps hold hfits).keepsBut (Toml.node_set ?_ rfl rfl)
      intro key hkey
      have hne : (key == "telemetry") = false := beq_eq_false_iff_ne.mpr hkey
      simp [UserConfig.toToml, List.lookup_cons, hne]
  · refine ⟨{ c with scrollbackEncryption := ⟨enabled⟩ }.toToml,
      by rw [setScrollbackEncryption, hc]; rfl, ?_, ?_⟩
    · intro h
      exact fitting_of_lossless h (.inr rfl)
    · intro hfits
      refine (toToml_keeps hold hfits).keepsBut (Toml.node_set ?_ rfl rfl)
      intro key hkey
      have hne : (key == "scrollback_encryption") = false := beq_eq_false_iff_ne.mpr hkey
      simp [UserConfig.toToml, List.lookup_cons, hne]

/-- Sections are tables here. -/
private def strict : LooseSections Nat := ⟨fun _ => none, fun _ => none, fun _ => none⟩

/-- A newer key among the root's and one in the terminal section. -/
private def newerFile : TomlTable Nat :=
  [("log_dir", .string "/var/log/shelly"),
    ("terminal", .table [("cursor", .string "bar")])]

theorem settings_lossless_newer :
    (readConfig strict (some newerFile)).isSome = true ∧
      ∃ new, setTelemetry strict true (some newerFile) = some new ∧
        (Lossless ["telemetry", "opt_in"] true newerFile new ↔ Fitting newerFile) := by
  have hread : (readConfig strict (some newerFile)).isSome = true := by decide
  exact ⟨hread, (settings_lossless_iff true (some newerFile) hread).1⟩

/-- A newer key in the telemetry section is gone after the rewrite. -/
theorem settings_drop_newer : ∃ old new : TomlTable Nat,
    setTelemetry strict true (some old) = some new ∧
      (Toml.table old).node ["telemetry", "sample_rate"] = some (some (.scalar 5)) ∧
      (Toml.table new).node ["telemetry", "sample_rate"] = none ∧
      ¬ Lossless ["telemetry", "opt_in"] true old new := by
  let old : TomlTable Nat :=
    [("telemetry", .table [("opt_in", .boolean false), ("sample_rate", .scalar 5)])]
  have hold : (Toml.table old).node ["telemetry", "sample_rate"] = some (some (.scalar 5)) := rfl
  refine ⟨old, _, rfl, hold, rfl, fun h => ?_⟩
  have hkept := h.kept (by simp) hold
  cases hkept

end Lossless

end Shelly.Cli
