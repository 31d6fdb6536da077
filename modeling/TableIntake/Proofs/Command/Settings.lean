import TableIntake.Proofs.Command.Answers

namespace TableIntake

open TableIntake.Files
open TableIntake.Json (Value)

/-! Configurations and their files: which ones hold, and what is read when settings are left
out. -/

namespace Log.Severity

/-- The name is the label, in letters of any case. -/
def HasName (severity : Severity) (name : String) : Prop :=
  name.toList.map Char.toLower = severity.label.toList.map Char.toLower

instance (severity : Severity) (name : String) : Decidable (severity.HasName name) :=
  inferInstanceAs (Decidable (_ = _))

variable {severity : Severity} {name : String}

theorem map_toUpper_label (severity : Severity) :
    severity.label.toList.map Char.toUpper = severity.label.toList := by
  cases severity <;> decide

theorem hasName_iff :
    severity.HasName name ↔ severity.label.toList = name.toList.map Char.toUpper := by
  constructor
  · intro h
    have hupper := congrArg (List.map Char.toUpper) h
    simp only [List.map_map, Function.comp_def, Char.toUpper_toLower_eq_toUpper] at hupper
    rw [hupper, map_toUpper_label]
  · intro h
    simp only [HasName, h, List.map_map, Function.comp_def, Char.toLower_toUpper_eq_toLower]

theorem ofName?_eq_some_iff : ofName? name = some severity ↔ severity.HasName name := by
  rw [hasName_iff]
  constructor
  · intro h
    simpa using List.find?_some h
  · intro h
    rw [ofName?, ← h]
    cases severity <;> decide

theorem ofName?_eq_none_iff : ofName? name = none ↔ ∀ severity, ¬HasName severity name := by
  simp only [Option.eq_none_iff_forall_ne_some, ne_eq, ofName?_eq_some_iff]

end Log.Severity

namespace Command

open TableIntake.Log (Severity)

namespace Config

/-! Which configurations hold. -/

/-- What a configuration has to be for a batch to be run with it. -/
structure Sound (config : Config) : Prop where
  grammarSuffix : config.grammarSuffix ≠ ""
  dataSuffix : config.dataSuffix ≠ ""
  suffixes : config.grammarSuffix ≠ config.dataSuffix
  workers : 1 ≤ config.workers
  logLevel : ∃ severity : Severity, severity.HasName config.logLevel

inductive Defect (config : Config) : ConfigError → Prop where
  | emptySuffix (h : config.grammarSuffix = "" ∨ config.dataSuffix = "") :
      Defect config .emptySuffix
  | equalSuffixes (h : config.grammarSuffix = config.dataSuffix) :
      Defect config (.equalSuffixes config.grammarSuffix)
  | noWorkers (h : config.workers = 0) : Defect config .noWorkers
  | unknownLevel (h : ∀ severity : Severity, ¬severity.HasName config.logLevel) :
      Defect config (.unknownLevel config.logLevel)

variable {config : Config}

theorem Defect.not_sound {cause : ConfigError} (h : config.Defect cause) : ¬config.Sound := by
  intro hsound
  cases h with
  | emptySuffix h => exact h.elim hsound.grammarSuffix hsound.dataSuffix
  | equalSuffixes h => exact hsound.suffixes h
  | noWorkers h => exact absurd hsound.workers (by omega)
  | unknownLevel h =>
      obtain ⟨severity, hlevel⟩ := hsound.logLevel
      exact h severity hlevel

theorem severity_eq_ok_iff {severity : Severity} :
    config.severity = .ok severity ↔ severity.HasName config.logLevel := by
  rw [← Severity.ofName?_eq_some_iff, Config.severity]
  cases Severity.ofName? config.logLevel <;> simp

/-- A configuration is sound and passes, or it has a defect and is refused for that. -/
theorem validate_cases (config : Config) :
    (config.Sound ∧ config.validate = .ok ()) ∨
      ∃ cause, config.Defect cause ∧ config.validate = .error cause := by
  unfold validate
  split_ifs with hempty hequal hworkers
  · exact .inr ⟨_, .emptySuffix hempty, rfl⟩
  · exact .inr ⟨_, .equalSuffixes hequal, rfl⟩
  · exact .inr ⟨_, .noWorkers hworkers, rfl⟩
  · cases hname : Severity.ofName? config.logLevel with
    | none =>
        refine .inr ⟨_, .unknownLevel (Severity.ofName?_eq_none_iff.mp hname), ?_⟩
        simp only [Config.severity, hname]
        rfl
    | some severity =>
        have hlevel := Severity.ofName?_eq_some_iff.mp hname
        obtain ⟨hgrammar, hdata⟩ := not_or.mp hempty
        refine .inl ⟨⟨hgrammar, hdata, hequal, by omega, severity, hlevel⟩, ?_⟩
        rw [severity_eq_ok_iff.mpr hlevel]
        rfl

theorem sound_of_validate (h : config.validate = .ok ()) : config.Sound := by
  obtain ⟨hsound, -⟩ | ⟨cause, -, herror⟩ := config.validate_cases
  · exact hsound
  · cases h.symm.trans herror

theorem validate_of_sound (h : config.Sound) : config.validate = .ok () := by
  obtain ⟨-, hok⟩ | ⟨cause, hdefect, -⟩ := config.validate_cases
  · exact hok
  · exact absurd h hdefect.not_sound

theorem validate_of_not_sound (h : ¬config.Sound) :
    ∃ cause, config.Defect cause ∧ config.validate = .error cause :=
  config.validate_cases.resolve_left fun hsound => h hsound.1

/-! Settings and their texts. -/

inductive Key where
  | scratchDir
  | grammarSuffix
  | dataSuffix
  | workers
  | logLevel
  deriving DecidableEq

namespace Key

def all : List Key :=
  [scratchDir, grammarSuffix, dataSuffix, workers, logLevel]

def text : Key → String
  | scratchDir => "scratch_dir"
  | grammarSuffix => "grammar_suffix"
  | dataSuffix => "data_suffix"
  | workers => "workers"
  | logLevel => "log_level"

def value (config : Config) : Key → Value
  | scratchDir => .string config.scratchDir.text
  | grammarSuffix => .string config.grammarSuffix
  | dataSuffix => .string config.dataSuffix
  | workers => .natural config.workers
  | logLevel => .string config.logLevel

theorem text_injective : Function.Injective text := by
  intro a b h
  cases a <;> cases b <;> first | rfl | exact absurd h (by decide)

end Key

/-- The settings of these keys, with all others from the base. -/
def onto (config base : Config) (keys : List Key) : Config where
  scratchDir := if .scratchDir ∈ keys then config.scratchDir else base.scratchDir
  grammarSuffix := if .grammarSuffix ∈ keys then config.grammarSuffix else base.grammarSuffix
  dataSuffix := if .dataSuffix ∈ keys then config.dataSuffix else base.dataSuffix
  workers := if .workers ∈ keys then config.workers else base.workers
  logLevel := if .logLevel ∈ keys then config.logLevel else base.logLevel

theorem onto_all (config base : Config) : config.onto base Key.all = config :=
  rfl

/-- Settings can be taken over one by one. -/
theorem onto_cons (config base : Config) (key : Key) (keys : List Key) :
    config.onto base (key :: keys) = config.onto (config.onto base [key]) keys := by
  cases key <;> simp [onto]

/-- An object with the settings of these keys and no others. -/
def object (config : Config) (keys : List Key) : Value :=
  .object (keys.map fun key => (key.text, key.value config))

theorem object_all (config : Config) : config.object Key.all = config.toJson :=
  rfl

/-- What the wire form is made for: a scratch directory that some text names, and a count of workers
that a word holds. -/
structure Writable (config : Config) : Prop where
  scratchDir : ∃ text, config.scratchDir = Path.ofText text
  workers : config.workers < UInt64.size

theorem object_fits (h : config.Writable) (keys : List Key) :
    (config.object keys).Everywhere Value.Fits := by
  refine Value.everywhere_object.mpr ⟨trivial, List.forall_mem_map.mpr fun key _ => ?_⟩
  cases key with
  | workers => exact Value.everywhere_number.mpr (fitsWord_natCast h.workers)
  | _ => exact Value.everywhere_string.mpr trivial

theorem object_noDecimal (config : Config) (keys : List Key) :
    (config.object keys).Everywhere Value.NoDecimal := by
  refine Value.everywhere_object.mpr ⟨trivial, List.forall_mem_map.mpr fun key _ => ?_⟩
  cases key with
  | workers => exact Value.everywhere_number.mpr trivial
  | _ => exact Value.everywhere_string.mpr trivial

/-! Reading. -/

theorem integer_workers (h : config.Writable) (rest : List Char) :
    Json.Reader.integer 0 0xffffffffffffffff "usize" ((Value.natural config.workers).outline rest) =
      .ok config.workers :=
  if_pos ⟨Int.natCast_nonneg _, Int.ofNat_le.mpr (Nat.le_of_lt_succ h.workers)⟩

theorem ofText_scratchDir (h : config.Writable) :
    Path.ofText config.scratchDir.text = config.scratchDir := by
  obtain ⟨text, htext⟩ := h.scratchDir
  rw [htext, Path.text_ofText]

/-- The field reads what is written for the key. -/
def Takes (field : Json.Field Config) (key : Key) : Prop :=
  ∀ (config base : Config) (rest : List Char), config.Writable →
    field.read base ((key.value config).outline rest) = .ok (config.onto base [key])

theorem reader_fields (temporary : Path) :
    ∃ fields : List (Json.Field Config),
      reader temporary = Json.Record.read "Config" fields (default temporary) ∧
      (∀ field ∈ fields, field.absence = .default) ∧
      ∀ key : Key, ∃ field, fields.find? (·.name = key.text) = some field ∧ Takes field key := by
  refine ⟨_, rfl, by simp, fun key => ?_⟩
  cases key with
  | scratchDir =>
      refine ⟨_, rfl, fun config base rest h => (bind_of_ok rfl).trans ?_⟩
      rw [ofText_scratchDir h]
      rfl
  | grammarSuffix => exact ⟨_, rfl, fun _ _ _ _ => rfl⟩
  | dataSuffix => exact ⟨_, rfl, fun _ _ _ _ => rfl⟩
  | workers => exact ⟨_, rfl, fun _ _ _ h => bind_of_ok (integer_workers h _)⟩
  | logLevel => exact ⟨_, rfl, fun _ _ _ _ => rfl⟩

theorem members_object {fields : List (Json.Field Config)}
    (hfields : ∀ key : Key, ∃ field,
      fields.find? (·.name = key.text) = some field ∧ Takes field key)
    (h : config.Writable) (base : Config) {keys : List Key} (hkeys : keys.Nodup)
    {seen : List String} (hseen : ∀ key ∈ keys, key.text ∉ seen) (rest : List Char) :
    ∃ all, Json.Record.members fields base seen
      (Value.memberOutlines (keys.map fun key => (key.text, key.value config)) rest) =
        .ok (config.onto base keys, all) := by
  induction keys generalizing base seen with
  | nil => exact ⟨seen, rfl⟩
  | cons key keys ih =>
      obtain ⟨hkey, hkeys⟩ := List.nodup_cons.mp hkeys
      obtain ⟨hfirst, hothers⟩ := List.forall_mem_cons.mp hseen
      obtain ⟨field, hfield, htakes⟩ := hfields key
      have hnext : ∀ other ∈ keys, other.text ∉ key.text :: seen := by
        intro other hother hmem
        obtain heq | hmem := List.mem_cons.mp hmem
        · exact hkey (Key.text_injective heq ▸ hother)
        · exact hothers other hother hmem
      obtain ⟨all, hall⟩ := ih (config.onto base [key]) hkeys hnext
      refine ⟨all, ?_⟩
      rw [List.map_cons, Value.memberOutlines,
        Json.Record.members_field hfield hfirst (htakes config base _ h), hall, ← onto_cons]

theorem reader_object (h : config.Writable) (temporary : Path) {keys : List Key}
    (hkeys : keys.Nodup) (rest : List Char) :
    reader temporary ((config.object keys).outline rest) =
      .ok (config.onto (default temporary) keys) := by
  obtain ⟨fields, hreader, habsence, hfields⟩ := reader_fields temporary
  obtain ⟨all, hmembers⟩ :=
    members_object hfields h (default temporary) hkeys (fun _ _ => List.not_mem_nil) rest
  have hnone : fields.find? (fun field => field.absence = .refused ∧ field.name ∉ all) = none := by
    refine List.find?_eq_none.mpr fun field hfield => ?_
    simp [habsence field hfield]
  rw [hreader, object, Value.outline, Json.Record.read, bind_of_ok hmembers]
  simp only [hnone]

/-! Loading. -/

variable {temporary path : Path} {tree : FileTree}

theorem load_of_read {text : String} (htext : tree.readText path = .ok text)
    (hread : Json.read (reader temporary) text = .ok config) :
    load temporary tree path = config.validate.map fun _ => config := by
  simp only [load, htext, ofText, hread]

theorem load_object (h : config.Writable) {keys : List Key} (hkeys : keys.Nodup)
    (htext : tree.readText path = .ok (config.object keys).render) :
    load temporary tree path =
      (config.onto (default temporary) keys).validate.map fun _ =>
        config.onto (default temporary) keys :=
  load_of_read htext (Json.read_render (object_noDecimal config keys) (object_fits h keys)
    (reader_object h temporary hkeys []))

/-- What is loaded is sound and has a severity; a sound configuration is loaded from its text; and
of a configuration with settings left out, the defaults stand in for them, if that is sound. -/
theorem load_settings (temporary path : Path) (tree : FileTree) :
    (∀ config, load temporary tree path = .ok config →
      config.Sound ∧
        ∃ severity, config.severity = .ok severity ∧ severity.HasName config.logLevel) ∧
    (∀ config : Config, config.Writable → config.Sound →
      tree.readText path = .ok config.toJson.render → load temporary tree path = .ok config) ∧
    ∀ (config : Config) (keys : List Key), config.Writable → keys.Nodup →
      tree.readText path = .ok (config.object keys).render →
        ((config.onto (default temporary) keys).Sound →
          load temporary tree path = .ok (config.onto (default temporary) keys)) ∧
        (¬(config.onto (default temporary) keys).Sound →
          ∃ cause, load temporary tree path = .error cause ∧
            (config.onto (default temporary) keys).Defect cause) := by
  refine ⟨?_, ?_, ?_⟩
  · intro config hload
    have hsound := sound_of_validate (validate_of_load hload)
    obtain ⟨severity, hlevel⟩ := hsound.logLevel
    exact ⟨hsound, severity, severity_eq_ok_iff.mpr hlevel, hlevel⟩
  · intro config hwritable hsound htext
    rw [← object_all] at htext
    rw [load_object hwritable (by decide) htext, onto_all, validate_of_sound hsound]
    rfl
  · intro config keys hwritable hkeys htext
    rw [load_object hwritable hkeys htext]
    constructor
    · intro hsound
      rw [validate_of_sound hsound]
      rfl
    · intro hunsound
      obtain ⟨cause, hdefect, hcause⟩ := validate_of_not_sound hunsound
      rw [hcause]
      exact ⟨cause, rfl, hdefect⟩

/-- The grammar suffix is the one that data have by default. -/
def clashing : Config where
  scratchDir := .ofText "/var//tmp/"
  grammarSuffix := ".data.csv"
  dataSuffix := ".rows"
  workers := 18446744073709551615
  logLevel := "wARN"

def clashingTree : FileTree where
  nodes :=
    [(["whole"], .file clashing.toJson.render.toUTF8.toList),
      (["part"], .file (clashing.object [.dataSuffix, .scratchDir]).render.toUTF8.toList),
      (["clash"], .file (clashing.object [.workers, .grammarSuffix]).render.toUTF8.toList)]

theorem clashing_writable : clashing.Writable :=
  ⟨⟨"/var//tmp/", rfl⟩, by decide⟩

theorem load_settings_clashing :
    load ⟨false, ["tmp"]⟩ clashingTree ⟨false, ["whole"]⟩ = .ok clashing ∧
    clashing.severity = .ok .warn ∧
    load ⟨false, ["tmp"]⟩ clashingTree ⟨false, ["part"]⟩ =
      .ok { scratchDir := clashing.scratchDir, dataSuffix := ".rows" } ∧
    load ⟨false, ["tmp"]⟩ clashingTree ⟨false, ["clash"]⟩ =
      .error (.equalSuffixes ".data.csv") := by
  have hwhole : clashingTree.readText ⟨false, ["whole"]⟩ = .ok clashing.toJson.render := by
    decide +kernel
  have hpart : clashingTree.readText ⟨false, ["part"]⟩ =
      .ok (clashing.object [.dataSuffix, .scratchDir]).render := by decide +kernel
  have hclash : clashingTree.readText ⟨false, ["clash"]⟩ =
      .ok (clashing.object [.workers, .grammarSuffix]).render := by decide +kernel
  have hsound : clashing.Sound := ⟨by decide, by decide, by decide, by decide, .warn, by decide⟩
  obtain ⟨hlevel, hload, -⟩ := load_settings ⟨false, ["tmp"]⟩ ⟨false, ["whole"]⟩ clashingTree
  have hloaded := hload clashing clashing_writable hsound hwhole
  obtain ⟨-, severity, hseverity, hname⟩ := hlevel clashing hloaded
  have hwarn : severity = .warn := by
    revert hname
    cases severity <;> decide
  obtain ⟨-, -, hkeys⟩ := load_settings ⟨false, ["tmp"]⟩ ⟨false, ["part"]⟩ clashingTree
  have hpartial := (hkeys clashing _ clashing_writable (by decide) hpart).1
    ⟨by decide, by decide, by decide, by decide, .info, by decide⟩
  obtain ⟨-, -, hkeys⟩ := load_settings ⟨false, ["tmp"]⟩ ⟨false, ["clash"]⟩ clashingTree
  obtain ⟨cause, hrefused, hdefect⟩ := (hkeys clashing _ clashing_writable (by decide) hclash).2
    fun hsound => hsound.suffixes rfl
  refine ⟨hloaded, hwarn ▸ hseverity, hpartial, ?_⟩
  rw [hrefused]
  cases hdefect with
  | emptySuffix h => exact absurd h (by decide)
  | equalSuffixes h => rfl
  | noWorkers h => exact absurd h (by decide)
  | unknownLevel h => exact absurd (by decide) (h .info)

end Config

end Command

end TableIntake
