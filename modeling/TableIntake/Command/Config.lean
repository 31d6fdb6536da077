import TableIntake.Batch.Process

namespace TableIntake.Command

open TableIntake.Batch
open TableIntake.Files
open TableIntake.Json (Reader Value)
open TableIntake.Log (Severity)

/-! Configuration files: every setting has a default. -/

structure Config where
  scratchDir : Path
  grammarSuffix : String := ".grammar.csv"
  dataSuffix : String := ".data.csv"
  workers : Nat := 1
  logLevel : String := "info"
  deriving DecidableEq, Repr

inductive ConfigError where
  | unreadable (cause : Error)
  | malformed (text : String) (failure : Json.Failure)
  | emptySuffix
  | equalSuffixes (suffix : String)
  | noWorkers
  | unknownLevel (level : String)
  deriving DecidableEq, Repr

def ConfigError.message : ConfigError → String
  | .unreadable cause => s!"Failed to read config: {cause.message}"
  | .malformed text failure => s!"Invalid config JSON: {failure.describe text}"
  | .emptySuffix => "grammar_suffix and data_suffix must not be empty"
  | .equalSuffixes suffix =>
      s!"grammar_suffix and data_suffix must differ (both '{suffix}')"
  | .noWorkers => "workers must be >= 1"
  | .unknownLevel level =>
      s!"Invalid log_level: '{level}'. Expected trace, info, warn, error or fatal."

namespace Config

/-- The defaults; scratch directories are made where temporary files are. -/
def default (temporary : Path) : Config where
  scratchDir := temporary

/-- Settings that name the same directory in two ways do not differ. -/
def same (a b : Config) : Bool :=
  a.scratchDir.same b.scratchDir && a.grammarSuffix == b.grammarSuffix
    && a.dataSuffix == b.dataSuffix && a.workers == b.workers && a.logLevel == b.logLevel

def toJson (config : Config) : Value :=
  .object
    [("scratch_dir", .string config.scratchDir.text),
      ("grammar_suffix", .string config.grammarSuffix),
      ("data_suffix", .string config.dataSuffix),
      ("workers", .natural config.workers),
      ("log_level", .string config.logLevel)]

def reader (temporary : Path) : Reader Config :=
  Json.Record.read "Config"
    [⟨"scratch_dir", .default, fun config outline => do
        return { config with scratchDir := .ofText (← Reader.string "path string" outline) }⟩,
      ⟨"grammar_suffix", .default, fun config outline => do
        return { config with grammarSuffix := ← Reader.string "a string" outline }⟩,
      ⟨"data_suffix", .default, fun config outline => do
        return { config with dataSuffix := ← Reader.string "a string" outline }⟩,
      ⟨"workers", .default, fun config outline => do
        let workers ← Reader.integer 0 0xffffffffffffffff "usize" outline
        return { config with workers := workers.toNat }⟩,
      ⟨"log_level", .default, fun config outline => do
        return { config with logLevel := ← Reader.string "a string" outline }⟩]
    (default temporary)

def severity (config : Config) : Except ConfigError Severity :=
  match Severity.ofName? config.logLevel with
  | some severity => .ok severity
  | none => .error (.unknownLevel config.logLevel)

def validate (config : Config) : Except ConfigError Unit :=
  if config.grammarSuffix = "" ∨ config.dataSuffix = "" then .error .emptySuffix
  else if config.grammarSuffix = config.dataSuffix then
    .error (.equalSuffixes config.grammarSuffix)
  else if config.workers = 0 then .error .noWorkers
  else config.severity.map fun _ => ()

def ofText (temporary : Path) (text : String) : Except ConfigError Config :=
  match Json.read (reader temporary) text with
  | .error failure => .error (.malformed text failure)
  | .ok config => config.validate.map fun _ => config

def load (temporary : Path) (tree : FileTree) (path : Path) : Except ConfigError Config :=
  match tree.readText path with
  | .error e => .error (.unreadable e)
  | .ok text => ofText temporary text

def resolve (temporary : Path) (tree : FileTree) : Option Path → Except ConfigError Config
  | none => .ok (default temporary)
  | some path => load temporary tree path

def plan (config : Config) : Plan where
  convention := SuffixConvention.classify ⟨config.grammarSuffix, config.dataSuffix⟩
  scratchRoot := config.scratchDir
  workers := config.workers

end Config

end TableIntake.Command
