import TableIntake.Command.Arguments
import TableIntake.Command.Config

namespace TableIntake.Command

open TableIntake.Files
open TableIntake.Json (Value)
open TableIntake.Log (Logging)

/-! Running commands: one line of JSON for each of them. -/

inductive CommandError where
  | config (cause : ConfigError)
  | input (path : Path) (cause : Error)
  | unknownVariant (unknown : UnknownVariant)
  | batch (failure : Batch.Failure)
  deriving DecidableEq, Repr

namespace CommandError

def code : CommandError → String
  | config _ => "INGEST_CLI_CONFIG_ERROR"
  | input _ _ => "INGEST_CLI_IO_ERROR"
  | unknownVariant _ => UnknownVariant.code
  | batch failure => failure.code

def message : CommandError → String
  | config cause => cause.message
  | input path cause => s!"Failed to read {path.text}: {cause.message}"
  | unknownVariant unknown => unknown.message
  | batch failure => failure.message

def describe (error : CommandError) : String :=
  s!"{error.code}: {error.message}"

end CommandError

structure Surroundings where
  temporary : Path
  run : Batch.Run

def loadConfig (surroundings : Surroundings) (tree : FileTree) (path : Option Path) :
    Logging (Except CommandError Config) := do
  let resolved := do
    let config ← Config.resolve surroundings.temporary tree path
    return (config, ← config.severity)
  match resolved with
  | .error cause => return .error (.config cause)
  | .ok (config, severity) =>
      modify fun journal => { journal with threshold := severity }
      let source := match path with
        | none => "defaults"
        | some path => path.text
      Log.emit .configLoaded [("source", source), ("log_level", config.logLevel)]
      return .ok config

def readInput (tree : FileTree) (path : Path) : Except CommandError String :=
  match tree.readText path with
  | .ok text => .ok text
  | .error cause => .error (.input path cause)

def verdict (findings : List Finding) : Value :=
  .object [("valid", .bool findings.isEmpty), ("errors", Finding.listToJson findings)]

def configPath : Command → Option Path
  | checkGrammar _ _ config => config
  | checkData _ _ _ config => config
  | bulk _ config => config

def paths : Command → List Path
  | checkGrammar _ grammar config => grammar :: config.toList
  | checkData _ grammar data config => grammar :: data :: config.toList
  | bulk archive config => archive :: config.toList

def executeWith (command : Command) (config : Config) (run : Batch.Run) (tree : FileTree) :
    Logging (Except CommandError Value × FileTree) := do
  match command with
  | checkGrammar variant grammar _ =>
      match ← Variant.parse variant with
      | .error unknown => return (.error (.unknownVariant unknown), tree)
      | .ok v =>
          match readInput tree grammar with
          | .error e => return (.error e, tree)
          | .ok grammar => return (.ok (verdict (← v.checkGrammar grammar)), tree)
  | checkData variant grammar data _ =>
      match ← Variant.parse variant with
      | .error unknown => return (.error (.unknownVariant unknown), tree)
      | .ok v =>
          let texts := do return (← readInput tree grammar, ← readInput tree data)
          match texts with
          | .error e => return (.error e, tree)
          | .ok (grammar, data) => return (.ok (verdict (← v.checkData grammar data)), tree)
  | bulk archive _ =>
      let (result, tree) ← config.plan.process run archive tree
      match result with
      | .error failure => return (.error (.batch failure), tree)
      | .ok reports =>
          return (.ok (.object [("pairs", .array (reports.map Batch.Report.toJson))]), tree)

def execute (command : Command) (surroundings : Surroundings) (tree : FileTree) :
    Logging (Except CommandError Value × FileTree) := do
  match ← loadConfig surroundings tree command.configPath with
  | .error e => return (.error e, tree)
  | .ok config => command.executeWith config surroundings.run tree

def response : Except CommandError Value → String
  | .ok data =>
      (Value.object [("status", .string "ok"), ("data", data)]).sorted.render ++ "\n"
  | .error e =>
      (Value.object
        [("status", .string "error"), ("code", .string e.code),
          ("message", .string e.message)]).sorted.render ++ "\n"

end TableIntake.Command
