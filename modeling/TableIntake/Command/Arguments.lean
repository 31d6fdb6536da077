import TableIntake.Files.Path

namespace TableIntake

open TableIntake.Files

/-! Command lines. -/

inductive Command where
  | checkGrammar (variant : String) (grammar : Path) (config : Option Path)
  | checkData (variant : String) (grammar data : Path) (config : Option Path)
  | bulk (archive : Path) (config : Option Path)
  deriving DecidableEq, Repr

namespace Command

/-- Why a command line is no command. Two of the reasons are that it asks for help or for the
version. -/
inductive UsageError where
  | help
  | version
  | noArguments
  | unknownCommand
  | unknownArgument
  | missingArgument
  | badValue
  | repeatedOption
  | superfluousValue
  deriving DecidableEq, Repr

inductive Verb where
  | checkGrammar
  | checkData
  | bulk
  deriving DecidableEq, Repr

inductive Setting where
  | type
  | grammar
  | data
  | archive
  | config
  deriving DecidableEq, Repr

namespace Setting

def name : Setting → String
  | type => "type"
  | grammar => "grammar"
  | data => "data"
  | archive => "archive"
  | config => "config"

/-- A path has to have some text; a variant does not. -/
def admits (setting : Setting) (value : String) : Bool :=
  setting = type || value ≠ ""

end Setting

namespace Verb

def all : List Verb :=
  [checkGrammar, checkData, bulk]

def name : Verb → String
  | checkGrammar => "check-grammar"
  | checkData => "check-data"
  | bulk => "bulk"

def ofName? (name : String) : Option Verb :=
  all.find? (·.name = name)

def settings : Verb → List Setting
  | checkGrammar => [.type, .grammar, .config]
  | checkData => [.type, .grammar, .data, .config]
  | bulk => [.archive, .config]

end Verb

namespace Arguments

structure State where
  values : List (Setting × String) := []
  waiting : Option (Setting × Option String) := none
  deriving Repr

namespace State

def settle (state : State) : Except UsageError State :=
  match state.waiting with
  | none => .ok state
  | some (_, none) => .error .badValue
  | some (setting, some value) =>
      if state.values.any (·.1 = setting) then .error .repeatedOption
      else if !setting.admits value then .error .badValue
      else .ok ⟨(setting, value) :: state.values, none⟩

/-- Begins a setting. One whose value is attached to it waits for nothing. -/
def await (state : State) (setting : Setting) (value : Option String) :
    Except UsageError State := do
  let state := { ← state.settle with waiting := some (setting, value) }
  if value.isSome then state.settle else return state

def path? (state : State) (setting : Setting) : Option Path :=
  (state.values.lookup setting).map Path.ofText

end State

inductive Word where
  | value (text : String)
  | option (name : String) (value : Option String)
  | shortHelp
  | endOfOptions
  | unknown
  deriving DecidableEq, Repr

def Word.ofText (text : String) : Word :=
  match text.toList with
  | ['-'] => .value text
  | ['-', '-'] => .endOfOptions
  | '-' :: '-' :: cs =>
      let name := String.ofList (cs.takeWhile (· ≠ '='))
      match cs.dropWhile (· ≠ '=') with
      | _ :: cs => .option name (some (String.ofList cs))
      | [] => .option name none
  | '-' :: 'h' :: _ => .shortHelp
  | '-' :: _ => .unknown
  | _ => .value text

def readSettings (verb : Verb) : State → List String → Except UsageError State
  | state, [] => state.settle
  | state, text :: rest =>
      match Word.ofText text with
      | .value value =>
          match state.waiting with
          | some (setting, none) =>
              readSettings verb { state with waiting := some (setting, some value) } rest
          | _ => .error .unknownArgument
      | .shortHelp => state.settle.bind fun _ => .error .help
      | .endOfOptions => if rest.isEmpty then state.settle else .error .unknownArgument
      | .unknown => .error .unknownArgument
      | .option name value =>
          if name = "help" then
            if value.isSome then .error .superfluousValue
            else state.settle.bind fun _ => .error .help
          else
            match verb.settings.find? (·.name = name) with
            | none => .error .unknownArgument
            | some setting =>
                match state.await setting value with
                | .error e => .error e
                | .ok state => readSettings verb state rest

def command? (verb : Verb) (state : State) : Option Command := do
  let config := state.path? .config
  match verb with
  | .checkGrammar =>
      return .checkGrammar (← state.values.lookup .type) (← state.path? .grammar) config
  | .checkData =>
      return .checkData (← state.values.lookup .type) (← state.path? .grammar)
        (← state.path? .data) config
  | .bulk => return .bulk (← state.path? .archive) config

def readVerb (verb : Verb) (texts : List String) : Except UsageError Command := do
  let state ← readSettings verb {} texts
  match command? verb state with
  | none => .error .missingArgument
  | some command => return command

def readHelp : List String → UsageError
  | [] => .help
  | ["help"] => .help
  | [name] => if (Verb.ofName? name).isSome then .help else .unknownCommand
  | _ => .unknownCommand

def read : List String → Except UsageError Command
  | [] => .error .noArguments
  | text :: rest =>
      match Word.ofText text with
      | .value name =>
          match Verb.ofName? name with
          | some verb => readVerb verb rest
          | none => .error (if name = "help" then readHelp rest else .unknownCommand)
      | .shortHelp => .error .help
      | .endOfOptions =>
          match rest with
          | [] => .error .noArguments
          | name :: _ =>
              if (Verb.ofName? name).isSome || name = "help" then .error .unknownArgument
              else .error .unknownCommand
      | .unknown => .error (if text.startsWith "-V" then .version else .unknownArgument)
      | .option name value =>
          if name = "help" then
            .error (if value.isSome then .superfluousValue else .help)
          else if name = "version" then
            .error (if value.isSome then .superfluousValue else .version)
          else .error .unknownArgument

end Arguments

end Command

end TableIntake
