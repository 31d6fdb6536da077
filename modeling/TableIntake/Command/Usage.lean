import TableIntake.Command.Arguments

namespace TableIntake.Command

/-! What is printed of command lines that are no commands. -/

def helpText : String :=
  "Commands:\n"
    ++ "  check-grammar --type <VARIANT> --grammar <PATH> [--config <PATH>]\n"
    ++ "  check-data --type <VARIANT> --grammar <PATH> --data <PATH> [--config <PATH>]\n"
    ++ "  bulk --archive <PATH> [--config <PATH>]\n"

def versionText : String := "0.1.0\n"

namespace UsageError

def isRequest : UsageError → Bool
  | help => true
  | version => true
  | _ => false

def text : UsageError → String
  | help => helpText
  | version => versionText
  | noArguments => helpText
  | unknownCommand => "error: unknown command\n\n" ++ helpText
  | unknownArgument => "error: unexpected argument\n\n" ++ helpText
  | missingArgument => "error: a required argument is missing\n\n" ++ helpText
  | badValue => "error: an option has no valid value\n\n" ++ helpText
  | repeatedOption => "error: an option is given more than once\n\n" ++ helpText
  | superfluousValue => "error: an option takes no value\n\n" ++ helpText

def exitCode (error : UsageError) : UInt32 :=
  if error.isRequest then 0 else 2

end UsageError

end TableIntake.Command
