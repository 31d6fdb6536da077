namespace TableIntake.Files

/-! What can go wrong with files. -/

inductive Error where
  | notFound
  | alreadyExists
  | notDirectory
  | isDirectory
  | notEmpty
  | busy
  | badArgument
  | nameTooLong
  /-- A path holds the character that ends paths. -/
  | nulInPath
  /-- A file that is to be read as text is not UTF-8. -/
  | notText
  /-- An entry name leads out of its directory. -/
  | escapes
  | emptyName
  /-- What a file is to be filled with cannot be read to its end. -/
  | fault (reason : String)
  deriving DecidableEq, Repr

/-- What was asked for makes no sense, whatever there is. -/
def Error.isInvalidInput : Error → Bool
  | .badArgument | .nulInPath | .escapes | .emptyName => true
  | _ => false

def Error.message : Error → String
  | .notFound => "No such file or directory (os error 2)"
  | .alreadyExists => "File exists (os error 17)"
  | .notDirectory => "Not a directory (os error 20)"
  | .isDirectory => "Is a directory (os error 21)"
  | .notEmpty => "Directory not empty (os error 39)"
  | .busy => "Device or resource busy (os error 16)"
  | .badArgument => "Invalid argument (os error 22)"
  | .nameTooLong => "File name too long (os error 36)"
  | .nulInPath => "file name contained an unexpected NUL byte"
  | .notText => "stream did not contain valid UTF-8"
  | .escapes => "path escapes the scratch directory"
  | .emptyName => "empty entry name"
  | .fault reason => reason

end TableIntake.Files
