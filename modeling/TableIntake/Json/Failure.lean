import TableIntake.Decimal.Layout
import TableIntake.Text.Quoted

namespace TableIntake.Json

open TableIntake.Decimal
open TableIntake.Text

/-! What can be wrong with a text that is to be read as a value of some type. -/

/-- What stands where something else is expected. -/
inductive Found where
  | null
  | bool (b : Bool)
  | integer (value : Int)
  | decimal (bits : UInt64)
  | string (s : String)
  | sequence
  | map
  deriving DecidableEq, Repr

def Found.message : Found → String
  | .null => "null"
  | .bool b => s!"boolean `{b}`"
  | .integer value => s!"integer `{value}`"
  | .decimal bits => s!"floating point `{Layout.compact.write bits}`"
  | .string s => s!"string {Text.quoted s}"
  | .sequence => "sequence"
  | .map => "map"

inductive Mismatch where
  | wrongType (found : Found) (expected : String)
  | wrongValue (found : Found) (expected : String)
  | wrongLength (length : Nat) (expected : String)
  | missingField (name : String)
  | repeatedField (name : String)
  | unknownName (name : String) (known : List String)
  | refused (reason : String)
  deriving DecidableEq, Repr

def oneOf (known : List String) : String :=
  match known.map fun name => s!"`{name}`" with
  | [] => "nothing"
  | [a] => a
  | [a, b] => s!"{a} or {b}"
  | names => "one of " ++ ", ".intercalate names

def Mismatch.message : Mismatch → String
  | .wrongType found expected => s!"invalid type: {found.message}, expected {expected}"
  | .wrongValue found expected => s!"invalid value: {found.message}, expected {expected}"
  | .wrongLength length expected => s!"invalid length {length}, expected {expected}"
  | .missingField name => s!"missing field `{name}`"
  | .repeatedField name => s!"duplicate field `{name}`"
  | .unknownName name known => s!"unknown variant `{name}`, expected {oneOf known}"
  | .refused reason => reason

/-- A text is no JSON, or its content is not what is expected. A mismatch at a scalar knows how
many characters follow that scalar. -/
inductive Failure where
  | malformed
  | mismatch (cause : Mismatch) (left : Option Nat)
  deriving DecidableEq, Repr

/-- The line, from 1, and the count of bytes on that line before the last `left` characters. -/
def position (text : String) (left : Nat) : Nat × Nat :=
  let before := text.toList.take (text.length - left)
  let column := (String.ofList (before.reverse.takeWhile (· ≠ '\n'))).utf8ByteSize
  (before.count '\n' + 1, column)

def Failure.describe (text : String) : Failure → String
  | .malformed => "not well-formed"
  | .mismatch cause none => cause.message
  | .mismatch cause (some left) =>
      let (line, column) := position text left
      s!"{cause.message} at line {line} column {column}"

end TableIntake.Json
