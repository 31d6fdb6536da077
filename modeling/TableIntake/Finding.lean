import TableIntake.Json.Printer
import TableIntake.Json.Reader

namespace TableIntake

open TableIntake.Json (Value Reader)

/-! Findings: what a check has to say about a place in a text. -/

inductive Place where
  | index (i : UInt64)
  | common
  deriving DecidableEq, Repr

namespace Place

def describe : Place → String
  | index i => toString i.toNat
  | common => "common"

def toJson : Place → Value
  | index i => .natural i.toNat
  | common => .string "common"

def expected : String :=
  "a column index or \"common\""

def reader : Reader Place
  | .scalar (.number (some (.integer i))) left =>
      if 0 ≤ i then .ok (index (UInt64.ofNat i.toNat))
      else .error (.mismatch (.refused s!"negative column index {i}") (some left))
  | .scalar (.string (some s)) left =>
      if s = "common" then .ok common
      else .error (.mismatch (.wrongValue (.string s) expected) (some left))
  | outline => Reader.refuse expected outline

/-- Columns in their order, then the line as a whole. -/
def before : Place → Place → Bool
  | index i, index j => decide (i < j)
  | index _, common => true
  | common, _ => false

end Place

structure Finding where
  row : Int64
  place : Place
  code : UInt16
  message : String
  /-- The cells or the cell that the finding is about. -/
  data : Value
  deriving Repr

namespace Finding

/-- The row of a finding about a document as a whole. -/
def documentRow : Int64 := -1

/-- Numbers from `2^63` on run over into the negative rows. -/
def atLine (number : Nat) (place : Place) (code : UInt16) (message : String) (data : Value) :
    Finding :=
  ⟨Int64.ofNat number, place, code, message, data⟩

def ofDocument (code : UInt16) (message : String) (data : Value) : Finding :=
  ⟨documentRow, .common, code, message, data⟩

def isDocumentLevel (finding : Finding) : Bool :=
  finding.row == documentRow

def describe (finding : Finding) : String :=
  let code := finding.code.toNat
  let row := finding.row.toInt
  let place := finding.place.describe
  s!"[{code}] row {row}, col {place}: {finding.message}"

/-- Equality, with the numbers in the data compared as numbers. -/
def same (a b : Finding) : Bool :=
  a.row == b.row && a.place == b.place && a.code == b.code && a.message == b.message
    && a.data.same b.data

def toJson (finding : Finding) : Value :=
  .object
    [("row", .number (.integer finding.row.toInt)),
      ("col", finding.place.toJson),
      ("errorCode", .natural finding.code.toNat),
      ("error", .string finding.message),
      ("data", finding.data)]

def listToJson (findings : List Finding) : Value :=
  .array (findings.map toJson)

/-- The depth to which the data of a finding may be nested. -/
def dataDepth : Nat := 126

def reader : Reader Finding :=
  Json.Record.read "ValidationError"
    [⟨"row", .refused, fun finding outline => do
        let row ← Reader.integer Int64.minValue.toInt Int64.maxValue.toInt "i64" outline
        return { finding with row := Int64.ofInt row }⟩,
      ⟨"col", .refused, fun finding outline => do
        return { finding with place := ← Place.reader outline }⟩,
      ⟨"errorCode", .refused, fun finding outline => do
        let code ← Reader.integer 0 65535 "u16" outline
        return { finding with code := UInt16.ofNat code.toNat }⟩,
      ⟨"error", .refused, fun finding outline => do
        return { finding with message := ← Reader.string "a string" outline }⟩,
      ⟨"data", .refused, fun finding outline => do
        return { finding with data := ← Reader.value dataDepth outline }⟩]
    ⟨0, .common, 0, "", .null⟩

def read (text : String) : Except Json.Failure Finding :=
  Json.read reader text

end Finding

end TableIntake
