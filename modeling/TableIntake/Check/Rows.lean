import TableIntake.Check.Schema
import TableIntake.Lexical

namespace TableIntake.Check

open TableIntake.Grammar
open TableIntake.Json (Value)

/-! The checks of data rows against a schema. -/

def invalidValue (dialect : Dialect) (line : Line) (column : Nat) (name cell : String)
    (dataType : DataType) : Finding :=
  let number := line.number
  let position := column + 1
  .atLine number (.index (UInt64.ofNat column)) (dialect.code .dataConformance)
    (s!"Line {number}: Invalid value '{cell}' at column {position} ({name}): "
      ++ s!"expected {dataType.literal}")
    (.string cell)

def cell? (dialect : Dialect) (line : Line) (index : Nat) (column : Column)
    (cell : String) : Option Finding :=
  match column.dataType with
  | none => none
  | some dataType =>
      if Lexical.conforms cell dataType then none
      else some (invalidValue dialect line index column.name cell dataType)

/-- The cells of a row of the right width are to be literals of the columns' types. -/
def cells (dialect : Dialect) (schema : Schema) (line : Line) : List Finding :=
  (schema.columns.zip line.cells).zipIdx.filterMap fun ((column, cell), index) =>
    cell? dialect line index column cell

def row (dialect : Dialect) (schema : Schema) (line : Line) : List Finding :=
  if line.width = schema.width then cells dialect schema line
  else [wrongWidth dialect schema.width line]

def body (schema : Schema) : List Line → List Line
  | [] => []
  | first :: rows => if schema.isHeader first.cells then rows else first :: rows

def rows (dialect : Dialect) (schema : Schema) (lines : List Line) : List Finding :=
  (body schema lines).flatMap (row dialect schema)

/-- The width of the rows that stand in a grammar is for the grammar's own check. -/
def embeddedRows (dialect : Dialect) (schema : Schema) (lines : List Line) : List Finding :=
  ((body schema lines).filter (·.width = schema.width)).flatMap (row dialect schema)

end TableIntake.Check
