import TableIntake.Grammar.Dialect
import TableIntake.Grammar.Document

namespace TableIntake.Grammar

open TableIntake.Text

/-! Schemas: the columns that a grammar declares. -/

structure Column where
  name : String := ""
  /-- A column without a type admits every cell. -/
  dataType : Option DataType := none
  role : Role := .none
  deriving DecidableEq, Repr

structure Schema where
  columns : List Column := []
  deriving DecidableEq, Repr

namespace Column

def ofCells (dialect : Dialect) (marker : String) (literal name : Option String) : Column where
  name := name.getD ""
  dataType := literal.bind DataType.ofLiteral?
  role := ((Role.ofMarker? marker).filter dialect.allowsRole).getD .none

def reader : Json.Reader Column :=
  Json.Record.read "Field"
    [⟨"name", .refused, fun column outline => do
        return { column with name := ← Json.Reader.string "a string" outline }⟩,
      ⟨"data_type", .null, fun column outline => do
        return { column with dataType := ← Json.Reader.option DataType.reader outline }⟩,
      ⟨"role", .refused, fun column outline => do
        return { column with role := ← Role.reader outline }⟩]
    ⟨"", none, .none⟩

end Column

namespace Schema

def ofDocument (document : Document) (dialect : Dialect) : Schema where
  columns := document.roleLine.cells.zipIdx.map fun (marker, i) =>
    Column.ofCells dialect marker document.typeLine.cells[i]? document.nameLine.cells[i]?

def width (schema : Schema) : Nat :=
  schema.columns.length

/-- The cells repeat the names of the columns. -/
def isHeader (schema : Schema) (cells : List String) : Bool :=
  !schema.columns.isEmpty && decide (cells.map trimmed = schema.columns.map (·.name))

def reader : Json.Reader Schema :=
  Json.Record.read "Schema"
    [⟨"fields", .refused, fun _ outline => do
        return ⟨← Json.Reader.list Column.reader outline⟩⟩]
    ⟨[]⟩

end Schema

end TableIntake.Grammar
