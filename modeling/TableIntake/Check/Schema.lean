import TableIntake.Finding
import TableIntake.Grammar.Schema

namespace TableIntake.Check

open TableIntake.Grammar
open TableIntake.Json (Value)

/-! The checks of a grammar by itself. None of them keeps another one from being made. -/

def wrongWidth (dialect : Dialect) (expected : Nat) (line : Line) : Finding :=
  let number := line.number
  let cells := ",".intercalate line.cells
  .atLine number (.index 0) (dialect.code .columnCount)
    s!"Line {number}: Invalid number of columns {line.width} (expected {expected}), {cells}"
    (.strings line.cells)

def columnCounts (dialect : Dialect) (document : Document) : List Finding :=
  (document.lines.filter (·.width ≠ document.width)).map
    (wrongWidth dialect document.width)

def invalidRole (dialect : Dialect) (line : Line) (marker : String) (column : Nat) :
    Finding :=
  let position := column + 1
  .atLine line.number (.index (UInt64.ofNat column)) (dialect.code .invalidRole)
    (s!"Invalid role marker at column {position}: first row may only contain "
      ++ s!"{dialect.roleVocabulary} but found \"{marker}\"")
    (.strings line.cells)

def missingKey (dialect : Dialect) (line : Line) : Finding :=
  .ofDocument (dialect.code .invalidRole)
    s!"{dialect.label} should contain at least one {dialect.keyVocabulary} field"
    (.strings line.cells)

/-- Every cell is to be a marker of the dialect, and one of them a marker of a key. -/
def roleMarkers (dialect : Dialect) (line : Line) : List Finding :=
  let strange := line.cells.zipIdx.filter fun (marker, _) => !dialect.allowsMarker marker
  (strange.map fun (marker, column) => invalidRole dialect line marker column)
    ++ if dialect.lacksKey line.cells then [missingKey dialect line] else []

def invalidType (dialect : Dialect) (line : Line) (literal : String) (column : Nat) :
    Finding :=
  let position := column + 1
  .atLine line.number (.index (UInt64.ofNat column)) (dialect.code .invalidDataType)
    (s!"Invalid data type at column {position}: Only {dialect.typeVocabulary} "
      ++ s!"are allowed but found '{literal}'")
    (.strings line.cells)

def dataTypes (dialect : Dialect) (line : Line) : List Finding :=
  let strange := line.cells.zipIdx.filter fun (literal, _) =>
    (dialect.dataType? literal).isNone
  strange.map fun (literal, column) => invalidType dialect line literal column

def grammar (dialect : Dialect) (document : Document) : List Finding :=
  columnCounts dialect document ++ roleMarkers dialect document.roleLine
    ++ dataTypes dialect document.typeLine

end TableIntake.Check
