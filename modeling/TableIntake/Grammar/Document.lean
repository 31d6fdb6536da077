import TableIntake.Grammar.Line

namespace TableIntake.Grammar

open TableIntake.Text

/-! Grammar documents: a line of roles, one of types, one of names, then rows. -/

structure Document where
  roleLine : Line
  typeLine : Line
  nameLine : Line
  dataLines : List Line := []
  deriving DecidableEq, Repr

namespace Document

/-- A line that is not there has no cells, and the number it would have had. -/
def ofLines : List Line → Document
  | role :: type :: name :: rows => ⟨role, type, name, rows⟩
  | [role, type] => ⟨role, type, ⟨3, []⟩, []⟩
  | [role] => ⟨role, ⟨2, []⟩, ⟨3, []⟩, []⟩
  | [] => ⟨⟨1, []⟩, ⟨2, []⟩, ⟨3, []⟩, []⟩

/-- Cells are trimmed. -/
def parse (text : String) : Document :=
  ofLines (Line.ofText trim text)

def lines (document : Document) : List Line :=
  document.roleLine :: document.typeLine :: document.nameLine :: document.dataLines

def width (document : Document) : Nat :=
  document.roleLine.width

end Document

end TableIntake.Grammar
