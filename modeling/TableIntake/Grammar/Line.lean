import TableIntake.Text.Blank
import TableIntake.Text.Split

namespace TableIntake.Grammar

open TableIntake.Text

/-! Numbered lines of comma-separated cells. -/

structure Line where
  number : Nat := 1
  cells : List String := []
  deriving DecidableEq, Repr

namespace Line

def width (line : Line) : Nat :=
  line.cells.length

def isEmpty (line : Line) : Bool :=
  line.cells.isEmpty

/-- The line at a position, unless it is blank. -/
def ofChars? (cell : List Char → List Char) (number : Nat) (cs : List Char) : Option Line :=
  match trim cs with
  | [] => none
  | c :: rest => some ⟨number, (split ',' (c :: rest)).map fun raw => String.ofList (cell raw)⟩

/-- The lines of a text that are not blank, numbered from 1 behind the blanks at its start. -/
def ofText (cell : List Char → List Char) (text : String) : List Line :=
  ((split '\n' (trim text.toList)).zipIdx 1).filterMap fun (raw, number) =>
    ofChars? cell number raw

end Line

def dataRows (text : String) : List Line :=
  Line.ofText id text

end TableIntake.Grammar
