import Mathlib.Data.List.Basic
import TableIntake.Grammar.Schema

namespace TableIntake.Grammar

open TableIntake.Text

/-! The lines of a text, and what the lines of a grammar declare. -/

namespace Line

/-- The line is that segment of the trimmed text which its number says, and it is not blank. -/
def StandsIn (cell : List Char → List Char) (text : String) (line : Line) : Prop :=
  ∃ segment, 0 < line.number ∧
    (split '\n' (trim text.toList))[line.number - 1]? = some segment ∧ trim segment ≠ [] ∧
    line.cells = (split ',' (trim segment)).map fun raw => String.ofList (cell raw)

/-- All lines of the text that are not blank, in their order. -/
structure Enumerates (cell : List Char → List Char) (text : String) (lines : List Line) :
    Prop where
  ordered : lines.Pairwise (·.number < ·.number)
  mem_iff : ∀ line, line ∈ lines ↔ StandsIn cell text line

theorem ofChars?_eq_some {cell : List Char → List Char} {number : Nat} {cs : List Char}
    {line : Line} :
    ofChars? cell number cs = some line ↔
      line.number = number ∧ trim cs ≠ [] ∧
        line.cells = (split ',' (trim cs)).map fun raw => String.ofList (cell raw) := by
  obtain ⟨other, cells⟩ := line
  unfold ofChars?
  cases htrim : trim cs with
  | nil => simp
  | cons c rest =>
      simp only [Option.some.injEq, mk.injEq, ne_eq, reduceCtorEq, not_false_iff, true_and]
      exact ⟨fun h => ⟨h.1.symm, h.2.symm⟩, fun h => ⟨h.1.symm, h.2.symm⟩⟩

theorem enumerates_ofText (cell : List Char → List Char) (text : String) :
    Enumerates cell text (ofText cell text) where
  ordered := by
    unfold ofText
    rw [List.pairwise_filterMap, List.pairwise_iff_getElem]
    intro i j hi hj hij first hfirst second hsecond
    rw [List.getElem_zipIdx] at hfirst hsecond
    rw [(ofChars?_eq_some.mp hfirst).1, (ofChars?_eq_some.mp hsecond).1]
    omega
  mem_iff := by
    intro line
    unfold ofText
    rw [List.mem_filterMap]
    constructor
    · rintro ⟨⟨segment, number⟩, hmem, hline⟩
      obtain ⟨hnumber, hne, hcells⟩ := ofChars?_eq_some.mp hline
      obtain ⟨hpos, hsegment⟩ := List.mk_mem_zipIdx_iff_le_and_getElem?_sub.mp hmem
      rw [← hnumber] at hpos hsegment
      exact ⟨segment, hpos, hsegment, hne, hcells⟩
    · rintro ⟨segment, hpos, hsegment, hne, hcells⟩
      refine ⟨(segment, line.number), ?_, ofChars?_eq_some.mpr ⟨rfl, hne, hcells⟩⟩
      exact List.mk_mem_zipIdx_iff_le_and_getElem?_sub.mpr ⟨hpos, hsegment⟩

def trimmedCells (line : Line) : Line :=
  { line with cells := line.cells.map trimmed }

/-- The lines of a grammar are rows of data with their cells trimmed. -/
theorem ofText_trim (text : String) :
    ofText trim text = (dataRows text).map trimmedCells := by
  simp only [dataRows, ofText, List.map_filterMap]
  apply List.filterMap_congr
  intro segment _
  simp only [ofChars?]
  cases trim segment.1 with
  | nil => rfl
  | cons c rest => simp [trimmedCells, Function.comp_def, trimmed]

end Line

def cellsAt (lines : List Line) (i : Nat) : List String :=
  (lines[i]?.map Line.cells).getD []

/-- What the lines of a grammar say about its columns. -/
structure Declaration where
  width : Nat
  /-- The type of a column, unless there is none or it is unknown. -/
  dataType? : Nat → Option DataType
  name : Nat → String

namespace Declaration

/-- The first line says how many columns there are, the second one of what type and the third one
of what name each of them is. -/
def ofLines (lines : List Line) : Declaration where
  width := (cellsAt lines 0).length
  dataType? i := (cellsAt lines 1)[i]?.bind DataType.ofLiteral?
  name i := (cellsAt lines 2)[i]?.getD ""

def names (declaration : Declaration) : List String :=
  (List.range declaration.width).map declaration.name

/-- The cells repeat the names of the columns, of which there are some. -/
def IsHeader (declaration : Declaration) (cells : List String) : Prop :=
  0 < declaration.width ∧ cells.map trimmed = declaration.names

end Declaration

theorem cells_ofLines (lines : List Line) :
    (Document.ofLines lines).roleLine.cells = cellsAt lines 0 ∧
      (Document.ofLines lines).typeLine.cells = cellsAt lines 1 ∧
      (Document.ofLines lines).nameLine.cells = cellsAt lines 2 ∧
      (Document.ofLines lines).dataLines = lines.drop 3 := by
  match lines with
  | [] => exact ⟨rfl, rfl, rfl, rfl⟩
  | [_] => exact ⟨rfl, rfl, rfl, rfl⟩
  | [_, _] => exact ⟨rfl, rfl, rfl, rfl⟩
  | _ :: _ :: _ :: _ => exact ⟨rfl, rfl, rfl, rfl⟩

namespace Schema

variable (lines : List Line) (dialect : Dialect)

theorem width_ofDocument :
    (ofDocument (Document.ofLines lines) dialect).width =
      (Declaration.ofLines lines).width := by
  simp [width, ofDocument, Declaration.ofLines, (cells_ofLines lines).1]

theorem getElem?_columns (i : Nat) (hi : i < (Declaration.ofLines lines).width) :
    ∃ column, (ofDocument (Document.ofLines lines) dialect).columns[i]? = some column ∧
      column.dataType = (Declaration.ofLines lines).dataType? i ∧
      column.name = (Declaration.ofLines lines).name i := by
  obtain ⟨hroles, htypes, hnames, -⟩ := cells_ofLines lines
  have hmarker : (cellsAt lines 0)[i]? = some (cellsAt lines 0)[i] :=
    List.getElem?_eq_getElem hi
  refine ⟨Column.ofCells dialect (cellsAt lines 0)[i] (cellsAt lines 1)[i]?
    (cellsAt lines 2)[i]?, ?_, rfl, rfl⟩
  simp [ofDocument, hroles, htypes, hnames, List.getElem?_zipIdx, hmarker]

theorem map_name_columns :
    (ofDocument (Document.ofLines lines) dialect).columns.map (·.name) =
      (Declaration.ofLines lines).names := by
  have hwidth := width_ofDocument lines dialect
  apply List.ext_getElem?
  intro i
  by_cases hi : i < (Declaration.ofLines lines).width
  · obtain ⟨column, hcolumn, -, hname⟩ := getElem?_columns lines dialect i hi
    simp [Declaration.names, hcolumn, hname, hi]
  · have hnone : (ofDocument (Document.ofLines lines) dialect).columns.length ≤ i := by
      rw [← width, hwidth]
      exact Nat.le_of_not_lt hi
    simp [Declaration.names, hi, List.getElem?_eq_none hnone]

theorem isHeader_iff (cells : List String) :
    (ofDocument (Document.ofLines lines) dialect).isHeader cells = true ↔
      (Declaration.ofLines lines).IsHeader cells := by
  have hsome : (!(ofDocument (Document.ofLines lines) dialect).columns.isEmpty) = true ↔
      0 < (Declaration.ofLines lines).width := by
    rw [← width_ofDocument lines dialect, width, List.length_pos_iff]
    simp
  rw [isHeader, Bool.and_eq_true, hsome, decide_eq_true_eq, map_name_columns]
  rfl

end Schema

end TableIntake.Grammar
